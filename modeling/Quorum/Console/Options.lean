import Quorum.Console.Arguments

/-!
# What to do, by the command line and the environment

* `RunOptions` : how to run peers in one process;
* `Options` : the command and the data directory;
* `Options.parse` : reads both from words and environment variables.
-/

namespace Quorum.Console

/-- How to run peers in one process. -/
structure RunOptions where
  peers : UInt64 := 4
  blockIntervalMs : UInt64 := 100
  /-- The blocks that a round may take before it times out. -/
  roundTimeoutBlocks : UInt64 := 30
  historyLen : UInt64 := 64
  sleepMs : UInt64 := 250
  retryAttempts : UInt64 := 5
  submitAttempts : UInt64 := 3
  inclusionTimeoutMs : UInt64 := 2000
  healthcheckTimeoutSecs : UInt64 := 30
  /-- The completed periods after which the service is asked to end. -/
  periods : UInt64 := 3
  /-- The time between two rounds of the beacon. -/
  beaconIntervalMs : UInt64 := 5000
  keepCheckpoints : UInt64 := 16
  /-- Print what the peers ended with as JSON. -/
  json : Bool := false
  deriving DecidableEq

/-- What to do. -/
inductive Command where
  | genSecret
  | run (options : RunOptions)
  deriving DecidableEq

/-- The command and where secrets and checkpoints are kept. -/
structure Options where
  dataDir : Option String
  command : Command
  deriving DecidableEq

/-! ## Values -/

/-- A number below `2 ^ 64`: digits, maybe after a plus sign. -/
def number? (s : String) : Option UInt64 :=
  let digits := match s.toList with
    | '+' :: ds => ds
    | ds => ds
  if digits.isEmpty || !digits.all Char.isDigit then none
  else
    let n := digits.foldl (fun n d => 10 * n + (d.toNat - 48)) 0
    if n < UInt64.size then some (UInt64.ofNat n) else none

/-- The values while words are read. -/
structure Values where
  dataDir : Option String := none
  run : RunOptions := {}

/-- An option of `run` that takes a number. -/
def numberOption (name envName : String) (put : RunOptions → UInt64 → RunOptions) :
    OptionSpec Values where
  name
  envName := "AGORA_" ++ envName
  takesValue := true
  set s := match number? s with
    | some n => .ok fun v => { v with run := put v.run n }
    | none => .error .unreadableValue

/-- The switch of `run`. -/
def jsonOption : OptionSpec Values where
  name := "json"
  envName := "AGORA_JSON"
  takesValue := false
  set s :=
    if s = "true" then .ok fun v => { v with run := { v.run with json := true } }
    else if s = "false" then .ok fun v => { v with run := { v.run with json := false } }
    else .error .invalidValue

/-- The option that every command has. -/
def dataDirOption : OptionSpec Values where
  name := "data-dir"
  envName := "AGORA_DATA_DIR"
  takesValue := true
  set s :=
    if s.isEmpty then .error .invalidValue else .ok fun v => { v with dataDir := some s }

/-- The options of `run`. -/
def runOptions : List (OptionSpec Values) := [
  numberOption "peers" "PEERS" ({ · with peers := · }),
  numberOption "block-interval-ms" "BLOCK_INTERVAL_MS" ({ · with blockIntervalMs := · }),
  numberOption "round-timeout-blocks" "ROUND_TIMEOUT_BLOCKS" ({ · with roundTimeoutBlocks := · }),
  numberOption "history-len" "HISTORY_LEN" ({ · with historyLen := · }),
  numberOption "sleep-ms" "SLEEP_MS" ({ · with sleepMs := · }),
  numberOption "retry-attempts" "RETRY_ATTEMPTS" ({ · with retryAttempts := · }),
  numberOption "submit-attempts" "SUBMIT_ATTEMPTS" ({ · with submitAttempts := · }),
  numberOption "inclusion-timeout-ms" "INCLUSION_TIMEOUT_MS" ({ · with inclusionTimeoutMs := · }),
  numberOption "healthcheck-timeout-secs" "HEALTHCHECK_TIMEOUT_SECS"
    ({ · with healthcheckTimeoutSecs := · }),
  numberOption "periods" "PERIODS" ({ · with periods := · }),
  numberOption "beacon-interval-ms" "BEACON_INTERVAL_MS" ({ · with beaconIntervalMs := · }),
  numberOption "keep-checkpoints" "KEEP_CHECKPOINTS" ({ · with keepCheckpoints := · }),
  jsonOption]

/-! ## Commands -/

/-- The words before the command. -/
def programSpec : CommandSpec Values where
  options := [dataDirOption]
  commands := ["gen-secret", "run", "help"]
  hasVersion := true

/-- The words after a command. -/
def commandSpec (name : String) : CommandSpec Values where
  options := if name = "run" then runOptions ++ [dataDirOption] else [dataDirOption]

/-- The answer to `help` with the commands that it is asked about. -/
def helpOn : List String → UsageError
  | [] | ["gen-secret"] | ["run"] | ["help"] => .help
  | _ => .unknownCommand

/-- Check what was read and fill in the rest; the values from the words alone come back too. -/
def complete (env : String → Option String) (c : CommandSpec Values) (s : Scan Values) :
    Except UsageError (Scan Values × Values) := do
  let s ← s.settle
  pure (← s.fillFrom env c.options, s.values)

/-- Read the words after the name of a command. -/
def parseCommand (env : String → Option String) (name : String) (words : List String) :
    Except UsageError (Scan Values × Values) := do
  if name = "help" then throw (helpOn words)
  let c := commandSpec name
  complete env c (← Scan.words c { values := {} } words).1

/-- Read words and environment. A data directory after the command comes before one in front of it,
and both before one from the environment. -/
def Options.parse (words : List String) (env : String → Option String) :
    Except UsageError Options := do
  let (scan, command) ← Scan.words programSpec { values := {} } words
  let inner ← command.mapM fun (name, rest) => do
    pure (name, ← parseCommand env name rest)
  let (full, front) ← complete env programSpec scan
  match inner with
  | none => throw (if full.given.isEmpty then .nothingGiven else .missingCommand)
  | some (name, filled, after) =>
    pure {
      dataDir := (after.dataDir.or front.dataDir).or full.values.dataDir
      command := if name = "run" then .run filled.values.run else .genSecret }

end Quorum.Console
