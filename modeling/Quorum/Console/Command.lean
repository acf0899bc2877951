import Quorum.Console.Options
import Quorum.Local.Run

/-!
# What the program prints

`Outcome` is what a run of the program leaves behind: its exit code and what it printed.

* `UsageError.outcome` : help, the version, or why the words are not understood;
* `secretOutcome` : a new secret key;
* `summaryOutcome`, `failureOutcome` : what a local run came to.
-/

namespace Quorum.Console

/-- What a run of the program leaves behind. -/
structure Outcome where
  exitCode : Nat
  stdout : String := ""
  stderr : String := ""
  deriving DecidableEq

/-- The name of the program and its version. -/
def versionText : String := "agora 0.1.0\n"

/-- The line of an option in the help. -/
def optionLine (o : OptionSpec Values) : String :=
  "      --" ++ o.name ++ (if o.takesValue then " <VALUE>" else "") ++ " [env: " ++ o.envName ++
    "]\n"

/-- What the program understands. -/
def helpText : String :=
  "Usage: agora [OPTIONS] <COMMAND>\n\nCommands:\n" ++
  "  gen-secret  Print a new secret key\n" ++
  "  run         Run peers in one process until they agree to end\n" ++
  "  help        Print this text\n\nOptions:\n" ++ optionLine dataDirOption ++
  "  -h, --help\n  -V, --version\n\nOptions of run:\n" ++
  "".intercalate (runOptions.map optionLine)

/-- Why words are not understood. -/
def UsageError.message : UsageError → String
  | help | version | nothingGiven => ""
  | missingCommand => "error: a command is required\n"
  | unknownCommand => "error: unrecognized command\n"
  | unknownArgument => "error: unexpected argument\n"
  | invalidValue => "error: a value is missing or not possible\n"
  | unreadableValue => "error: invalid value\n"
  | tooManyValues => "error: unexpected value\n"
  | repeated => "error: an option cannot be used multiple times\n"

/-- Help and version are printed as asked for, all else is an error. -/
def UsageError.outcome : UsageError → Outcome
  | help => ⟨0, helpText, ""⟩
  | version => ⟨0, versionText, ""⟩
  | e => ⟨2, "", e.message ++ "\n" ++ helpText⟩

/-- A secret key to keep, and the public key that goes with it. -/
def secretOutcome (key : SecretKey) : Outcome :=
  ⟨0, key.toHex ++ "\n", "PeerId: " ++ key.publicKey.toHex ++ "\n"⟩

/-- What a local run ended with. -/
def summaryOutcome (json : Bool) (s : Summary) : Outcome :=
  if json then ⟨0, s.toJson.pretty ++ "\n", ""⟩ else ⟨0, "", s.text⟩

/-- Why a local run failed. -/
def failureOutcome (f : Failure) : Outcome := ⟨1, "", f.report⟩

/-- What a local run came to. -/
def runOutcome (json : Bool) : Except Failure Summary → Outcome
  | .ok s => summaryOutcome json s
  | .error f => failureOutcome f

end Quorum.Console
