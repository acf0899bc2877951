import Quorum.Console.Command

/-!
# The program

Reads the command line and the environment, keeps secrets and checkpoints in files, lets a local run
take as long as its clock says, and prints what came of it.
-/

namespace Quorum.Console

/-- A new secret key. -/
def freshKey : IO SecretKey := do
  let bytes ← IO.getRandomBytes 32
  pure ((Octets.ofBytes? .secretKey bytes.toList).getD Octets.zero)

/-- The file with the secret keys. -/
def secretsFile (dir : String) : String := dir ++ "/peers.txt"

/-- The file with the checkpoints of a peer. -/
def storeFile (dir : String) (i : Nat) : String :=
  dir ++ "/peer-" ++ toString i ++ ".checkpoints"

/-- The content of a file, nothing if it is not there. -/
def contentOf {α : Type} (read : IO α) : IO (Option α) := do
  match ← read.toBaseIO with
  | .ok a => pure (some a)
  | .error _ => pure none

/-- The store of a peer, empty if it has none yet. -/
def readStore (dir : String) (i : Nat) : IO CheckpointStore := do
  let content ← contentOf (IO.FS.readBinFile (storeFile dir i))
  let found := content.bind fun bytes =>
    (Wire.decodeWhole (SortedMap Version Checkpoint) bytes.toList).toOption
  pure ⟨found.getD SortedMap.empty, false⟩

/-- What a data directory holds for a number of peers. -/
def readDataDir (dir : String) (peers : Nat) : IO DataDir := do
  IO.FS.createDirAll dir
  let secrets ← contentOf (IO.FS.readFile (secretsFile dir))
  let stores ← (List.range peers).mapM (readStore dir)
  pure { secrets, stores }

/-- Write the stores that differ from those written before. -/
def writeStores (dir : String) (before after : DataDir) : IO Unit := do
  for i in List.range after.stores.length do
    if before.store i ≠ after.store i then
      let bytes := Wire.encode (after.store i).checkpoints
      IO.FS.writeBinFile (storeFile dir i) ⟨bytes.toArray⟩

/-- Take the steps of a local run when they are due. -/
partial def follow (dir : Option String) (r : LocalRun) : IO (Except Failure Summary) := do
  match r.outcome?, r.step? with
  | some result, _ => pure result
  | none, none => pure (.error ⟨"No peer can go on", []⟩)
  | none, some next =>
    IO.sleep (UInt32.ofNat (next.fleet.scene.now - r.fleet.scene.now))
    if let some dir := dir then writeStores dir r.dataDir next.dataDir
    follow dir next

/-- Run peers in this process. -/
def runPeers (dir : Option String) (o : RunOptions) : IO Outcome := do
  let peers := o.peers.toNat
  if let .error f := LocalRun.checkPeers peers then return failureOutcome f
  let content ← dir.mapM fun d => readDataDir d peers
  let fresh ← (List.range peers).mapM fun _ => freshKey
  match LocalRun.start o content fresh with
  | .error f => pure (failureOutcome f)
  | .ok r =>
    if let (some dir, some ⟨none, _⟩) := (dir, content) then
      IO.FS.writeFile (secretsFile dir) (DataDir.textOf fresh)
    pure (runOutcome o.json (← follow dir r))

/-- Do what the options say. -/
def runCommand (o : Options) : IO Outcome := do
  match o.command with
  | .genSecret => pure (secretOutcome (← freshKey))
  | .run r => runPeers o.dataDir r

/-- The environment variables that options can come from. -/
def environment : IO (List (String × String)) := do
  let names := (runOptions ++ [dataDirOption]).map (·.envName)
  names.filterMapM fun name => do pure ((← IO.getEnv name).map (name, ·))

/-- Run the program with the words of a command line. -/
def runProgram (words : List String) : IO Outcome := do
  let env ← environment
  match Options.parse words fun name => env.lookup name with
  | .error e => pure e.outcome
  | .ok o => runCommand o

end Quorum.Console

def main (words : List String) : IO UInt32 := do
  let outcome ← Quorum.Console.runProgram words
  (← IO.getStdout).putStr outcome.stdout
  (← IO.getStderr).putStr outcome.stderr
  pure (UInt32.ofNat outcome.exitCode)
