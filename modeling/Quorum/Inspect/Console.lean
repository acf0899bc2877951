import Quorum.Console.Command
import Quorum.Inspect.Read

/-!
# Views of the program

What the options of the program and the results of local runs look like from outside.
-/

namespace Quorum.Inspect

open Console Json

instance : Inspect RunOptions := ⟨fun o => .object [
  field "peers" o.peers, field "block_interval_ms" o.blockIntervalMs,
  field "round_timeout_blocks" o.roundTimeoutBlocks, field "history_len" o.historyLen,
  field "sleep_ms" o.sleepMs, field "retry_attempts" o.retryAttempts,
  field "submit_attempts" o.submitAttempts, field "inclusion_timeout_ms" o.inclusionTimeoutMs,
  field "healthcheck_timeout_secs" o.healthcheckTimeoutSecs, field "periods" o.periods,
  field "beacon_interval_ms" o.beaconIntervalMs, field "keep_checkpoints" o.keepCheckpoints,
  field "json" o.json]⟩

instance : Inspect Options := ⟨fun o => .object [
  field "data_dir" o.dataDir,
  field "command" (match o.command with
    | .genSecret => view "gen-secret"
    | .run r => .object [field "run" r])]⟩

instance : Read Report where
  read j := do
    some ⟨← j.arg "peer", ← j.arg "last", ← j.argD "finished" false, ← j.argD "blocks" 0,
      ← j.argD "transitions" 0, ← j.argD "dropped" 0⟩

/-- What matters of a local run whose keys anyone could have; `brief` leaves out what depends on the
speed of the clock. -/
def summaryView (brief : Bool) (s : Summary) : Json :=
  let peer (r : Report) : Json :=
    if brief then .array [view r.finished, view r.last.round, view r.last.data.db.keys]
    else .object [field "finished" r.finished, field "round" r.last.round,
      field "rc" r.last.roundCount, field "version" r.last.data.version,
      field "period_count" (Summary.periods r), field "transitions" (toString r.transitions),
      field "keys" r.last.data.db.keys]
  .object ([field "agreed" s.agreed, field "peers" (s.peers.map peer)] ++
    if brief then [] else [field "sent" s.sentTransactions])

/-- How a run of the program ended, and whether it printed anything. -/
def exitView (o : Outcome) : Json := .object [field "exit" o.exitCode,
  field "stdout_empty" o.stdout.isEmpty, field "stderr_empty" o.stderr.isEmpty]

instance : Inspect Outcome := ⟨fun o => .object [field "exit" o.exitCode, field "stdout" o.stdout,
  field "stderr" o.stderr]⟩

end Quorum.Inspect
