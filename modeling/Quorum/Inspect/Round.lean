import Quorum.Application.Basic
import Quorum.Inspect.Error

/-!
# Views of rounds

What the votes, the agreed data, the rounds and the application look like from outside.
-/

namespace Quorum.Inspect

instance : Inspect PeerSet := ⟨fun s => view s.peers⟩
instance : Inspect RoundKind := ⟨fun k => view k.name⟩
instance : Inspect Event := ⟨fun e => view e.name⟩

instance : Inspect PeerCount := ⟨fun n => .object [field "display" (toString n.total),
  field "total" n.total, field "max_faulty" n.maxFaulty, field "threshold" n.threshold,
  field "max" PeerCount.limit]⟩

/-- The peers of a set and how many of them make a majority. -/
def peerSetFields (s : PeerSet) : List (String × Json) :=
  [field "set" s, field "threshold" s.threshold?]

/-- What is fixed about a kind of round. -/
def roundKindFields (k : RoundKind) : List (String × Json) :=
  [field "display" k, field "debug" k.label, field "json" k.label,
    field "encoded" (Wire.encode k), field "tx_type" (k.votes?.map VoteKind.name),
    field "strategy" k.strategy.label, field "events" k.events,
    field "emits" (Event.all.map k.emits), field "terminal" k.isTerminal,
    field "background" k.isBackground]

/-- What is fixed about an event. -/
def eventFields (e : Event) : List (String × Json) :=
  [field "display" e, field "json" e.label, field "encoded" (Wire.encode e)]

instance : Inspect Vote where
  view v :=
    let tagged (name : String) (fs : List (String × Json)) := Json.object (field "t" name :: fs)
    match v with
    | .registration => tagged "registration" []
    | .randomness round v => tagged "randomness" [field "round" round, field "value" v]
    | .selectKeeper k => tagged "select_keeper" [field "keeper" k]
    | .signature s => tagged "signature" [field "sig" s]
    | .finalization tx => tagged "finalization" [field "tx" tx]
    | .validate ok => tagged "validate" [field "ok" ok]
    | .termination tx => tagged "termination" [field "tx" tx]

instance : Inspect Payload :=
  ⟨fun p => .object [field "from" p.sender, field "rc" p.roundCount, field "data" p.vote]⟩

/-- A payload with its encoding and its hashes. -/
def payloadFields (p : Payload) : List (String × Json) :=
  let encoded := Wire.encode p
  [field "payload" p, field "type" p.kind.name, field "type_json" p.kind.label,
    field "encoded" encoded, field "fingerprint" p.fingerprint,
    field "raw_hash" (Submission.payloadHash encoded),
    field "sign_hash" (Submission.payloadSignHash encoded)]

/-- The fields of a block, without its submissions. -/
def blockFields (b : Block) : List (String × Json) :=
  [field "height" b.height, field "prev" b.prevHash, field "hash" b.hash]

/-- A submission by its payload, or by its bytes if it does not open. -/
instance : Inspect Submission where
  view s := .object (match s.open with
    | .ok p => [field "payload" p, field "sig" s.sig]
    | .error e => [field "bytes" s.payload, field "sig" s.sig, field "open" (viewFault e)])

instance : Inspect Block :=
  ⟨fun b => .object (blockFields b ++ [field "payloads" b.submissions])⟩

/-- The values of a snapshot by key. -/
def database (s : Snapshot) : Json := .object (s.db.entries.map fun e => field e.1 e.2)

/-- The fields of a snapshot. -/
def snapshotFields (s : Snapshot) : List (String × Json) :=
  [field "version" s.version, field "len" s.size, field "db" (database s)]

instance : Inspect Snapshot := ⟨fun s => .object (snapshotFields s)⟩

/-- What a snapshot holds under each of its well-known keys. -/
def snapshotValue? (s : Snapshot) : String → Option Json
  | "participants" => some (view s.participants)
  | "most_voted_randomness" => some (view s.randomness)
  | "most_voted_randomness_round" => some (view s.randomnessRound)
  | "most_voted_keeper_address" => some (view s.keeper)
  | "previous_keeper_address" => some (view s.previousKeeper)
  | "participant_to_signature" => some (view s.signatures)
  | "final_tx_hash" => some (view s.finalTx)
  | "period_count" => some (view s.periodCount)
  | "termination_majority_reached" => some (view s.terminationReached)
  | "most_voted_tx_hash" => some (view s.terminationTx)
  | _ => none

instance : Inspect History := ⟨fun h => .object [field "versions" h.versions, field "len" h.size,
  field "empty" (h.size == 0), field "latest" (h.latest?.map (·.version))]⟩

/-- A checkpoint, with its data or without them. -/
def checkpointView (full : Bool) (c : Checkpoint) : Json :=
  .object [field "data" (if full then some c.data else none), field "round" c.round,
    field "previous" c.previous, field "rc" c.roundCount, field "height" c.height]

instance : Inspect Checkpoint := ⟨checkpointView true⟩

/-- The fields of a round that its votes change. -/
def voteFields (r : Round) : List (String × Json) :=
  [field "state" (if r.concluded then "concluded" else "collecting"),
    field "votes" r.payloads.size, field "tally" r.tally]

instance : Inspect Round := ⟨fun r => .object ([field "id" r.kind, field "rc" r.roundCount,
  field "threshold" r.threshold, field "participants" r.participants.size,
  field "start" r.startHeight] ++ voteFields r)⟩

instance : Inspect Transition := ⟨fun t => .object [field "from" t.source, field "event" t.event,
  field "to" t.target, field "version" t.version, field "rc" t.roundCount,
  field "preempted" t.preempted]⟩

instance : Inspect BlockOutcome := ⟨fun b => .object [field "height" b.height,
  field "accepted" b.accepted, field "rejected" b.rejected, field "transition" b.transition]⟩

instance : Inspect AppParams := ⟨fun p => .object [field "participants" p.participants.size,
  field "round_timeout" p.roundTimeout, field "history_len" p.historyLength]⟩

/-- The fields of an application, without its data. -/
def applicationFields (a : Application) : List (String × Json) :=
  [field "round" a.current.kind, field "prev" a.previous, field "rc" a.roundCount,
    field "height" a.height, field "version" a.data.version, field "finished" a.isFinished,
    field "cur" a.current, field "bg" a.background]

end Quorum.Inspect
