import Quorum.Agent.Fleet
import Quorum.Behaviour.Trial
import Quorum.Inspect.Round

/-!
# Views of peers

What calls, gateways, behaviours and agents look like from outside.
-/

namespace Quorum.Inspect

open External

instance : Inspect BehaviourKind := ⟨fun k => view k.name⟩

instance : Inspect Status := ⟨fun s => view s.text⟩

instance : Inspect GatewayStatus :=
  ⟨fun s => .object [field "height" s.height, field "syncing" s.syncing]⟩

instance : Inspect Response where
  view r :=
    let tagged (name : String) (fs : List (String × Json)) := Json.object (field "is" name :: fs)
    match r with
    | .read bs => tagged "read" [field "bytes" bs]
    | .sent tx => tagged "sent" [field "tx" tx]
    | .receipt none => tagged "receipt" [field "tx" Json.null]
    | .receipt (some r) => tagged "receipt" [field "tx" r.tx, field "success" r.success]
    | .randomness o => tagged "randomness" [field "round" o.round, field "value" o.value]

instance : Inspect Receipt :=
  ⟨fun r => .object [field "tx" r.tx, field "success" r.success]⟩

instance : Inspect Observation := ⟨fun o => .array [view o.round, view o.value]⟩

instance : Inspect Sent := ⟨fun s => .array [view s.contract, view s.method, view s.tx]⟩

instance : Inspect Delivery := ⟨fun
  | .delivered => view "Delivered"
  | .dropped => view "Dropped"⟩

/-- A time in milliseconds. -/
def millis (n : Nat) : Json := view (toString n)

instance : Inspect BehaviourParams := ⟨fun p => .object [
  field "sleep" (millis p.sleep), field "retry_attempts" p.retryAttempts,
  field "submit_attempts" p.submitAttempts, field "submit_timeout" (millis p.submitTimeout),
  field "inclusion_timeout" (millis p.inclusionTimeout),
  field "request_timeout" (millis p.requestTimeout),
  field "healthcheck_timeout" (millis p.healthcheckTimeout),
  field "max_backoff" (millis p.maxBackoff)]⟩

/-- Where the application of an agent is, and whether the agent still runs. -/
def agentRow (a : Agent) (running : Bool) : Json :=
  .array [view a.info.round, view a.info.roundCount, view a.info.version, view a.info.height,
    view a.info.finished, view running]

/-- A row for every agent, or one row and its number if all are equal. -/
def fleetRows (f : Fleet) : Json :=
  let rows := f.agents.zipIdx.map fun e => agentRow e.1 (f.running e.2)
  match rows with
  | r :: rest =>
    if rest.all fun q => q.compact = r.compact then .array [r, view rows.length] else .array rows
  | [] => .array []

/-- What the work of a behaviour came to. -/
def behaviourResult : Except BehaviourError Unit → Json
  | .ok () => view "done"
  | .error e => .object (Fault.fields (Fault.kind e) (Fault.text e) ++ [field "fatal" e.isFatal])

/-- The result of work if it has just ended. -/
def trialResult {σ ρ : Type} (result : ρ → Json) (t : Trial σ ρ) : Json :=
  match t.result with
  | some r => result r
  | none => if t.ended then view "gone" else .null

/-- What an observer of a trial sees. -/
def trialFields {σ ρ : Type} (t : Trial σ ρ) : List (String × Json) :=
  [field "state" t.task.status, field "pending" t.site.dispatcher.pending.size,
    field "dropped" (toString t.site.dispatcher.dropped),
    field "submitted" t.site.gateway.pending.length] ++
  if t.log.isEmpty then [] else
    [field "delivered" (t.log.map fun e =>
      [view e.1.1, view e.1.2, view (e.2 == .delivered)])]

/-- What an agent ended with; `full` shows the data too. -/
def reportView (full : Bool) (store : Option CheckpointStore) (r : Report) : Json :=
  .object ([field "peer" r.peer.short, field "finished" r.finished,
    field "blocks" (toString r.blocks), field "transitions" (toString r.transitions),
    field "dropped" (toString r.dropped),
    field "last" (checkpointView full r.last)] ++
  match store with
  | none => []
  | some s => [field "stored" s.versions,
      field "stored_latest" (s.latest?.map fun c => (c.round, c.height))])

/-- What the agents of a fleet ended with; the data are shown of the first one. -/
def fleetReports (f : Fleet) : Json :=
  view (f.agents.zipIdx.map fun (a, i) =>
    (f.result? i).map fun (r : Except AgentError Report) =>
      view (r.map (reportView (i == 0) a.store)))

end Quorum.Inspect
