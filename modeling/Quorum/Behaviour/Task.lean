import Quorum.Behaviour.Params
import Quorum.Behaviour.Machine
import Quorum.External.Dispatcher

/-!
# Work in time

* `Site` : all that work can reach at an instant;
* `Status` : what a task is doing, for observers;
* `Task` : work that has been started for a peer;
* `Task.poll` : goes on with a task as far as it can get now.
-/

namespace Quorum

/-- All that work can reach at an instant. -/
structure Site where
  now : Instant
  gateway : Gateway
  world : External.World
  dispatcher : External.Dispatcher
  info : RoundInfo
  snapshot : Snapshot

/-- What a task waits for. -/
inductive Suspension where
  | message (nonce : RequestNonce)
  | timer
  | roundEnd
  | condition
  deriving DecidableEq

/-- The text of a suspension. -/
def Suspension.text : Suspension → String
  | message nonce => "message#" ++ toString nonce
  | timer => "timer"
  | roundEnd => "round-end"
  | condition => "condition"

/-- What a task is doing. -/
inductive Status where
  | ready
  | running
  | suspended (s : Suspension)
  | done
  deriving DecidableEq

namespace Status

/-- The text of a status. -/
def text : Status → String
  | ready => "ready"
  | running => "running"
  | suspended s => "suspended(" ++ s.text ++ ")"
  | done => "done"

/-- Whether the task is over. -/
def isDone (s : Status) : Bool := s = done

/-- After a suspension has ended. -/
def resumed : Status → Status
  | suspended _ => running
  | s => s

end Status

/-- For whom a task works. -/
structure Actor where
  key : SecretKey
  params : BehaviourParams
  instanceId : InstanceId
  /-- The round count that the task was started at. -/
  roundCount : RoundCount

/-- The submission of a vote of an actor. -/
def Actor.sign (a : Actor) (v : Vote) : Submission :=
  (⟨a.key.publicKey, a.roundCount, v⟩ : Payload).sign a.key

/-- What a task remembers of a request that it waits for. -/
structure Waiting where
  since : Instant
  /-- The number of an external call. -/
  nonce : Option RequestNonce := none

/-! ## Requests -/

namespace Ask

/-- Start waiting for the answer. A call is carried out at once; its result comes in later. -/
def begin (a : Ask) (actor : Actor) (s : Site) : Waiting × Site :=
  match a with
  | call c =>
    match s.dispatcher.register? actor.instanceId with
    | none => (⟨s.now, none⟩, s)
    | some (d, nonce) =>
      let (world, r) := s.world.perform c
      (⟨s.now, some nonce⟩, { s with world, dispatcher := d.enqueue nonce r })
  | _ => (⟨s.now, none⟩, s)

/-- What an observer sees while a task waits. -/
def suspension? (w : Waiting) : Ask → Option Suspension
  | call _ => w.nonce.map .message
  | sleep _ => some .timer
  | roundEnd _ => some .roundEnd
  | condition .. => some .condition
  | _ => none

/-- Whether the time for an answer is over. -/
def expired (w : Waiting) (timeout : Option Nat) (now : Instant) : Bool :=
  timeout.any fun t => w.since + t ≤ now

/-- A wait that is over when something holds, or without it when its time is over. -/
def awaiting (holds : Bool) (w : Waiting) (timeout : Option Nat) (s : Site) : Option (Bool × Site) :=
  if holds then some (true, s) else if expired w timeout s.now then some (false, s) else none

/-- Whether the round of an actor has ended. -/
def roundEnded (actor : Actor) (i : RoundInfo) : Bool :=
  i.roundCount ≠ actor.roundCount || i.finished

/-- The answer to a call: what arrived, or a failure when the time is over. -/
def received (actor : Actor) (w : Waiting) (s : Site) : Option (External.Result × Site) :=
  match w.nonce.bind s.dispatcher.receive? with
  | some (d, r) => some (r, { s with dispatcher := d })
  | none =>
    if expired w (some actor.params.requestTimeout) s.now then
      some (.error .timeout,
        { s with dispatcher := w.nonce.elim s.dispatcher s.dispatcher.abandon })
    else none

/-- The answer, if there is one now. -/
def answer? (actor : Actor) (w : Waiting) (s : Site) : (a : Ask) → Option (a.Answer × Site)
  | snapshot => some (s.snapshot, s)
  | info => some (s.info, s)
  | clock => some (s.now, s)
  | submit v =>
    let (gateway, r) := s.gateway.submit (actor.sign v)
    some (r, { s with gateway })
  | status => some (.ok s.gateway.status, s)
  | call _ => received actor w s
  | sleep d => if w.since + d ≤ s.now then some ((), s) else none
  | pause d limit =>
    if w.since + d ≤ s.now then some (true, s)
    else if limit.any (· ≤ s.now) then some (false, s)
    else none
  | roundEnd timeout => awaiting (roundEnded actor s.info) w timeout s
  | condition c timeout => awaiting (c.holds s.snapshot) w timeout s

/-- The instant at which waiting for an answer ends at the latest. -/
def due? (actor : Actor) (w : Waiting) : Ask → Option Instant
  | call _ => some (w.since + actor.params.requestTimeout)
  | sleep d => some (w.since + d)
  | pause d limit => some ((limit.map (min (w.since + d))).getD (w.since + d))
  | roundEnd timeout | condition _ timeout => timeout.map (w.since + ·)
  | _ => none

end Ask

/-! ## Tasks -/

/-- Work that has been started for a peer. -/
structure Task (σ : Type) where
  actor : Actor
  stage : σ
  /-- The request of the stage, if it has been made. -/
  waiting : Option Waiting := none
  status : Status := .ready

namespace Task

variable {σ ρ : Type}

/-- Go on as far as possible at this instant, in at most `fuel` steps. -/
def poll (m : Machine σ ρ) : Nat → Task σ → Site → Task σ × Site × Option ρ
  | 0, t, s => (t, s, none)
  | fuel + 1, t, s =>
    match m t.stage with
    | .done result => (t, s, some result)
    | .ask a resume =>
      let (w, s) := match t.waiting with
        | some w => (w, s)
        | none => a.begin t.actor s
      let status := (a.suspension? w).elim t.status .suspended
      match a.answer? t.actor w s with
      | none => ({ t with waiting := some w, status }, s, none)
      | some (answer, s) =>
        poll m fuel
          { t with stage := resume answer, waiting := none, status := status.resumed } s

/-- Give up on a task: no answer is waited for any more. -/
def abort (t : Task σ) (d : External.Dispatcher) : Task σ × External.Dispatcher :=
  ({ t with waiting := none, status := t.status.resumed },
    (t.waiting.bind Waiting.nonce).elim d d.abandon)

/-- The next instant at which a task goes on by itself. -/
def due? (m : Machine σ ρ) (t : Task σ) : Option Instant :=
  match m t.stage, t.waiting with
  | .ask a _, some w => a.due? t.actor w
  | _, _ => none

/-- More steps than a task takes at one instant. -/
def stepLimit : Nat := 100000

end Task

end Quorum
