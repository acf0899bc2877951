import Quorum.Application.Table
import Quorum.Payload.Block
import Quorum.Round.Voting
import Quorum.Snapshot.History

/-!
# The application

A peer's copy of the service: the current round, the round in the background, and the agreed data.
It looks at blocks only, so every peer that applies the same blocks has the same copy.

* `Checkpoint` : what a copy can be resumed from;
* `Application.start`, `Application.restore` : a fresh copy and a resumed one;
* `Application.route` : where the payload of a submission is counted;
* `Application.transition` : moves to the round that follows;
* `Application.processBlock` : applies one block.
-/

namespace Quorum

/-- What every peer must be configured with. -/
structure AppParams where
  /-- The peers, before registration agrees on those that take part. -/
  participants : PeerSet
  /-- The number of blocks after which a round without a decision times out. -/
  roundTimeout : UInt64 := 30
  /-- The number of past snapshots to keep. -/
  historyLength : Nat := 64
  deriving DecidableEq

/-- What an application can be resumed from. -/
structure Checkpoint where
  data : Snapshot
  /-- The round to resume in. -/
  round : RoundKind
  previous : Option RoundKind
  roundCount : RoundCount
  /-- The height of the last applied block. -/
  height : Height
  deriving DecidableEq

instance : Wire.Format Checkpoint where
  encode c := Wire.encode c.data ++ Wire.encode c.round ++ Wire.encode c.previous ++
    Wire.encode c.roundCount ++ Wire.encode c.height
  decode := do
    let data ← Wire.Format.decode
    let round ← Wire.Format.decode
    let previous ← Wire.Format.decode
    let roundCount ← Wire.Format.decode
    let height ← Wire.Format.decode
    pure ⟨data, round, previous, roundCount, height⟩
  footprint := 40

/-- A step from one round to the next. -/
structure Transition where
  source : RoundKind
  event : Event
  target : RoundKind
  version : Version
  roundCount : RoundCount
  /-- The event came from the background round. -/
  preempted : Bool
  deriving DecidableEq

/-- What became of a block. -/
structure BlockOutcome where
  height : Height
  accepted : Nat
  rejected : Nat
  transition : Option Transition
  deriving DecidableEq

/-- A peer's copy of the service. -/
structure Application where
  params : AppParams
  table : Table
  current : Round
  previous : Option RoundKind
  background : Option Round
  data : Snapshot
  history : History
  roundCount : RoundCount
  /-- The height of the last applied block. -/
  height : Height
  deriving DecidableEq

namespace Application

/-- A fresh instance of a kind of round. -/
def instantiate (params : AppParams) (data : Snapshot) (kind : RoundKind)
    (roundCount : RoundCount) (height : Height) : Except FatalError Round := do
  let participants ← kind.participants data params.participants
  let keeper ← kind.keeper? data
  (Round.start kind roundCount participants keeper height false).mapError .configuration

/-- Whether the service has ended. -/
def isFinished (a : Application) : Bool := a.current.kind.isTerminal

/-- A fresh background round, unless the one that runs asks the same peers. Votes in the background
so outlive the rounds in the foreground. -/
def refreshBackground (a : Application) : Except FatalError Application :=
  match a.table.backgroundRound? with
  | none => .ok a
  | some kind =>
    if a.isFinished then .ok { a with background := none }
    else do
      let participants ← kind.participants a.data a.params.participants
      if a.background.any (·.participants = participants) then pure a
      else
        let round ← (Round.start kind a.roundCount participants none a.height true).mapError
          .configuration
        pure { a with background := some round }

/-- Resume from a checkpoint. -/
def restoreWith (params : AppParams) (table : Table) (c : Checkpoint) :
    Except FatalError Application := do
  let current ← instantiate params c.data c.round c.roundCount c.height
  refreshBackground {
    params, table, current
    previous := c.previous
    background := none
    data := c.data
    history := History.start c.data params.historyLength
    roundCount := c.roundCount
    height := c.height }

/-- Start in the initial round of a table. -/
def startWith (params : AppParams) (table : Table) : Except FatalError Application :=
  restoreWith params table ⟨Snapshot.empty, table.initial, none, Counter.zero, Counter.zero⟩

/-- Start the bundled application. -/
def start (params : AppParams) : Except FatalError Application := do
  let table ← Table.bundled.mapError .configuration
  startWith params table

/-- Resume the bundled application from a checkpoint. -/
def restore (params : AppParams) (c : Checkpoint) : Except FatalError Application := do
  let table ← Table.bundled.mapError .configuration
  restoreWith params table c

/-- What this application can be resumed from. -/
def checkpoint (a : Application) : Checkpoint :=
  ⟨a.data, a.current.kind, a.previous, a.roundCount, a.height⟩

/-! ## Applying blocks -/

/-- Count an opened payload in the background round, if that one collects votes of its kind, and in
the current round otherwise. -/
def routePayload (a : Application) (p : Payload) : Except Rejection Application :=
  match a.background.filter fun bg => bg.kind.votes? = some p.kind with
  | some bg => (fun r => { a with background := some r }) <$> bg.accept p
  | none => (fun r => { a with current := r }) <$> a.current.accept p

/-- Open a submission and count its payload. -/
def route (a : Application) (s : Submission) : Except Rejection Application :=
  match s.open with
  | .ok p => a.routePayload p
  | .error e => .error (.unopened e)

/-- Route submissions one after the other: the application, how many were counted and how many
were not. -/
def routeAll (a : Application) (subs : List Submission) : Application × Nat × Nat :=
  subs.foldl (fun (a, accepted, rejected) s =>
    match a.route s with
    | .ok a => (a, accepted + 1, rejected)
    | .error _ => (a, accepted, rejected + 1)) (a, 0, 0)

/-- Move to the round that follows `source` on an event, with new agreed data. Nothing is changed
unless the new round can be started. -/
def transition (a : Application) (source : RoundKind) (data : Snapshot) (event : Event)
    (preempted : Bool) : Application × Except FatalError Transition :=
  let ready : Except FatalError (RoundKind × RoundCount × Round) := do
    let target ← (a.table.target source event).mapError .configuration
    let roundCount ← a.roundCount.next?.elim (.error .outOfNumbers) .ok
    let current ← instantiate a.params data target roundCount a.height
    pure (target, roundCount, current)
  match ready with
  | .error e => (a, .error e)
  | .ok (target, roundCount, current) =>
    let moved : Application := { a with
      history := a.history.push data
      data, roundCount, current
      previous := some a.current.kind }
    let t : Transition := ⟨source, event, target, data.version, roundCount, preempted⟩
    if preempted then ({ moved with background := none }, .ok t)
    else
      match moved.refreshBackground with
      | .error e => (moved, .error e)
      | .ok b => (b, .ok t)

/-- End the block for the background round. -/
def endBackground (a : Application) (height : Height) :
    Application × Except FatalError (Option (RoundKind × Snapshot × Event)) :=
  match a.background with
  | none => (a, .ok none)
  | some bg =>
    let (bg', res) := bg.endBlock a.data height a.params.roundTimeout
    ({ a with background := some bg' }, res.map fun o => o.map fun (s, e) => (bg.kind, s, e))

/-- End the block for the current round. -/
def endForeground (a : Application) (height : Height) :
    Application × Except FatalError (Option (Snapshot × Event)) :=
  let (r, res) := a.current.endBlock a.data height a.params.roundTimeout
  ({ a with current := r }, res)

/-- End the block for both rounds, which see the same data; the background round comes first. -/
def endBlock (a : Application) (height : Height) :
    Application × Except FatalError (Option Transition) :=
  match a.endBackground height with
  | (a, .error e) => (a, .error e)
  | (a, .ok background) =>
    match a.endForeground height with
    | (a, .error e) => (a, .error e)
    | (a, .ok foreground) =>
      match background, foreground with
      | some (kind, data, event), _ =>
        let (a, res) := a.transition kind data event true
        (a, res.map some)
      | none, some (data, event) =>
        let (a, res) := a.transition a.current.kind data event false
        (a, res.map some)
      | none, none => (a, .ok none)

/-- Apply the next block. Submissions that do not count are dropped; an error means that the peer
cannot go on. -/
def processBlock (a : Application) (b : Block) : Application × Except FatalError BlockOutcome :=
  match a.height.next? with
  | none => (a, .error .outOfNumbers)
  | some expected =>
    if b.height ≠ expected then (a, .error (.blockOutOfOrder expected b.height))
    else
      let a := { a with height := b.height }
      if a.isFinished then (a, .ok ⟨b.height, 0, 0, none⟩)
      else
        let (a, accepted, rejected) := a.routeAll b.submissions
        let (a, res) := a.endBlock b.height
        (a, res.map fun t => ⟨b.height, accepted, rejected, t⟩)

end Application

end Quorum
