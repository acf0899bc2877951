/-!
# How patient a behaviour is

`BehaviourParams` says how long a behaviour waits and how often it tries. All times are in
milliseconds. `Backoff` is the growing pause between rounds of attempts.
-/

namespace Quorum

/-- How long a behaviour waits and how often it tries. -/
structure BehaviourParams where
  /-- The pause between polls and retries. -/
  sleep : Nat := 250
  /-- The attempts at an external call before giving up. -/
  retryAttempts : Nat := 5
  /-- The submissions of a vote before a longer pause. -/
  submitAttempts : Nat := 3
  submitTimeout : Nat := 5000
  /-- How long to wait for the round to end after a submission. -/
  inclusionTimeout : Nat := 2000
  requestTimeout : Nat := 10000
  healthcheckTimeout : Nat := 30000
  /-- The pause that no longer grows. -/
  maxBackoff : Nat := 10000
  retryAttempts_pos : 0 < retryAttempts := by omega
  submitAttempts_pos : 0 < submitAttempts := by omega
  deriving DecidableEq

/-- The usual patience. -/
def BehaviourParams.standard : BehaviourParams := {}

/-- The same patience with other numbers of attempts, at least one of each. -/
def BehaviourParams.withAttempts (p : BehaviourParams) (retry submit : Nat) : BehaviourParams :=
  { p with
    retryAttempts := max retry 1
    submitAttempts := max submit 1
    retryAttempts_pos := by omega
    submitAttempts_pos := by omega }

/-- Growing pauses, each the sum of the two before it, until one is at least the limit. Every pause
is drawn out by the same amount. -/
structure Backoff where
  /-- The first pause. -/
  unit : Nat
  limit : Nat
  /-- What a pause is drawn out by. -/
  jitter : Nat := 0
  /-- The last pause, if there was one. -/
  last : Option Nat := none
  /-- The pause before it. -/
  previous : Option Nat := none
  deriving DecidableEq

namespace Backoff

/-- The next pause, not drawn out. -/
def base (b : Backoff) : Nat :=
  match b.last with
  | none => b.unit
  | some d => if d < b.limit then d + b.previous.getD 0 else d

/-- The next pause. -/
def delay (b : Backoff) : Nat := b.base + b.jitter

/-- What is left after the next pause. -/
def next (b : Backoff) : Backoff :=
  match b.last with
  | none => { b with last := some b.unit }
  | some d =>
    if d < b.limit then { b with last := some b.base, previous := some d } else b

/-- The pauses start with two of the unit, then grow. -/
example : let b : Backoff := { unit := 20, limit := 100 }
    [b.delay, b.next.delay, b.next.next.delay, b.next.next.next.delay] = [20, 20, 40, 60] := by
  decide

end Backoff

end Quorum
