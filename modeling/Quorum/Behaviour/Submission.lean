import Quorum.Behaviour.Machine
import Quorum.Behaviour.Params

/-!
# Submitting until the round ends

A vote is submitted again and again, as submissions get lost. After a number of submissions comes a
growing pause. Only the end of the round ends the work.
-/

namespace Quorum

/-- Where the work of submitting a vote is. -/
inductive SubmitPhase where
  /-- About to submit. -/
  | send
  /-- A submission was acknowledged; the round may end. -/
  | await
  /-- Out of attempts for now. -/
  | rest
  /-- The round has ended. -/
  | ended
  deriving DecidableEq

/-- The work of submitting a vote until the round ends. -/
structure Submitting where
  vote : Vote
  /-- The submissions since the last pause, the one at hand included. -/
  attempt : Nat
  backoff : Backoff
  phase : SubmitPhase
  deriving DecidableEq

namespace Submitting

/-- The pauses between rounds of attempts. Any addition below the first pause would do to draw them
out. -/
def pauses (p : BehaviourParams) : Backoff :=
  { unit := p.sleep, limit := p.maxBackoff, jitter := p.sleep / 2 }

/-- Before the first submission. -/
def start (p : BehaviourParams) (vote : Vote) : Submitting := ⟨vote, 1, pauses p, .send⟩

/-- After a submission that did not end the round. -/
def again (p : BehaviourParams) (s : Submitting) : Submitting :=
  if s.attempt < p.submitAttempts then { s with attempt := s.attempt + 1, phase := .send }
  else { s with phase := .rest }

/-- After an answer of the gateway. -/
def acknowledged (p : BehaviourParams) (s : Submitting) : Except GatewayError Height → Submitting
  | .ok _ => { s with phase := .await }
  | .error _ => s.again p

/-- After the wait for the end of the round. -/
def awaited (p : BehaviourParams) (s : Submitting) (ended : Bool) : Submitting :=
  if ended then { s with phase := .ended } else s.again p

/-- After a pause. -/
def rested (s : Submitting) : Submitting :=
  { s with attempt := 1, backoff := s.backoff.next, phase := .send }

/-- One step of the work. -/
def step (p : BehaviourParams) : Machine Submitting Unit := fun s =>
  match s.phase with
  | .send => .ask (.submit s.vote) (s.acknowledged p)
  | .await => .ask (.roundEnd (some p.inclusionTimeout)) (s.awaited p)
  | .rest => .ask (.sleep s.backoff.delay) fun _ => s.rested
  | .ended => .done ()

end Submitting

end Quorum
