import Quorum.External.World
import Quorum.Gateway
import Quorum.Round.Kind
import Quorum.Snapshot.View

/-!
# Resumable work

A behaviour is work that stops whenever it needs something from outside and goes on with what it
gets.

* `Ask` : what work can ask for, with the type of the answer;
* `Machine` : stages of work, each of which is over or asks for something.
-/

namespace Quorum

/-- A number of milliseconds since the start. -/
abbrev Instant := Nat

/-- Where the application is, as its peer last published it. -/
structure RoundInfo where
  round : RoundKind
  roundCount : RoundCount
  version : Version
  /-- The height of the last applied block. -/
  height : Height
  finished : Bool
  deriving DecidableEq

/-- A property of the agreed data to wait for. -/
inductive Condition where
  | terminationReached
  | versionFrom (v : Version)
  deriving DecidableEq

/-- Whether a property holds. -/
def Condition.holds : Condition → Snapshot → Bool
  | terminationReached, s => s.terminationReached.toOption.getD false
  | versionFrom v, s => v ≤ s.version

/-- What work can ask for. -/
inductive Ask where
  /-- The agreed data as last published. -/
  | snapshot
  /-- Where the application is. -/
  | info
  /-- What time it is. -/
  | clock
  /-- Sign a vote for the round and submit it. -/
  | submit (vote : Vote)
  /-- How far the chain of blocks is. -/
  | status
  | call (c : External.Call)
  | sleep (duration : Nat)
  /-- Let time pass between two attempts, at most until an instant. -/
  | pause (duration : Nat) (limit : Option Instant)
  /-- Wait for the round to end. -/
  | roundEnd (timeout : Option Nat)
  /-- Wait for a property of the agreed data. -/
  | condition (c : Condition) (timeout : Option Nat)
  deriving DecidableEq

/-- The answer to a request. For those that can run out of time it says whether they did not. -/
@[reducible] def Ask.Answer : Ask → Type
  | snapshot => Snapshot
  | info => RoundInfo
  | clock => Instant
  | submit _ => Except GatewayError Height
  | status => Except GatewayError GatewayStatus
  | call _ => External.Result
  | sleep _ => Unit
  | pause .. => Bool
  | roundEnd _ => Bool
  | condition .. => Bool

/-- What a stage comes to: a result, or a request and the stage after its answer. -/
inductive Step (σ ρ : Type) where
  | done (result : ρ)
  | ask (a : Ask) (resume : a.Answer → σ)

/-- Work with stages in `σ` and a result in `ρ`. -/
abbrev Machine (σ ρ : Type) := σ → Step σ ρ

/-- The work of asking once. -/
def Ask.once (a : Ask) : Machine (Option a.Answer) a.Answer
  | none => .ask a some
  | some answer => .done answer

end Quorum
