import Quorum.Round.Kind

/-!
# Kinds of behaviours

What a peer does in each kind of round. The health check comes before all rounds.
-/

namespace Quorum

/-- What a peer can be busy with. -/
inductive BehaviourKind where
  | healthcheck
  | registration
  | randomness
  | selectKeeper
  | signature
  | finalize
  | validateTransaction
  | termination
  deriving DecidableEq, Repr

namespace BehaviourKind

/-- Every kind. -/
def all : List BehaviourKind :=
  [healthcheck, registration, randomness, selectKeeper, signature, finalize, validateTransaction,
    termination]

/-- The name of a kind in messages. -/
def name : BehaviourKind → String
  | healthcheck => "healthcheck"
  | registration => "registration"
  | randomness => "randomness"
  | selectKeeper => "select_keeper"
  | signature => "signature"
  | finalize => "finalize"
  | validateTransaction => "validate_transaction"
  | termination => "termination"

/-- The kind of round that a behaviour belongs to. -/
def round? : BehaviourKind → Option RoundKind
  | healthcheck => none
  | registration => some .registrationStartup
  | randomness => some .randomness
  | selectKeeper => some .selectKeeper
  | signature => some .collectSignature
  | finalize => some .finalization
  | validateTransaction => some .validateTransaction
  | termination => some .termination

/-- The behaviour of a kind of round. -/
def ofRound? : RoundKind → Option BehaviourKind
  | .registrationStartup => some registration
  | .randomness => some randomness
  | .selectKeeper => some selectKeeper
  | .collectSignature => some signature
  | .finalization => some finalize
  | .validateTransaction => some validateTransaction
  | .termination => some termination
  | .terminated => none

/-- Each kind of round has at most one behaviour, which belongs to it alone. -/
theorem ofRound?_eq_some_iff {k : RoundKind} {b : BehaviourKind} :
    ofRound? k = some b ↔ b.round? = some k := by
  cases k <;> cases b <;> decide

end BehaviourKind

end Quorum
