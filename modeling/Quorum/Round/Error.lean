import Quorum.Payload.Submission
import Quorum.Round.Kind
import Quorum.Snapshot.Basic
import Quorum.Text.Failure

/-!
# What can go wrong in a round

* `Rejection` : why one submission is not counted; the round goes on;
* `ConfigError` : why an application cannot be put together;
* `FatalError` : after which a peer cannot go on.
-/

namespace Quorum

/-- Why a submission is not counted. -/
inductive Rejection where
  | unopened (cause : OpenError)
  | wrongType (round : RoundKind) (received : VoteKind)
  | stale (expected received : RoundCount)
  | concluded (round : RoundKind)
  | notKeeper (round : RoundKind) (sender : PublicKey)
  | unauthorizedSender (sender : PublicKey)
  deriving DecidableEq

/-- The wording of a rejection. -/
def Rejection.message : Rejection → String
  | unopened cause => cause.message
  | wrongType round received =>
    "Round " ++ round.name ++ " does not accept " ++ received.name ++ " payloads"
  | stale expected received =>
    "Stale payload - expected: " ++ toString expected ++ ", received: " ++ toString received
  | concluded round => "Round " ++ round.name ++ " already concluded"
  | notKeeper round _ => "Only the keeper may submit in " ++ round.name
  | unauthorizedSender sender => "Sender " ++ sender.toHex ++ " is not a participant"

/-- Why an application cannot be put together. -/
inductive ConfigError where
  | noParticipants (round : RoundKind)
  | tooManyParticipants (round : RoundKind) (size limit : Nat)
  | unknownTransition (round : RoundKind) (event : Event)
  | notBackground (round : RoundKind)
  | terminalWithEdges (round : RoundKind)
  | duplicateTransition (round : RoundKind) (event : Event)
  deriving DecidableEq

/-- The wording of a configuration error. -/
def ConfigError.message : ConfigError → String
  | noParticipants round => "Round " ++ round.name ++ " has no known participants"
  | tooManyParticipants round size limit =>
    "Round " ++ round.name ++ " has " ++ toString size ++ " participants, at most " ++
      toString limit ++ " are supported"
  | unknownTransition round event => "No transition from " ++ round.name ++ " on " ++ event.name
  | notBackground round => "Round " ++ round.name ++ " is not a background round"
  | terminalWithEdges round => "Terminal round " ++ round.name ++ " has outgoing transitions"
  | duplicateTransition round event =>
    "Duplicate transition from " ++ round.name ++ " on " ++ event.name

/-- After which a peer cannot go on. -/
inductive FatalError where
  /-- Two values have a threshold of votes each. -/
  | consensusInvariantViolation (round : RoundKind) (first second : Fingerprint)
  | blockOutOfOrder (expected received : Height)
  /-- The agreed data does not hold what the round needs. -/
  | snapshot (round : RoundKind) (cause : SnapshotError)
  | unexpectedPayload (round : RoundKind) (received : VoteKind)
  | unexpectedDecision (round : RoundKind)
  | configuration (cause : ConfigError)
  /-- A counter is at its greatest value. -/
  | outOfNumbers
  deriving DecidableEq

namespace FatalError

/-- What a fatal error says, with what it was caused by. -/
def failure : FatalError → Failure
  | consensusInvariantViolation round first second =>
    ⟨"Consensus invariant violated in " ++ round.name ++ ": both " ++ first.toHex ++ " and " ++
      second.toHex ++ " reached threshold", []⟩
  | blockOutOfOrder expected received =>
    ⟨"Block out of order - expected: " ++ toString expected ++ ", received: " ++
      toString received, []⟩
  | snapshot round cause =>
    ⟨"Round " ++ round.name ++ " could not read agreed state", [cause.message]⟩
  | unexpectedPayload round received =>
    ⟨"Round " ++ round.name ++ " agreed on a " ++ received.name ++ " payload", []⟩
  | unexpectedDecision round =>
    ⟨"Round " ++ round.name ++ " can't conclude with collected payloads", []⟩
  | configuration cause => ⟨cause.message, []⟩
  | outOfNumbers => ⟨"Can't run out of numbers", []⟩

/-- The wording of a fatal error. -/
def message (e : FatalError) : String := e.failure.line

end FatalError

end Quorum
