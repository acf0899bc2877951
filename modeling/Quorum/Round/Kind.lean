import Quorum.Payload.Vote
import Quorum.Round.Event

/-!
# Kinds of rounds

Each kind of round collects one kind of votes, in one way, and can end with some of the events.

* `Strategy` : when a round has collected enough;
* `RoundKind.strategy`, `RoundKind.votes?`, `RoundKind.events` : the properties of a kind.
-/

namespace Quorum

/-- When a round has collected enough. -/
inductive Strategy where
  /-- A threshold of the participants voted for the same value. -/
  | sameUntilThreshold
  /-- Every participant voted for the same value. -/
  | sameUntilAll
  /-- A threshold of the participants voted for anything. -/
  | differentUntilThreshold
  /-- The keeper voted. -/
  | onlyKeeperSends
  /-- Never: the round accepts nothing. -/
  | terminal
  deriving DecidableEq, Repr

/-- The name of a strategy in structured output. -/
def Strategy.label : Strategy → String
  | sameUntilThreshold => "SameUntilThreshold"
  | sameUntilAll => "SameUntilAll"
  | differentUntilThreshold => "DifferentUntilThreshold"
  | onlyKeeperSends => "OnlyKeeperSends"
  | terminal => "Terminal"

/-- The kinds of rounds. -/
inductive RoundKind where
  | registrationStartup
  | randomness
  | selectKeeper
  | collectSignature
  | finalization
  | validateTransaction
  /-- Runs in the background of the others. -/
  | termination
  | terminated
  deriving DecidableEq, Repr

namespace RoundKind

/-- Every kind, in the order of the wire form. -/
def all : List RoundKind :=
  [registrationStartup, randomness, selectKeeper, collectSignature, finalization,
    validateTransaction, termination, terminated]

/-- The number of a kind in the wire form. -/
def number : RoundKind → Nat
  | registrationStartup => 0
  | randomness => 1
  | selectKeeper => 2
  | collectSignature => 3
  | finalization => 4
  | validateTransaction => 5
  | termination => 6
  | terminated => 7

/-- The name of a kind in messages. -/
def name : RoundKind → String
  | registrationStartup => "registration_startup"
  | randomness => "randomness"
  | selectKeeper => "select_keeper"
  | collectSignature => "collect_signature"
  | finalization => "finalization"
  | validateTransaction => "validate_transaction"
  | termination => "termination"
  | terminated => "terminated"

/-- The name of a kind in structured output. -/
def label : RoundKind → String
  | registrationStartup => "RegistrationStartup"
  | randomness => "Randomness"
  | selectKeeper => "SelectKeeper"
  | collectSignature => "CollectSignature"
  | finalization => "Finalization"
  | validateTransaction => "ValidateTransaction"
  | termination => "Termination"
  | terminated => "Terminated"

instance : Wire.Format RoundKind where
  encode k := Wire.encodeVariant k.number
  decode := do
    let n ← Wire.decodeVariant
    match all[n]? with
    | some k => pure k
    | none => Wire.Decoder.fail (.unknownVariant n)
  footprint := 1

/-- The kind of votes that a round collects. -/
def votes? : RoundKind → Option VoteKind
  | registrationStartup => some .registration
  | randomness => some .randomness
  | selectKeeper => some .selectKeeper
  | collectSignature => some .signature
  | finalization => some .finalization
  | validateTransaction => some .validate
  | termination => some .termination
  | terminated => none

/-- When a round has collected enough. -/
def strategy : RoundKind → Strategy
  | registrationStartup => .sameUntilAll
  | randomness | selectKeeper | validateTransaction | termination => .sameUntilThreshold
  | collectSignature => .differentUntilThreshold
  | finalization => .onlyKeeperSends
  | terminated => .terminal

/-- Every event with which a round can end. -/
def events : RoundKind → List Event
  | registrationStartup => [.done]
  | randomness => [.done, .noMajority, .roundTimeout]
  | selectKeeper => [.done, .roundTimeout]
  | collectSignature => [.done, .roundTimeout]
  | finalization => [.done, .finalizationFailed, .roundTimeout]
  | validateTransaction => [.done, .negative, .roundTimeout]
  | termination => [.terminate]
  | terminated => []

/-- Whether a round can end with an event. -/
def emits (k : RoundKind) (e : Event) : Bool := k.events.contains e

/-- Whether a round never ends. -/
def isTerminal (k : RoundKind) : Bool := k.strategy = .terminal

/-- Whether a round runs in the background of others. -/
def isBackground (k : RoundKind) : Bool := k = termination

end RoundKind

end Quorum
