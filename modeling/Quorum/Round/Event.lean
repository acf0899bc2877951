import Quorum.Wire.Format

/-!
# Outcomes of rounds

The event with which a round ends selects the round that follows.
-/

namespace Quorum

/-- How a round ended. -/
inductive Event where
  | done
  | noMajority
  | roundTimeout
  | finalizationFailed
  | negative
  | terminate
  deriving DecidableEq, Repr

namespace Event

/-- Every event, in the order of the wire form. -/
def all : List Event := [done, noMajority, roundTimeout, finalizationFailed, negative, terminate]

/-- The number of an event in the wire form. -/
def number : Event → Nat
  | done => 0
  | noMajority => 1
  | roundTimeout => 2
  | finalizationFailed => 3
  | negative => 4
  | terminate => 5

/-- The name of an event in messages. -/
def name : Event → String
  | done => "done"
  | noMajority => "no_majority"
  | roundTimeout => "round_timeout"
  | finalizationFailed => "finalization_failed"
  | negative => "negative"
  | terminate => "terminate"

/-- The name of an event in structured output. -/
def label : Event → String
  | done => "Done"
  | noMajority => "NoMajority"
  | roundTimeout => "RoundTimeout"
  | finalizationFailed => "FinalizationFailed"
  | negative => "Negative"
  | terminate => "Terminate"

instance : Wire.Format Event where
  encode e := Wire.encodeVariant e.number
  decode := do
    let n ← Wire.decodeVariant
    match all[n]? with
    | some e => pure e
    | none => Wire.Decoder.fail (.unknownVariant n)
  footprint := 1

end Event

end Quorum
