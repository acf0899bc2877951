import Quorum.Hash.Blake3
import Quorum.Wire.Format

/-!
# What peers vote for

* `Vote` : the content of a payload, one kind for each kind of round;
* `Vote.fingerprint` : the hash of the wire form, so that votes for the same value are counted
  together whoever sends them.
-/

namespace Quorum

/-- The kinds of votes. -/
inductive VoteKind where
  | registration
  | randomness
  | selectKeeper
  | signature
  | finalization
  | validate
  | termination
  deriving DecidableEq, Repr

namespace VoteKind

/-- Every kind, in the order of the wire form. -/
def all : List VoteKind :=
  [registration, randomness, selectKeeper, signature, finalization, validate, termination]

/-- The number of a kind in the wire form. -/
def number : VoteKind → Nat
  | registration => 0
  | randomness => 1
  | selectKeeper => 2
  | signature => 3
  | finalization => 4
  | validate => 5
  | termination => 6

/-- The name of a kind in messages. -/
def name : VoteKind → String
  | registration => "registration"
  | randomness => "randomness"
  | selectKeeper => "select_keeper"
  | signature => "signature"
  | finalization => "finalization"
  | validate => "validate"
  | termination => "termination"

/-- The name of a kind in structured output. -/
def label : VoteKind → String
  | registration => "Registration"
  | randomness => "Randomness"
  | selectKeeper => "SelectKeeper"
  | signature => "Signature"
  | finalization => "Finalization"
  | validate => "Validate"
  | termination => "Termination"

instance : Wire.Format VoteKind where
  encode k := Wire.encodeVariant k.number
  decode := do
    let n ← Wire.decodeVariant
    match all[n]? with
    | some k => pure k
    | none => Wire.Decoder.fail (.unknownVariant n)
  footprint := 1

end VoteKind

/-- The content of a payload. -/
inductive Vote where
  /-- The sender is ready to start. -/
  | registration
  /-- The beacon showed this value at this round of its own. -/
  | randomness (round : UInt64) (value : Randomness)
  /-- This peer should send the transaction. -/
  | selectKeeper (keeper : PublicKey)
  /-- The sender's signature of the transaction. -/
  | signature (sig : Signature)
  /-- The transaction that the keeper sent, nothing if it could not. -/
  | finalization (tx : Option TxHash)
  /-- Whether the transaction was carried out, nothing if there is no receipt. -/
  | validate (ok : Option Bool)
  /-- The service should end because of this transaction. -/
  | termination (tx : TxHash)
  deriving DecidableEq

namespace Vote

/-- The kind of a vote. -/
def kind : Vote → VoteKind
  | registration => .registration
  | randomness .. => .randomness
  | selectKeeper _ => .selectKeeper
  | signature _ => .signature
  | finalization _ => .finalization
  | validate _ => .validate
  | termination _ => .termination

/-- The wire form of what a vote holds beside its kind. -/
def encodeContent : Vote → Bytes
  | registration => []
  | randomness round value => Wire.encode round ++ Wire.encode value
  | selectKeeper keeper => Wire.encode keeper
  | signature sig => Wire.encode sig
  | finalization tx => Wire.encode tx
  | validate ok => Wire.encode ok
  | termination tx => Wire.encode tx

/-- Read what a vote of a kind holds. -/
def decodeContent : VoteKind → Wire.Decoder Vote
  | .registration => pure registration
  | .randomness => do
    let round ← Wire.Format.decode
    let value ← Wire.Format.decode
    pure (randomness round value)
  | .selectKeeper => selectKeeper <$> Wire.Format.decode
  | .signature => signature <$> Wire.Format.decode
  | .finalization => finalization <$> Wire.Format.decode
  | .validate => validate <$> Wire.Format.decode
  | .termination => termination <$> Wire.Format.decode

instance : Wire.Format Vote where
  encode v := Wire.encode v.kind ++ v.encodeContent
  decode := do
    let kind ← Wire.Format.decode
    decodeContent kind
  footprint := 72

/-- The hash that votes for the same value have in common. -/
def fingerprint (v : Vote) : Fingerprint := (Blake3.hash (Wire.encode v)).toFingerprint

end Vote

end Quorum
