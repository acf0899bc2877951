import Quorum.Payload.Vote
import Quorum.Peer.Identity

/-!
# Payloads and submissions

* `Payload` : a vote, who casts it and in which round;
* `Submission` : the bytes of a payload and a signature, as they travel to the blocks. The bytes are
  looked at only when the submission is opened, so that a malformed one harms nothing but itself;
* `Submission.open` : the payload, if the bytes decode and the sender that they name signed them.
-/

namespace Quorum

/-- A vote of a peer for one instance of a round. -/
structure Payload where
  sender : PublicKey
  roundCount : RoundCount
  vote : Vote
  deriving DecidableEq

/-- Payload bytes as they travel, signed. -/
structure Submission where
  payload : Bytes
  sig : Signature
  deriving DecidableEq

/-- Why a submission cannot be opened. -/
inductive OpenError where
  /-- The bytes are no payload. -/
  | decode (cause : Wire.DecodeError)
  /-- The sender did not sign the bytes. -/
  | signature
  deriving DecidableEq

/-- The wording of an error. -/
def OpenError.message : OpenError → String
  | decode _ => "Payload does not decode"
  | signature => "Payload not signed by its sender: InvalidSignatureError"

namespace Payload

/-- The kind of the vote. -/
def kind (p : Payload) : VoteKind := p.vote.kind

/-- The fingerprint of the vote. -/
def fingerprint (p : Payload) : Fingerprint := p.vote.fingerprint

instance : Wire.Format Payload where
  encode p := Wire.encode p.sender ++ Wire.encode p.roundCount ++ Wire.encode p.vote
  decode := do
    let sender ← Wire.Format.decode
    let roundCount ← Wire.Format.decode
    let vote ← Wire.Format.decode
    pure ⟨sender, roundCount, vote⟩
  footprint := 112

end Payload

namespace Submission

/-- The tag of signed payload bytes. -/
def tag : String := "pyld"

/-- The hash of payload bytes. -/
def payloadHash (payload : Bytes) : Digest := Blake3.hash (Wire.encodeBytes payload)

/-- The hash of payload bytes that is signed. -/
def payloadSignHash (payload : Bytes) : Digest := signHash tag (Wire.encodeBytes payload)

/-- Sign payload bytes. -/
def sign (payload : Bytes) (sk : SecretKey) : Submission :=
  ⟨payload, sk.attest tag (Wire.encodeBytes payload)⟩

/-- Whether the submission is signed by the owner of a key. -/
def signedBy (s : Submission) (pk : PublicKey) : Bool :=
  pk.attests tag (Wire.encodeBytes s.payload) s.sig

/-- The payload, if the sender that it names signed its bytes. -/
def «open» (s : Submission) : Except OpenError Payload :=
  match Wire.decodeWhole Payload s.payload with
  | .error e => .error (.decode e)
  | .ok p => if s.signedBy p.sender then .ok p else .error .signature

instance : Wire.Format Submission where
  encode s := Wire.encodeBytes s.payload ++ Wire.encode s.sig
  decode := do
    let payload ← Wire.decodeBytes
    let sig ← Wire.Format.decode
    pure ⟨payload, sig⟩
  footprint := 80

end Submission

/-- A payload encoded and signed. -/
def Payload.sign (p : Payload) (sk : SecretKey) : Submission :=
  Submission.sign (Wire.encode p) sk

end Quorum
