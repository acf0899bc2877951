import Quorum.Curve.Point
import Quorum.Data.Octets
import Quorum.Hash.Sha512

/-!
# Ed25519 signatures

* `SecretKey.publicKey` : the verification key of a seed;
* `SecretKey.sign` : the deterministic signature of a message;
* `PublicKey.point?` : the point of a key, if its bytes encode one;
* `PublicKey.verify` : strict verification. The scalar must be reduced, the key and the first half
  of the signature must be points that are not of small order, and the equation is checked without
  the cofactor.
-/

namespace Quorum

open Curve

/-- The number that 64 hash bytes stand for modulo the group order. -/
def Curve.hashScalar (bs : Bytes) : Nat := Bytes.toNatLE (Sha512.hash bs) % groupOrder

namespace SecretKey

/-- The highest bit of every secret scalar, `2 ^ 254`. -/
def topBit : Nat := 0x4000000000000000000000000000000000000000000000000000000000000000

/-- The secret scalar of a seed and the key of its nonces. -/
def expand (sk : SecretKey) : Nat × Bytes :=
  let h := Sha512.hash sk.bytes
  let n := Bytes.toNatLE (h.take 32)
  (n % topBit / 8 * 8 + topBit, h.drop 32)

/-- The verification key of a seed. -/
def publicKey (sk : SecretKey) : PublicKey :=
  ⟨(Point.scaleBase sk.expand.1).compress, Point.length_compress _⟩

/-- The signature of a message by the owner of a seed and its verification key. -/
def signAs (sk : SecretKey) (pk : PublicKey) (message : Bytes) : Signature :=
  let (s, nonceKey) := sk.expand
  let r := hashScalar (nonceKey ++ message)
  let rBytes := (Point.scaleBase r).compress
  let k := hashScalar (rBytes ++ pk.bytes ++ message)
  ⟨rBytes ++ Bytes.ofNatLE 32 ((r + k * s) % groupOrder), by
    rw [List.length_append, Point.length_compress, Bytes.length_ofNatLE]; rfl⟩

/-- The signature of a message. -/
def sign (sk : SecretKey) (message : Bytes) : Signature := sk.signAs sk.publicKey message

end SecretKey

namespace PublicKey

/-- The point of a key, if its bytes encode one. -/
def point? (pk : PublicKey) : Option Point := Point.decompress? pk.bytes

/-- Whether a signature of a message is valid under a key. -/
def verify (pk : PublicKey) (message : Bytes) (sig : Signature) : Bool :=
  let rBytes := sig.bytes.take 32
  let s := Bytes.toNatLE (sig.bytes.drop 32)
  match pk.point?, Point.decompress? rBytes with
  | some a, some r =>
    if groupOrder ≤ s || a.isSmallOrder || r.isSmallOrder then false
    else
      let k := hashScalar (rBytes ++ pk.bytes ++ message)
      ((Point.scaleBase s).add (a.neg.scale k)).compress == rBytes
  | _, _ => false

end PublicKey

end Quorum
