import Quorum.Curve.Ed25519
import Quorum.Hash.Blake3
import Quorum.Wire.Format

/-!
# What a peer signs

* `signHash tag encoded` : the hash that stands for a message of a kind, told apart from messages
  of other kinds by a four-byte tag;
* `PublicKey.attests` : whether a signature over a message is the peer's;
* `PublicKey.short` : the abbreviated form of a key.
-/

namespace Quorum

/-- The hash that is signed for a message: the tag keeps messages of different kinds apart. -/
def signHash (tag : String) (encoded : Bytes) : Digest :=
  Blake3.hash (Bytes.ofString "agra" ++ Bytes.ofString tag ++ (Blake3.hash encoded).bytes)

/-- Whether the signature over a message is that of the owner of the key. -/
def PublicKey.attests (pk : PublicKey) (tag : String) (encoded : Bytes) (sig : Signature) : Bool :=
  pk.verify (signHash tag encoded).bytes sig

/-- The signature over a message. -/
def SecretKey.attest (sk : SecretKey) (tag : String) (encoded : Bytes) : Signature :=
  sk.sign (signHash tag encoded).bytes

/-- The first and the last three bytes of a key. -/
def PublicKey.short (pk : PublicKey) : String :=
  Hex.encode (pk.bytes.take 3) ++ "…" ++ Hex.encode (pk.bytes.drop 29)

end Quorum
