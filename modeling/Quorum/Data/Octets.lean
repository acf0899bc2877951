import Quorum.Data.Hex

/-!
# Byte strings of a fixed size

* `Octets role` : the byte strings that play one role (a key, a signature, a hash, …), each role
  with its own width, so that a hash is never taken for a key;
* `Octets.ofBytes?` : a byte string of the right width;
* `Octets.parse` : the hexadecimal form, with any number of leading `0x`;
* the order is that of the bytes from the first to the last.
-/

namespace Quorum

/-- What a fixed-size byte string stands for. -/
inductive OctetRole where
  | publicKey
  | secretKey
  | signature
  | blockHash
  | txHash
  | randomness
  | fingerprint
  | digest
  deriving DecidableEq, Repr

/-- The number of bytes of a role: 64 for a signature, 32 for everything else. -/
def OctetRole.width : OctetRole → Nat
  | signature => 64
  | _ => 32

/-- A byte string of the width of its role. -/
structure Octets (role : OctetRole) where
  bytes : Bytes
  length_eq : bytes.length = role.width
  deriving DecidableEq

/-- A peer's identity, an Ed25519 verification key. -/
abbrev PublicKey := Octets .publicKey
/-- A peer's Ed25519 seed. -/
abbrev SecretKey := Octets .secretKey
/-- An Ed25519 signature. -/
abbrev Signature := Octets .signature
/-- The hash of a block. -/
abbrev BlockHash := Octets .blockHash
/-- The hash of a transaction on the external chain. -/
abbrev TxHash := Octets .txHash
/-- A value of the randomness beacon. -/
abbrev Randomness := Octets .randomness
/-- The hash of what a payload votes for, whoever sends it. -/
abbrev Fingerprint := Octets .fingerprint
/-- The hash of anything else. -/
abbrev Digest := Octets .digest

namespace Octets

variable {role : OctetRole}

/-- The bytes as a value of the role, if there are as many as it needs. -/
def ofBytes? (role : OctetRole) (bs : Bytes) : Option (Octets role) :=
  if h : bs.length = role.width then some ⟨bs, h⟩ else none

/-- A value holds the bytes that it was made from. -/
theorem bytes_of_ofBytes? {bs : Bytes} {o : Octets role} (h : ofBytes? role bs = some o) :
    o.bytes = bs := by
  unfold ofBytes? at h
  split at h
  · cases h; rfl
  · cases h

/-- All bytes equal to `b`. -/
def fill (b : UInt8) : Octets role := ⟨List.replicate role.width b, List.length_replicate⟩

/-- All bytes zero. -/
def zero : Octets role := fill 0

instance : Inhabited (Octets role) := ⟨zero⟩

/-- The same bytes in another role of the same width. -/
def cast {other : OctetRole} (o : Octets role) (h : role.width = other.width) :
    Octets other := ⟨o.bytes, o.length_eq.trans h⟩

/-- The lowercase hexadecimal form. -/
def toHex (o : Octets role) : String := Hex.encode o.bytes

/-- Read the hexadecimal form, without its leading `0x`s; the right digits of a wrong number of
bytes are a length error at the start. -/
def parse (role : OctetRole) (text : String) : Except HexError (Octets role) :=
  match Hex.decode (Hex.stripMarks (Bytes.ofString text)) with
  | .error e => .error e
  | .ok bs => (ofBytes? role bs).elim (.error (.length 0)) .ok

/-! ## Order -/

instance : Ord (Octets role) := ⟨compareOn bytes⟩

instance : Std.TransOrd (Octets role) :=
  inferInstanceAs (Std.TransCmp (compareOn (bytes : Octets role → Bytes)))

instance : Std.LawfulEqOrd (Octets role) where
  compare_self {a} := (Std.ReflCmp.compare_self : compare a.bytes a.bytes = .eq)
  eq_of_compare {a b} h := by
    obtain ⟨as, _⟩ := a
    obtain ⟨bs, _⟩ := b
    have h : compare as bs = .eq := h
    obtain rfl : as = bs := Std.LawfulEqCmp.eq_of_compare h
    rfl

@[ext] theorem ext {a b : Octets role} (h : a.bytes = b.bytes) : a = b := by
  cases a; cases b; cases h; rfl

@[simp] theorem ofBytes?_bytes (o : Octets role) : ofBytes? role o.bytes = some o :=
  dif_pos o.length_eq

end Octets

/-! ## What hashes stand for -/

namespace Digest

/-- The hash of a block. -/
def toBlockHash (d : Digest) : BlockHash := d.cast (by rfl)

/-- The hash of a transaction. -/
def toTxHash (d : Digest) : TxHash := d.cast (by rfl)

/-- A random value that is a hash. -/
def toRandomness (d : Digest) : Randomness := d.cast (by rfl)

/-- The hash of what a vote is for. -/
def toFingerprint (d : Digest) : Fingerprint := d.cast (by rfl)

end Digest

end Quorum
