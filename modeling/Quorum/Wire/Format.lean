import Quorum.Data.Counter
import Quorum.Data.Octets
import Quorum.Data.SortedMap
import Quorum.Wire.Varint

/-!
# The wire form of values

`Format α` is how values of `α` are written and read. Everything that peers hash, sign or agree on
has one.

* numbers are `Varint`s, counters eight big-endian bytes, fixed-size byte strings stand as they
  are;
* byte strings, texts, lists and maps start with their length;
* an optional value starts with 0 or 1, a variant with its number;
* a map keeps the last value of a repeated key;
* `Format.decodeWhole` reads a byte string that holds one value and nothing else.
-/

namespace Quorum.Wire

/-- How values of a type are written and read, and how much memory one takes in a container. -/
class Format (α : Type) where
  encode : α → Bytes
  decode : Decoder α
  footprint : Nat

export Format (encode)

/-- Decode a byte string that holds one value and nothing else. -/
def decodeWhole (α : Type) [Format α] (bs : Bytes) : Except DecodeError α :=
  Decoder.whole Format.decode bs

/-! ## Pieces -/

/-- The number of a variant. -/
def encodeVariant (n : Nat) : Bytes := Varint.encode n

/-- Read the number of a variant. -/
def decodeVariant : Decoder Nat := Varint.decode 4

/-- Read the length of a container and account for elements of `size` bytes. -/
def decodeLength (size : Nat) : Decoder Nat := do
  let n ← Varint.decode 8
  Decoder.claim (n * size)
  pure n

/-- A byte string with its length. -/
def encodeBytes (bs : Bytes) : Bytes := Varint.encode bs.length ++ bs

/-- Read a byte string with its length. -/
def decodeBytes : Decoder Bytes := do
  let n ← decodeLength 1
  Decoder.take n

/-- A list with its length. -/
def encodeList {α : Type} [Format α] (as : List α) : Bytes :=
  Varint.encode as.length ++ as.flatMap encode

/-- Read a list with its length. -/
def decodeList (α : Type) [Format α] : Decoder (List α) := do
  let n ← decodeLength (Format.footprint α)
  Decoder.replicate (Format.footprint α) Format.decode n

/-- The text of a UTF-8 byte string. -/
def text? (bs : Bytes) : Option String := String.fromUTF8? ⟨bs.toArray⟩

/-! ## Values -/

instance : Format UInt64 where
  encode n := Varint.encode n.toNat
  decode := UInt64.ofNat <$> Varint.decode 8
  footprint := 8

instance : Format Bool where
  encode b := [if b then 1 else 0]
  decode := do
    Decoder.claim 1
    let b ← Decoder.byte
    if b = 0 then pure false
    else if b = 1 then pure true
    else Decoder.fail (.notBool b)
  footprint := 1

instance : Format Bytes where
  encode := encodeBytes
  decode := decodeBytes
  footprint := 16

instance : Format String where
  encode s := encodeBytes (Bytes.ofString s)
  decode := do
    let bs ← decodeBytes
    match text? bs with
    | some s => pure s
    | none => Decoder.fail .notText
  footprint := 24

instance {role : CounterRole} : Format (Counter role) where
  encode := Counter.toBytes
  decode := do
    Decoder.claim 8
    let bs ← Decoder.take 8
    pure (Counter.ofNat (Bytes.toNatBE bs))
  footprint := 8

instance {role : OctetRole} : Format (Octets role) where
  encode := Octets.bytes
  decode := do
    Decoder.claim role.width
    let bs ← Decoder.take role.width
    match Octets.ofBytes? role bs with
    | some o => pure o
    | none => Decoder.fail .unexpectedEnd
  footprint := role.width

instance {α : Type} [Format α] : Format (Option α) where
  encode
    | none => [0]
    | some a => 1 :: encode a
  decode := do
    Decoder.claim 1
    let b ← Decoder.byte
    if b = 0 then pure none
    else if b = 1 then some <$> Format.decode
    else Decoder.fail (.unknownVariant b.toNat)
  footprint := 1 + Format.footprint α

instance {α β : Type} [Format α] [Format β] : Format (α × β) where
  encode p := encode p.1 ++ encode p.2
  decode := do
    let a ← Format.decode
    let b ← Format.decode
    pure (a, b)
  footprint := Format.footprint α + Format.footprint β

instance {κ ν : Type} [Ord κ] [Std.TransOrd κ] [Std.LawfulEqOrd κ] [Format κ] [Format ν] :
    Format (SortedMap κ ν) where
  encode m := encodeList m.entries
  decode := SortedMap.ofList <$> decodeList (κ × ν)
  footprint := 24

end Quorum.Wire
