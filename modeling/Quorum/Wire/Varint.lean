import Quorum.Wire.Decoder

/-!
# Integers of variable length

A number below 251 is one byte. Otherwise a marker byte names the width of the big-endian number
that follows: 251 for two bytes, 252 for four, 253 for eight. Writing takes the narrowest width;
reading takes every width up to that of the type.

* `Varint.encode n` : the narrowest form of a number below `2 ^ 64`;
* `Varint.decode width` : reads a number of at most `width` bytes.
-/

namespace Quorum.Wire.Varint

/-- The narrowest form of a number below `2 ^ 64`. -/
def encode (n : Nat) : Bytes :=
  if n < 251 then [UInt8.ofNat n]
  else if n < UInt16.size then 251 :: Bytes.ofNatBE 2 n
  else if n < UInt32.size then 252 :: Bytes.ofNatBE 4 n
  else 253 :: Bytes.ofNatBE 8 n

/-- The number of bytes that follow a marker. -/
def markedWidth? (marker : UInt8) : Option Nat :=
  if marker = 251 then some 2
  else if marker = 252 then some 4
  else if marker = 253 then some 8
  else none

/-- Read a number of a type of `width` bytes. -/
def decode (width : Nat) : Decoder Nat := do
  Decoder.claim width
  let marker ← Decoder.byte
  if marker < 251 then
    pure marker.toNat
  else
    match markedWidth? marker with
    | some w =>
      if w ≤ width then
        let bs ← Decoder.take w
        pure (Bytes.toNatBE bs)
      else Decoder.fail .integerWidth
    | none => Decoder.fail .integerWidth

end Quorum.Wire.Varint
