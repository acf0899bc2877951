import Quorum.Data.Bytes

/-!
# Hexadecimal text

* `Hex.encode` : two lowercase digits a byte;
* `Hex.decode` : digits of either case, mixed freely; an odd count is refused before any digit is
  looked at, then the first character that is no digit;
* `Hex.stripMarks` : removes every leading `0x`.

Text is read as its UTF-8 bytes, so positions in errors are byte offsets.
-/

namespace Quorum

/-- Why a text is not the hexadecimal form of a byte string, and at which byte. -/
inductive HexError where
  | length (position : Nat)
  | symbol (position : Nat)
  deriving DecidableEq, Repr

namespace HexError

/-- The byte offset an error points at. -/
def position : HexError → Nat
  | length p => p
  | symbol p => p

/-- The wording of an error. -/
def message : HexError → String
  | length p => s!"invalid length at {p}"
  | symbol p => s!"invalid symbol at {p}"

end HexError

namespace Hex

/-- The lowercase digit of a value below 16. -/
def digit (n : Nat) : Char :=
  if n < 10 then Char.ofNat (48 + n) else Char.ofNat (87 + n)

/-- The value of an ASCII digit of either case. -/
def value? (b : UInt8) : Option Nat :=
  if 48 ≤ b ∧ b ≤ 57 then some (b.toNat - 48)
  else if 97 ≤ b ∧ b ≤ 102 then some (b.toNat - 87)
  else if 65 ≤ b ∧ b ≤ 70 then some (b.toNat - 55)
  else none

/-- The two digits of a byte. -/
def digits (b : UInt8) : List Char := [digit (b.toNat / 16), digit (b.toNat % 16)]

/-- Two lowercase digits a byte. -/
def encode (bs : Bytes) : String := String.ofList (bs.flatMap digits)

/-- Remove every leading `0x`. -/
def stripMarks : Bytes → Bytes
  | 48 :: 120 :: rest => stripMarks rest
  | bs => bs

/-- Digits in pairs; `position` is the offset of the first one. -/
def decodePairs (position : Nat) : Bytes → Except HexError Bytes
  | hi :: lo :: rest =>
    match value? hi, value? lo with
    | none, _ => .error (.symbol position)
    | some _, none => .error (.symbol (position + 1))
    | some h, some l => (UInt8.ofNat (16 * h + l) :: ·) <$> decodePairs (position + 2) rest
  | _ => .ok []

/-- The bytes spelled by an even number of digits. -/
def decode (text : Bytes) : Except HexError Bytes :=
  if text.length % 2 = 1 then .error (.length (text.length - 1)) else decodePairs 0 text

end Hex

end Quorum
