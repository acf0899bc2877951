import Quorum.Data.Bytes

/-!
# Reading the wire form

* `Decoder α` : reads a value off the front of a byte string;
* `Decoder.claim`, `Decoder.unclaim` : a decoder accounts for the memory of what it reads before
  it reads it, so that a claimed length never makes it allocate more than `decodeLimit`;
* `Decoder.byte`, `Decoder.take` : the only two that consume input;
* `Decoder.whole` : runs a decoder on a byte string that must be used up.
-/

namespace Quorum.Wire

/-- Why a byte string is not the wire form of a value. -/
inductive DecodeError where
  /-- The input ends inside the value. -/
  | unexpectedEnd
  /-- The value claims more memory than `decodeLimit`. -/
  | limitExceeded
  /-- An integer is marked with a width that its type does not have. -/
  | integerWidth
  /-- No variant has this number. -/
  | unknownVariant (found : Nat)
  /-- A truth value is neither 0 nor 1. -/
  | notBool (found : UInt8)
  /-- A text is not UTF-8. -/
  | notText
  /-- Bytes are left after the value. -/
  | leftover
  deriving DecidableEq, Repr

/-- The most memory, in bytes, that one decoded value may claim. -/
def decodeLimit : Nat := 0x1000000

/-- The input left and the memory that may still be claimed. -/
structure Cursor where
  rest : Bytes
  room : Nat
  deriving DecidableEq

/-- Reads a value and moves the cursor past it. -/
abbrev Decoder := StateT Cursor (Except DecodeError)

namespace Decoder

/-- Account for `n` bytes of memory. -/
def claim (n : Nat) : Decoder Unit := fun c =>
  if n ≤ c.room then .ok ((), ⟨c.rest, c.room - n⟩) else .error .limitExceeded

/-- Give `n` accounted bytes back, because what follows accounts for them itself. -/
def unclaim (n : Nat) : Decoder Unit := fun c => .ok ((), ⟨c.rest, c.room + n⟩)

/-- The next byte. -/
def byte : Decoder UInt8 := fun c =>
  match c.rest with
  | [] => .error .unexpectedEnd
  | b :: rest => .ok (b, ⟨rest, c.room⟩)

/-- The next `n` bytes. -/
def take (n : Nat) : Decoder Bytes := fun c =>
  if n ≤ c.rest.length then .ok (c.rest.take n, ⟨c.rest.drop n, c.room⟩)
  else .error .unexpectedEnd

/-- Give up. -/
def fail {α : Type} (e : DecodeError) : Decoder α := fun _ => .error e

/-- One value after the other, `n` in all; each was accounted for with `size` bytes. -/
def replicate {α : Type} (size : Nat) (item : Decoder α) : Nat → Decoder (List α)
  | 0 => pure []
  | n + 1 => do
    unclaim size
    let a ← item
    let as ← replicate size item n
    pure (a :: as)

/-- Decode a byte string that holds one value and nothing else. -/
def whole {α : Type} (d : Decoder α) (bs : Bytes) : Except DecodeError α :=
  match d.run ⟨bs, decodeLimit⟩ with
  | .error e => .error e
  | .ok (a, c) => if c.rest.isEmpty then .ok a else .error .leftover

end Decoder

end Quorum.Wire
