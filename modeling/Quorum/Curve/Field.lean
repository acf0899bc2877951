import Quorum.Data.Bytes

/-!
# Arithmetic modulo `2 ^ 255 - 19`

Field elements are numbers below `prime`. `sqrtRatio?` finds a square root of a quotient, from
which points are decompressed.
-/

namespace Quorum.Curve

/-- The order of the field, `2 ^ 255 - 19`. -/
def prime : Nat := 0x7fffffffffffffffffffffffffffffffffffffffffffffffffffffffffffffed

/-- The order of the subgroup of the base point. -/
def groupOrder : Nat := 0x1000000000000000000000000000000014def9dea2f79cd65812631a5cf5d3ed

/-- Sum of two field elements. -/
def add (a b : Nat) : Nat :=
  let s := a + b
  if s < prime then s else s - prime

/-- Difference of two field elements. -/
def sub (a b : Nat) : Nat := if b ≤ a then a - b else a + prime - b

/-- Product of two field elements. -/
def mul (a b : Nat) : Nat := a * b % prime

/-- Opposite of a field element. -/
def neg (a : Nat) : Nat := if a = 0 then 0 else prime - a

/-- A field element to the power of a number of at most `bits` bits. -/
def powBits : Nat → Nat → Nat → Nat
  | 0, _, _ => 1
  | bits + 1, a, e =>
    let r := powBits bits (mul a a) (e / 2)
    if e % 2 = 1 then mul a r else r

/-- A field element to the power of `e < 2 ^ 255`. -/
def pow (a e : Nat) : Nat := powBits 255 a e

/-- The inverse of a field element, zero for zero. -/
def inv (a : Nat) : Nat := pow a (prime - 2)

/-- A square root of -1. -/
def sqrtMinusOne : Nat := pow 2 ((prime - 1) / 4)

/-- The even one of the square roots of `u / v`, if there is one. -/
def sqrtRatio? (u v : Nat) : Option Nat :=
  let v3 := mul (mul v v) v
  let v7 := mul (mul v3 v3) v
  let r := mul (mul u v3) (pow (mul u v7) ((prime - 5) / 8))
  let check := mul v (mul r r)
  let even (x : Nat) : Nat := if x % 2 = 1 then neg x else x
  if check = u then some (even r)
  else if check = neg u then some (even (mul r sqrtMinusOne))
  else none

end Quorum.Curve
