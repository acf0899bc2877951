/-!
# Shortest decimals

The shortest decimal that reads back as a binary number, and its positional text.

* `Binary` : a finite number `mantissa * 2 ^ exponent`;
* `Binary.readsBack` : whether a decimal lies among the reals that round to the number;
* `Binary.shortest` : of the decimals with the fewest digits that read back, the nearest;
* `positional` : its text without an exponent, with at least one place after the point.
-/

namespace Quorum.Decimal

/-- A finite number that is not negative. -/
structure Binary where
  mantissa : Nat
  exponent : Int
  /-- The gap to the number below is half the gap to the number above. -/
  narrowBelow : Bool

/-- The number of the bits of a finite double, without its sign. -/
def Binary.ofBits (b : UInt64) : Binary :=
  let e := ((b >>> 52) &&& 0x7FF).toNat
  let f := (b &&& 0xFFFFFFFFFFFFF).toNat
  if e = 0 then ⟨f, -1074, false⟩
  else ⟨0x10000000000000 + f, (e : Int) - 1075, f == 0 && 1 < e⟩

/-- The decimal `digits * 10 ^ exponent`. -/
structure Scaled where
  digits : Nat
  exponent : Int

/-- Compare `a * 10 ^ i` with `n * 2 ^ j`. -/
def compareScaled (a : Nat) (i : Int) (n : Nat) (j : Int) : Ordering :=
  compare (a * Nat.pow 10 i.toNat <<< (-j).toNat) ((n <<< j.toNat) * Nat.pow 10 (-i).toNat)

/-- Whether a decimal lies among the reals that round to the number; the ends of that interval
belong to it if the mantissa is even. -/
def Binary.readsBack (x : Binary) (d : Scaled) : Bool :=
  let low := if x.narrowBelow then 4 * x.mantissa - 1 else 4 * x.mantissa - 2
  let high := 4 * x.mantissa + 2
  let closed := x.mantissa % 2 == 0
  let cl := compareScaled d.digits d.exponent low (x.exponent - 2)
  let ch := compareScaled d.digits d.exponent high (x.exponent - 2)
  (cl == .gt || (closed && cl == .eq)) && (ch == .lt || (closed && ch == .eq))

/-- The greatest decimal with the given exponent that is not above the number. -/
def Binary.floorAt (x : Binary) (e : Int) : Nat :=
  ((x.mantissa <<< x.exponent.toNat) * Nat.pow 10 (-e).toNat) /
    (Nat.pow 10 e.toNat <<< (-x.exponent).toNat)

/-- Whether the upper of two neighbouring decimals is at least as near as the lower one. -/
def Binary.upperIsNearer (x : Binary) (lower : Nat) (e : Int) : Bool :=
  (compareScaled (2 * lower + 1) e (2 * x.mantissa) x.exponent).isLE

/-- The neighbour on the grid of `10 ^ e` that reads back, the nearer one if both do. -/
def Binary.onGrid? (x : Binary) (e : Int) : Option Scaled :=
  let lower := x.floorAt e
  match x.readsBack ⟨lower, e⟩, x.readsBack ⟨lower + 1, e⟩ with
  | true, true => some ⟨if x.upperIsNearer lower e then lower + 1 else lower, e⟩
  | true, false => some ⟨lower, e⟩
  | false, true => some ⟨lower + 1, e⟩
  | false, false => none

/-- Try finer and finer grids. -/
def Binary.search (x : Binary) : Nat → Int → Scaled
  | 0, e => ⟨x.floorAt e, e⟩
  | fuel + 1, e => (x.onGrid? e).getD (x.search fuel (e - 1))

/-- The nearest of the decimals with the fewest digits that read back as the number. -/
def Binary.shortest (x : Binary) : Scaled :=
  if x.mantissa = 0 then ⟨0, 0⟩ else x.search 700 310

/-- The text of a decimal without an exponent, with at least one place after the point. -/
def positional (d : Scaled) : String :=
  let digits := toString d.digits
  if 0 ≤ d.exponent then digits ++ "".pushn '0' d.exponent.toNat ++ ".0"
  else
    let places := (-d.exponent).toNat
    let padded := ("".pushn '0' (places + 1 - digits.length)) ++ digits
    let whole := padded.length - places
    String.ofList (padded.toList.take whole) ++ "." ++ String.ofList (padded.toList.drop whole)

/-- The text of a finite double. -/
def ofFloat (x : Float) : String :=
  (if x.toBits >>> 63 = 1 then "-" else "") ++ positional (Binary.ofBits x.toBits).shortest

end Quorum.Decimal
