import Quorum.Curve.Field

/-!
# Points of the Edwards curve `-x² + y² = 1 + d x² y²`

* `Point` : extended coordinates, `x = X / Z`, `y = Y / Z`, `x y = T / Z`;
* `Point.add`, `Point.double` : the complete addition law;
* `Point.scale` : multiples, four bits of the scalar at a time;
* `Point.scaleBase` : multiples of the base point from a table;
* `Point.decompress?`, `Point.compress` : the 32-byte form, `y` with the parity of `x` on top.
  Reading accepts a `y` that is not reduced, and a set parity bit where `x` is zero.
-/

namespace Quorum.Curve

/-- The constant of the curve, `-121665 / 121666`. -/
def edwardsD : Nat := mul (prime - 121665) (inv 121666)

/-- Twice the constant of the curve. -/
def edwards2D : Nat := add edwardsD edwardsD

/-- A point in extended coordinates. -/
structure Point where
  x : Nat
  y : Nat
  z : Nat
  t : Nat
  deriving Inhabited

namespace Point

/-- The neutral point. -/
def zero : Point := ⟨0, 1, 1, 0⟩

/-- Sum of two points. -/
def add (p q : Point) : Point :=
  let a := mul (sub p.y p.x) (sub q.y q.x)
  let b := mul (Curve.add p.y p.x) (Curve.add q.y q.x)
  let c := mul (mul p.t edwards2D) q.t
  let d := mul (Curve.add p.z p.z) q.z
  let e := sub b a
  let f := sub d c
  let g := Curve.add d c
  let h := Curve.add b a
  ⟨mul e f, mul g h, mul f g, mul e h⟩

/-- A point added to itself. -/
def double (p : Point) : Point :=
  let a := mul p.x p.x
  let b := mul p.y p.y
  let zz := mul p.z p.z
  let c := Curve.add zz zz
  let h := Curve.add a b
  let xy := Curve.add p.x p.y
  let e := sub h (mul xy xy)
  let g := sub a b
  let f := Curve.add c g
  ⟨mul e f, mul g h, mul f g, mul e h⟩

/-- The opposite point. -/
def neg (p : Point) : Point := ⟨Curve.neg p.x, p.y, p.z, Curve.neg p.t⟩

/-- The point added to itself `2 ^ n` times. -/
def doubles : Nat → Point → Point
  | 0, p => p
  | n + 1, p => doubles n p.double

/-- The multiples of a point from 0 to `n`. -/
def multiples (p : Point) (n : Nat) : Array Point :=
  (List.range n).foldl (fun ps _ => ps.push ((ps.back?.getD zero).add p)) #[zero]

/-- The hexadecimal digits of a number, the least significant first. -/
def nibbles : Nat → Nat → List Nat
  | 0, _ => []
  | n + 1, k => k % 16 :: nibbles n (k / 16)

/-- A multiple of a point by a number below `2 ^ 256`. -/
def scale (k : Nat) (p : Point) : Point :=
  let table := p.multiples 15
  (nibbles 64 k).foldr (fun d acc => (doubles 4 acc).add (table.getD d zero)) zero

/-- The highest of 256 bits, `2 ^ 255`. It tells apart the two points with the same `y`. -/
def signBit : Nat := 0x8000000000000000000000000000000000000000000000000000000000000000

/-- The point that the 32 bytes encode, if they encode one. -/
def decompress? (bs : Bytes) : Option Point :=
  let n := Bytes.toNatLE bs
  let y := n % signBit % prime
  let yy := mul y y
  let u := sub yy 1
  let v := Curve.add (mul edwardsD yy) 1
  (sqrtRatio? u v).map fun r =>
    let x := if signBit ≤ n then Curve.neg r else r
    ⟨x, y, 1, mul x y⟩

/-- The 32-byte form of a point. -/
def compress (p : Point) : Bytes :=
  let zi := inv p.z
  let x := mul p.x zi
  let y := mul p.y zi
  Bytes.ofNatLE 32 (y + x % 2 * signBit)

theorem length_compress (p : Point) : p.compress.length = 32 := Bytes.length_ofNatLE 32 _

/-- Whether eight times the point is the neutral point. -/
def isSmallOrder (p : Point) : Bool :=
  let q := doubles 3 p
  q.x == 0 && q.y == q.z

/-- The base point. -/
def base : Point :=
  let y := mul 4 (inv 5)
  (decompress? (Bytes.ofNatLE 32 y)).getD zero

/-- Row `i` holds the multiples of `16 ^ i` times the base point from 0 to 15. -/
def baseTable : Array (Array Point) :=
  ((List.range 64).foldl (fun (rows, p) _ => (rows.push (multiples p 15), doubles 4 p))
    ((#[] : Array (Array Point)), base)).1

/-- A multiple of the base point by a number below `2 ^ 256`. -/
def scaleBase (k : Nat) : Point :=
  ((nibbles 64 k).foldl (fun (acc, i) d =>
    (acc.add ((baseTable.getD i #[]).getD d zero), i + 1)) (zero, 0)).1

end Point

end Quorum.Curve
