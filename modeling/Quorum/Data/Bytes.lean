/-!
# Byte strings and big-endian numbers

* `Bytes` : byte strings, as lists, so that codecs are recursions on them;
* `Bytes.capacity w` : the number of byte strings of length `w`;
* `Bytes.ofNatBE w n` : the `w` big-endian bytes of `n` modulo `capacity w`;
* `Bytes.toNatBE bs` : the number that `bs` spells in base 256, most significant byte first;
* `Bytes.toNatLE bs`, `Bytes.ofNatLE w n` : the same, least significant byte first;
* `toNatBE_ofNatBE`, `ofNatBE_toNatBE` : the two directions undo each other at a fixed width.
-/

namespace Quorum

/-- A byte string. -/
abbrev Bytes := List UInt8

namespace Bytes

/-- The number of byte strings of a length. -/
def capacity (w : Nat) : Nat := Nat.pow 256 w

/-- The `w` big-endian bytes of `n`, the low `w` bytes if `n` needs more. -/
def ofNatBE : Nat → Nat → Bytes
  | 0, _ => []
  | w + 1, n => UInt8.ofNat (n / capacity w) :: ofNatBE w n

/-- The number spelled by `bs`, most significant byte first. -/
def toNatBE : Bytes → Nat
  | [] => 0
  | b :: bs => b.toNat * capacity bs.length + toNatBE bs

/-- The number spelled by `bs`, least significant byte first. -/
def toNatLE : Bytes → Nat
  | [] => 0
  | b :: bs => b.toNat + 256 * toNatLE bs

/-- The `w` little-endian bytes of `n`. -/
def ofNatLE : Nat → Nat → Bytes
  | 0, _ => []
  | w + 1, n => UInt8.ofNat n :: ofNatLE w (n / 256)

/-- The bytes of a text in UTF-8. -/
def ofString (s : String) : Bytes := s.toUTF8.data.toList

/-! ## Widths -/

@[simp] theorem length_ofNatBE (w n : Nat) : (ofNatBE w n).length = w := by
  induction w with
  | zero => rfl
  | succ w ih => simp [ofNatBE, ih]

@[simp] theorem length_ofNatLE (w n : Nat) : (ofNatLE w n).length = w := by
  induction w generalizing n with
  | zero => rfl
  | succ w ih => simp [ofNatLE, ih]

/-! ## Capacities -/

@[simp] theorem capacity_zero : capacity 0 = 1 := rfl

theorem capacity_succ (w : Nat) : capacity (w + 1) = capacity w * 256 := rfl

theorem capacity_pos (w : Nat) : 0 < capacity w := Nat.pow_pos (by decide)

/-! ## Reading back -/

/-- A byte string of length `w` spells a number below `capacity w`. -/
theorem toNatBE_lt (bs : Bytes) : toNatBE bs < capacity bs.length := by
  induction bs with
  | nil => simp [toNatBE]
  | cons b bs ih =>
    rw [toNatBE, List.length_cons, capacity_succ]
    have hb : b.toNat < 256 := b.toNat_lt
    calc b.toNat * capacity bs.length + toNatBE bs
        < b.toNat * capacity bs.length + capacity bs.length := by omega
      _ = (b.toNat + 1) * capacity bs.length := by rw [Nat.add_mul]; omega
      _ ≤ 256 * capacity bs.length := Nat.mul_le_mul_right _ hb
      _ = capacity bs.length * 256 := Nat.mul_comm _ _

theorem toNatBE_ofNatBE_mod (w n : Nat) : toNatBE (ofNatBE w n) = n % capacity w := by
  induction w with
  | zero => simp [ofNatBE, toNatBE, Nat.mod_one]
  | succ w ih =>
    have hb : (UInt8.ofNat (n / capacity w)).toNat = n / capacity w % 256 := UInt8.toNat_ofNat'
    rw [ofNatBE, toNatBE, ih, length_ofNatBE, hb, capacity_succ, Nat.mod_mul,
      Nat.mul_comm (n / capacity w % 256), Nat.add_comm]

/-- Writing a number at a width it fits in and reading it back changes nothing. -/
theorem toNatBE_ofNatBE {w n : Nat} (h : n < capacity w) : toNatBE (ofNatBE w n) = n := by
  rw [toNatBE_ofNatBE_mod, Nat.mod_eq_of_lt h]

theorem ofNatBE_add_mul (w n k : Nat) : ofNatBE w (k * capacity w + n) = ofNatBE w n := by
  induction w generalizing k with
  | zero => rfl
  | succ w ih =>
    have e : k * capacity (w + 1) + n = k * 256 * capacity w + n := by
      rw [capacity_succ, Nat.mul_assoc, Nat.mul_comm (capacity w)]
    rw [ofNatBE, ofNatBE, e, ih]
    congr 1
    apply UInt8.toNat_inj.mp
    rw [UInt8.toNat_ofNat', UInt8.toNat_ofNat', Nat.add_comm (k * 256 * capacity w),
      Nat.add_mul_div_right _ _ (capacity_pos w)]
    omega

/-- Reading a byte string and writing it at its own width gives it back. -/
theorem ofNatBE_toNatBE (bs : Bytes) : ofNatBE bs.length (toNatBE bs) = bs := by
  induction bs with
  | nil => rfl
  | cons b bs ih =>
    rw [List.length_cons, ofNatBE, toNatBE, ofNatBE_add_mul, ih,
      Nat.add_comm (b.toNat * _), Nat.add_mul_div_right _ _ (capacity_pos _),
      Nat.div_eq_of_lt (toNatBE_lt bs), Nat.zero_add]
    simp

end Bytes

end Quorum
