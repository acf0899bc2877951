import Quorum.Data.Counter

/-!
# The order of big-endian numbers

* `Bytes.compare_eq_compare_toNatBE` : byte strings of one length are in the order of the numbers
  that they spell;
* `Counter.compare_toBytes` : so counters are written in the order of their numbers.
-/

namespace Quorum

theorem compare_byte (a b : UInt8) : compare a b = compare a.toNat b.toNat := by
  show compareOfLessAndEq a b = compareOfLessAndEq a.toNat b.toNat
  unfold compareOfLessAndEq
  simp only [UInt8.lt_iff_toNat_lt, UInt8.toNat_inj]

/-- The greater digit decides, and the rest only between equal digits. -/
theorem compare_mul_add {a b x y c : Nat} (hx : x < c) (hy : y < c) :
    compare (a * c + x) (b * c + y) = (compare a b).then (compare x y) := by
  have hstep {m n : Nat} (h : m < n) : m * c + c ≤ n * c := by
    rw [← Nat.succ_mul]
    exact Nat.mul_le_mul_right c h
  rcases Nat.lt_trichotomy a b with h | rfl | h
  · have hle := hstep h
    rw [Nat.compare_eq_lt.2 h, Nat.compare_eq_lt.2 (by omega)]
    rfl
  · rw [Nat.compare_eq_eq.2 rfl, Ordering.eq_then]
    simp only [Nat.compare_eq_ite_lt, Nat.add_lt_add_iff_left]
  · have hle := hstep h
    rw [Nat.compare_eq_gt.2 h, Nat.compare_eq_gt.2 (by omega)]
    rfl

/-- **Byte strings of one length are in the order of their numbers.** -/
theorem Bytes.compare_eq_compare_toNatBE {as bs : Bytes} (h : as.length = bs.length) :
    compare as bs = compare as.toNatBE bs.toNatBE := by
  induction as generalizing bs with
  | nil =>
    obtain rfl := List.length_eq_zero_iff.1 h.symm
    rfl
  | cons a as ih =>
    cases bs with
    | nil => cases h
    | cons b bs =>
      have hlength : as.length = bs.length := Nat.succ.inj h
      have hb := Bytes.toNatBE_lt bs
      rw [← hlength] at hb
      rw [List.compare_cons_cons, ih hlength, compare_byte, toNatBE, toNatBE, ← hlength,
        compare_mul_add (Bytes.toNatBE_lt as) hb]

namespace Counter

variable {role : CounterRole}

theorem compare_eq (a b : Counter role) : compare a b = compare a.toNat b.toNat := by
  show compareOfLessAndEq a.val b.val = compareOfLessAndEq a.toNat b.toNat
  unfold compareOfLessAndEq toNat
  simp only [UInt64.lt_iff_toNat_lt, UInt64.toNat_inj]

theorem toNatBE_toBytes (c : Counter role) : c.toBytes.toNatBE = c.toNat :=
  Bytes.toNatBE_ofNatBE c.toNat_lt

/-- **Counters are written in the order of their numbers.** -/
theorem compare_toBytes (a b : Counter role) :
    compare a.toBytes b.toBytes = compare a.toNat b.toNat := by
  rw [Bytes.compare_eq_compare_toNatBE (a.length_toBytes.trans b.length_toBytes.symm),
    toNatBE_toBytes, toNatBE_toBytes]

end Counter

end Quorum
