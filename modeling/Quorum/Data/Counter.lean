import Quorum.Data.Bytes

/-!
# 64-bit counters

* `Counter role` : a number below `2 ^ 64` that counts one kind of thing, so that a height is
  never taken for a version;
* `next?`, `prev?`, `add?` : steps that stop at the ends of the range;
* `distance a b` : how far `a` is past `b`, zero if it is not;
* `toBytes`, `ofBytes?` : eight big-endian bytes, whose order is the numeric order.
-/

namespace Quorum

/-- What a counter counts. -/
inductive CounterRole where
  | height
  | version
  | roundCount
  | instanceId
  | nonce
  deriving DecidableEq, Repr

/-- A number below `2 ^ 64` in one role. -/
@[ext] structure Counter (role : CounterRole) where
  val : UInt64
  deriving DecidableEq, Inhabited

/-- The height of a committed block; the first block has height 1. -/
abbrev Height := Counter .height
/-- The version of a snapshot of the agreed data. -/
abbrev Version := Counter .version
/-- The number of round transitions since the application started. -/
abbrev RoundCount := Counter .roundCount
/-- The identity of one start of a behaviour. -/
abbrev InstanceId := Counter .instanceId
/-- The identity of one outstanding external request. -/
abbrev RequestNonce := Counter .nonce

namespace Counter

variable {role : CounterRole}

/-- The counter of a number below `2 ^ 64`, of its remainder otherwise. -/
def ofNat (n : Nat) : Counter role := ⟨UInt64.ofNat n⟩

/-- The number. -/
def toNat (c : Counter role) : Nat := c.val.toNat

/-- The counter at zero. -/
def zero : Counter role := ⟨0⟩

/-- The greatest counter. -/
def max : Counter role := ⟨0xffffffffffffffff⟩

/-- The sum with a number, if it fits. -/
def add? (c : Counter role) (n : UInt64) : Option (Counter role) :=
  if c.val.toNat + n.toNat < UInt64.size then some ⟨c.val + n⟩ else none

/-- The following counter, unless this is the last one. -/
def next? (c : Counter role) : Option (Counter role) := c.add? 1

/-- The preceding counter, unless this is zero. -/
def prev? (c : Counter role) : Option (Counter role) := if c.val = 0 then none else some ⟨c.val - 1⟩

/-- How far `a` is past `b`. -/
def distance (a b : Counter role) : UInt64 := if a.val ≤ b.val then 0 else a.val - b.val

/-- The eight big-endian bytes. -/
def toBytes (c : Counter role) : Bytes := Bytes.ofNatBE 8 c.toNat

instance : Ord (Counter role) := ⟨compareOn val⟩

instance : LE (Counter role) := ⟨fun a b => a.val ≤ b.val⟩

instance : LT (Counter role) := ⟨fun a b => a.val < b.val⟩

instance (a b : Counter role) : Decidable (a ≤ b) := inferInstanceAs (Decidable (a.val ≤ b.val))

instance (a b : Counter role) : Decidable (a < b) := inferInstanceAs (Decidable (a.val < b.val))

instance : Std.TransOrd (Counter role) :=
  inferInstanceAs (Std.TransCmp (compareOn (val : Counter role → UInt64)))

instance : Std.LawfulEqOrd (Counter role) where
  compare_self {a} := (Std.ReflCmp.compare_self : compare a.val a.val = .eq)
  eq_of_compare {a b} h := by
    obtain ⟨a⟩ := a
    obtain ⟨b⟩ := b
    have h : compare a b = .eq := h
    obtain rfl : a = b := Std.LawfulEqCmp.eq_of_compare h
    rfl

instance : ToString (Counter role) := ⟨fun c => toString c.toNat⟩

/-! ## Steps in numbers -/

theorem toNat_lt (c : Counter role) : c.toNat < UInt64.size := c.val.toNat_lt

theorem toNat_inj {a b : Counter role} : a.toNat = b.toNat ↔ a = b :=
  ⟨fun h => Counter.ext (UInt64.toNat_inj.1 h), fun h => h ▸ rfl⟩

/-- Counters are ordered as their numbers are. -/
theorem compare_eq_lt {a b : Counter role} : compare a b = .lt ↔ a.toNat < b.toNat := by
  show compareOfLessAndEq a.val b.val = .lt ↔ _
  rw [compareOfLessAndEq_eq_lt, UInt64.lt_iff_toNat_lt]
  rfl

theorem toNat_ofNat {n : Nat} (h : n < UInt64.size) : (ofNat n : Counter role).toNat = n := by
  simp only [ofNat, toNat, UInt64.toNat_ofNat', Nat.mod_eq_of_lt h]

theorem add?_eq_some {c d : Counter role} {n : UInt64} :
    c.add? n = some d ↔ d.toNat = c.toNat + n.toNat := by
  have hd : d.val.toNat < UInt64.size := d.val.toNat_lt
  unfold add? toNat
  split
  · rename_i h
    rw [Option.some_inj, Counter.ext_iff, ← UInt64.toNat_inj, UInt64.toNat_add,
      Nat.mod_eq_of_lt h]
    exact eq_comm
  · constructor
    · intro h; cases h
    · omega

/-- The next counter is one more. -/
theorem next?_eq_some {c d : Counter role} : c.next? = some d ↔ d.toNat = c.toNat + 1 :=
  add?_eq_some

/-- Only the greatest counter has no next one. -/
theorem next?_eq_none {c : Counter role} : c.next? = none ↔ c.toNat = UInt64.size - 1 := by
  have := c.toNat_lt
  have hs : UInt64.size = 18446744073709551616 := rfl
  unfold next? add?
  split
  · rename_i h
    change c.toNat + 1 < UInt64.size at h
    simp; omega
  · rename_i h
    change ¬ c.toNat + 1 < UInt64.size at h
    simp; omega

theorem toNat_distance (a b : Counter role) : (a.distance b).toNat = a.toNat - b.toNat := by
  unfold distance toNat
  split
  · rename_i h
    have : a.val.toNat ≤ b.val.toNat := UInt64.le_iff_toNat_le.1 h
    simp; omega
  · rename_i h
    have : b.val.toNat ≤ a.val.toNat := by
      have := mt UInt64.le_iff_toNat_le.2 h
      omega
    rw [UInt64.toNat_sub_of_le _ _ (UInt64.le_iff_toNat_le.2 this)]

theorem length_toBytes (c : Counter role) : c.toBytes.length = 8 := Bytes.length_ofNatBE 8 _

end Counter

end Quorum
