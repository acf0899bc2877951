/-!
# Finite maps in key order

* `SortedMap κ ν` : a list of entries with strictly increasing keys, so that equal maps are equal
  values and every enumeration is in key order;
* `get?`, `insert`, `erase`, `ofList` : the map operations; later entries of a list win;
* `dropFirst`, `filter`, `last?`, `keys`, `values` : what the order of the keys allows;
* `get?_insert`, `get?_erase`, `ext_get?` : each operation through look-up, and that look-up
  determines the map.
-/

namespace Quorum

open Std

/-- Entries with strictly increasing keys. -/
structure SortedMap (κ : Type) (ν : Type) [Ord κ] where
  entries : List (κ × ν)
  sorted : entries.Pairwise fun a b => compare a.1 b.1 = .lt

namespace SortedMap

variable {κ ν : Type} [Ord κ]

instance [DecidableEq κ] [DecidableEq ν] : DecidableEq (SortedMap κ ν) := fun m n =>
  decidable_of_iff (m.entries = n.entries)
    ⟨fun h => by cases m; cases n; cases h; rfl, fun h => h ▸ rfl⟩

/-- The map without entries. -/
def empty : SortedMap κ ν := ⟨[], .nil⟩

instance : Inhabited (SortedMap κ ν) := ⟨empty⟩

/-! ## Comparing keys -/

theorem compare_self [TransOrd κ] (k : κ) : compare k k = .eq := ReflCmp.compare_self

theorem compare_eq_iff [TransOrd κ] [LawfulEqOrd κ] {j k : κ} : compare j k = .eq ↔ j = k :=
  ⟨LawfulEqCmp.eq_of_compare, fun h => h ▸ compare_self j⟩

theorem ne_of_compare_lt [TransOrd κ] {j k : κ} (h : compare j k = .lt) : j ≠ k := by
  rintro rfl
  rw [compare_self] at h
  cases h

/-! ## Operations on entry lists -/

/-- The value of the first entry with key `k`. -/
def lookup (k : κ) : List (κ × ν) → Option ν
  | [] => none
  | e :: es => if compare k e.1 = .eq then some e.2 else lookup k es

/-- Put an entry in its place, over an entry of the same key. -/
def insertEntry (k : κ) (v : ν) : List (κ × ν) → List (κ × ν)
  | [] => [(k, v)]
  | e :: es =>
    match compare k e.1 with
    | .lt => (k, v) :: e :: es
    | .eq => (k, v) :: es
    | .gt => e :: insertEntry k v es

theorem mem_insertEntry {k : κ} {v : ν} {e : κ × ν} {es : List (κ × ν)}
    (h : e ∈ insertEntry k v es) : e = (k, v) ∨ e ∈ es := by
  induction es with
  | nil => simpa [insertEntry] using h
  | cons d es ih =>
    unfold insertEntry at h
    split at h
    · simpa using h
    · rcases List.mem_cons.1 h with h | h
      · exact .inl h
      · exact .inr (List.mem_cons_of_mem _ h)
    · rcases List.mem_cons.1 h with h | h
      · exact .inr (h ▸ List.mem_cons_self)
      · exact (ih h).imp_right (List.mem_cons_of_mem _)

theorem pairwise_insertEntry [TransOrd κ] [LawfulEqOrd κ] (k : κ) (v : ν) {es : List (κ × ν)}
    (h : es.Pairwise fun a b => compare a.1 b.1 = .lt) :
    (insertEntry k v es).Pairwise fun a b => compare a.1 b.1 = .lt := by
  induction es with
  | nil => simp [insertEntry]
  | cons d es ih =>
    rw [List.pairwise_cons] at h
    unfold insertEntry
    split
    · rename_i hlt
      refine List.pairwise_cons.2 ⟨fun e he => ?_, List.pairwise_cons.2 h⟩
      rcases List.mem_cons.1 he with rfl | he
      · exact hlt
      · exact TransCmp.lt_trans hlt (h.1 e he)
    · rename_i heq
      obtain rfl : k = d.1 := compare_eq_iff.1 heq
      exact List.pairwise_cons.2 ⟨h.1, h.2⟩
    · rename_i hgt
      refine List.pairwise_cons.2 ⟨fun e he => ?_, ih h.2⟩
      rcases mem_insertEntry he with rfl | he
      · exact OrientedCmp.lt_of_gt hgt
      · exact h.1 e he

/-! ## The map -/

/-- The value under `k`. -/
def get? (m : SortedMap κ ν) (k : κ) : Option ν := lookup k m.entries

/-- Whether `k` has a value. -/
def contains (m : SortedMap κ ν) (k : κ) : Bool := (m.get? k).isSome

/-- Set the value under `k`. -/
def insert [TransOrd κ] [LawfulEqOrd κ] (m : SortedMap κ ν) (k : κ) (v : ν) : SortedMap κ ν :=
  ⟨insertEntry k v m.entries, pairwise_insertEntry k v m.sorted⟩

/-- Keep the entries that satisfy `p`. -/
def filter (m : SortedMap κ ν) (p : κ × ν → Bool) : SortedMap κ ν :=
  ⟨m.entries.filter p, m.sorted.filter p⟩

/-- Remove the value under `k`. -/
def erase (m : SortedMap κ ν) (k : κ) : SortedMap κ ν := m.filter fun e => compare e.1 k != .eq

/-- Remove the entry of the least key. -/
def dropFirst (m : SortedMap κ ν) : SortedMap κ ν := ⟨m.entries.tail, m.sorted.tail⟩

/-- The entry of the greatest key. -/
def last? (m : SortedMap κ ν) : Option (κ × ν) := m.entries.getLast?

/-- The keys, increasing. -/
def keys (m : SortedMap κ ν) : List κ := m.entries.map (·.1)

/-- The values, by increasing key. -/
def values (m : SortedMap κ ν) : List ν := m.entries.map (·.2)

/-- The number of entries. -/
def size (m : SortedMap κ ν) : Nat := m.entries.length

/-- Whether there is no entry. -/
def isEmpty (m : SortedMap κ ν) : Bool := m.entries.isEmpty

/-- Insert the entries of a list one after the other, so that the last one of a key wins. -/
def ofList [TransOrd κ] [LawfulEqOrd κ] (es : List (κ × ν)) : SortedMap κ ν :=
  es.foldl (fun m e => m.insert e.1 e.2) empty

/-! ## Look-up after each operation -/

@[simp] theorem get?_empty (k : κ) : (empty : SortedMap κ ν).get? k = none := rfl

theorem lookup_insertEntry [TransOrd κ] [LawfulEqOrd κ] (k k' : κ) (v : ν) (es : List (κ × ν)) :
    lookup k' (insertEntry k v es) = if compare k' k = .eq then some v else lookup k' es := by
  induction es with
  | nil => simp [insertEntry, lookup]
  | cons d es ih =>
    unfold insertEntry
    split
    · simp [lookup]
    · rename_i heq
      obtain rfl : k = d.1 := compare_eq_iff.1 heq
      simp only [lookup]
      split <;> rfl
    · rename_i hgt
      simp only [lookup, ih]
      by_cases h : compare k' d.1 = .eq
      · obtain rfl : k' = d.1 := compare_eq_iff.1 h
        have hne : compare d.1 k ≠ .eq := by
          intro he
          obtain he : d.1 = k := compare_eq_iff.1 he
          rw [he, compare_self] at hgt
          cases hgt
        simp [hne]
      · simp [h]

/-- A set value is read back, and other keys keep theirs. -/
@[simp] theorem get?_insert [TransOrd κ] [LawfulEqOrd κ] (m : SortedMap κ ν) (k k' : κ) (v : ν) :
    (m.insert k v).get? k' = if compare k' k = .eq then some v else m.get? k' :=
  lookup_insertEntry k k' v m.entries

theorem lookup_eq_some_iff [TransOrd κ] [LawfulEqOrd κ] {es : List (κ × ν)} {k : κ} {v : ν}
    (h : es.Pairwise fun a b => compare a.1 b.1 = .lt) : lookup k es = some v ↔ (k, v) ∈ es := by
  induction es with
  | nil => simp [lookup]
  | cons d es ih =>
    rw [List.pairwise_cons] at h
    unfold lookup
    split
    · rename_i he
      obtain rfl : k = d.1 := compare_eq_iff.1 he
      constructor
      · intro hv; cases hv; exact List.mem_cons_self
      · intro hm
        rcases List.mem_cons.1 hm with hm | hm
        · rw [← hm]
        · exact absurd rfl (ne_of_compare_lt (h.1 (d.1, v) hm : compare d.1 d.1 = .lt))
    · rename_i hne
      rw [ih h.2, List.mem_cons]
      constructor
      · exact .inr
      · rintro (rfl | hm)
        · exact absurd (compare_self _) hne
        · exact hm

theorem get?_eq_some_iff [TransOrd κ] [LawfulEqOrd κ] {m : SortedMap κ ν} {k : κ} {v : ν} :
    m.get? k = some v ↔ (k, v) ∈ m.entries := lookup_eq_some_iff m.sorted

/-- A removed key has no value, and other keys keep theirs. -/
@[simp] theorem get?_erase [TransOrd κ] [LawfulEqOrd κ] (m : SortedMap κ ν) (k k' : κ) :
    (m.erase k).get? k' = if compare k' k = .eq then none else m.get? k' := by
  have key (v : ν) : (m.erase k).get? k' = some v ↔ compare k' k ≠ .eq ∧ m.get? k' = some v := by
    rw [get?_eq_some_iff, get?_eq_some_iff, erase, filter, List.mem_filter]
    simp [and_comm]
  by_cases h : compare k' k = .eq
  · cases hg : (m.erase k).get? k' with
    | none => simp [h]
    | some v => exact absurd h ((key v).1 hg).1
  · cases hg : m.get? k' with
    | none =>
      cases hg' : (m.erase k).get? k' with
      | none => simp [h]
      | some v => exact absurd (((key v).1 hg').2) (by simp [hg])
    | some v => simp [h, (key v).2 ⟨h, hg⟩]

/-! ## A map is its look-up -/

theorem entries_ext [TransOrd κ] [LawfulEqOrd κ] {es ds : List (κ × ν)}
    (hs : es.Pairwise fun a b => compare a.1 b.1 = .lt)
    (hd : ds.Pairwise fun a b => compare a.1 b.1 = .lt)
    (h : ∀ e, e ∈ es ↔ e ∈ ds) : es = ds := by
  induction es generalizing ds with
  | nil =>
    cases ds with
    | nil => rfl
    | cons d ds => exact absurd ((h d).2 List.mem_cons_self) (by simp)
  | cons e es ih =>
    cases ds with
    | nil => exact absurd ((h e).1 List.mem_cons_self) (by simp)
    | cons d ds =>
      rw [List.pairwise_cons] at hs hd
      have hed : e = d := by
        rcases List.mem_cons.1 ((h e).1 List.mem_cons_self) with he | he
        · exact he
        rcases List.mem_cons.1 ((h d).2 List.mem_cons_self) with hd' | hd'
        · exact hd'.symm
        exact absurd rfl (ne_of_compare_lt (TransCmp.lt_trans (hd.1 e he) (hs.1 d hd')))
      subst hed
      congr 1
      refine ih hs.2 hd.2 fun a => ⟨fun ha => ?_, fun ha => ?_⟩
      · rcases List.mem_cons.1 ((h a).1 (List.mem_cons_of_mem _ ha)) with rfl | ha'
        · exact absurd rfl (ne_of_compare_lt (hs.1 _ ha))
        · exact ha'
      · rcases List.mem_cons.1 ((h a).2 (List.mem_cons_of_mem _ ha)) with rfl | ha'
        · exact absurd rfl (ne_of_compare_lt (hd.1 _ ha))
        · exact ha'

/-- Maps with the same look-up are the same map. -/
theorem ext_get? [TransOrd κ] [LawfulEqOrd κ] {m n : SortedMap κ ν}
    (h : ∀ k, m.get? k = n.get? k) : m = n := by
  obtain ⟨es, hs⟩ := m
  obtain ⟨ds, hd⟩ := n
  have : es = ds := entries_ext hs hd fun ⟨k, v⟩ => by
    rw [← lookup_eq_some_iff hs, ← lookup_eq_some_iff hd]
    have : lookup k es = lookup k ds := h k
    rw [this]
  subst this
  rfl

end SortedMap

end Quorum
