import Quorum.Data.SortedMap

/-!
# Members of a sorted map

* `mem_keys_iff`, `mem_values_iff` : keys and values through look-up;
* `pairwise_keys`, `nodup_keys` : the keys are strictly increasing; `last?_cases` : the last one is
  the greatest;
* `get?_insert_of`, `get?_erase_of`, `get?_filter_eq_some_iff` : look-up after a change;
* `size_insert_of_fresh`, `size_erase`, `size_filter_add`, `size_ofList_le` : the number of entries after
  a change;
* `ofList_entries` : inserting the entries of a map one after the other gives the map.
-/

namespace Quorum.SortedMap

open Std

variable {κ ν : Type} [Ord κ]

/-! ## Keys and values -/

theorem mem_keys_iff [TransOrd κ] [LawfulEqOrd κ] {m : SortedMap κ ν} {k : κ} :
    k ∈ m.keys ↔ ∃ v, m.get? k = some v := by
  unfold keys
  rw [List.mem_map]
  constructor
  · rintro ⟨⟨j, v⟩, h, rfl⟩
    exact ⟨v, get?_eq_some_iff.2 h⟩
  · rintro ⟨v, h⟩
    exact ⟨(k, v), get?_eq_some_iff.1 h, rfl⟩

theorem mem_values_iff [TransOrd κ] [LawfulEqOrd κ] {m : SortedMap κ ν} {v : ν} :
    v ∈ m.values ↔ ∃ k, m.get? k = some v := by
  unfold values
  rw [List.mem_map]
  constructor
  · rintro ⟨⟨k, w⟩, h, rfl⟩
    exact ⟨k, get?_eq_some_iff.2 h⟩
  · rintro ⟨k, h⟩
    exact ⟨(k, v), get?_eq_some_iff.1 h, rfl⟩

theorem pairwise_keys (m : SortedMap κ ν) : m.keys.Pairwise fun a b => compare a b = .lt :=
  List.pairwise_map.2 m.sorted

theorem nodup_of_pairwise [TransOrd κ] {ks : List κ}
    (h : ks.Pairwise fun a b => compare a b = .lt) : ks.Nodup := h.imp ne_of_compare_lt

theorem nodup_keys [TransOrd κ] [LawfulEqOrd κ] (m : SortedMap κ ν) : m.keys.Nodup :=
  nodup_of_pairwise m.pairwise_keys

/-- The last entry is the one of the greatest key. -/
theorem last?_cases [TransOrd κ] [LawfulEqOrd κ] (m : SortedMap κ ν) :
    (m.last? = none ∧ ∀ k, m.get? k = none) ∨
      ∃ k v, m.last? = some (k, v) ∧ m.get? k = some v ∧
        ∀ j w, m.get? j = some w → j = k ∨ compare j k = .lt := by
  rcases List.eq_nil_or_concat m.entries with h | ⟨es, ⟨k, v⟩, h⟩
  · refine .inl ⟨?_, fun k => ?_⟩
    · unfold last?
      rw [h]
      rfl
    · unfold get?
      rw [h]
      rfl
  · rw [List.concat_eq_append] at h
    refine .inr ⟨k, v, ?_, get?_eq_some_iff.2 (by simp [h]), fun j w hj => ?_⟩
    · unfold last?
      rw [h, List.getLast?_concat]
    · have hmem := get?_eq_some_iff.1 hj
      have hsorted := m.sorted
      rw [h] at hmem hsorted
      rcases List.mem_append.1 hmem with hmem | hmem
      · exact .inr ((List.pairwise_append.1 hsorted).2.2 _ hmem _ (List.mem_singleton_self _))
      · exact .inl (Prod.mk.inj (List.mem_singleton.1 hmem)).1

@[simp] theorem length_keys (m : SortedMap κ ν) : m.keys.length = m.size := List.length_map _

@[simp] theorem length_values (m : SortedMap κ ν) : m.values.length = m.size := List.length_map _

/-- A set value is read back, in terms of equality of keys. -/
theorem get?_insert_of [TransOrd κ] [LawfulEqOrd κ] [DecidableEq κ] (m : SortedMap κ ν) (k k' : κ)
    (v : ν) : (m.insert k v).get? k' = if k' = k then some v else m.get? k' := by
  rw [get?_insert]
  by_cases h : k' = k
  · rw [if_pos (compare_eq_iff.2 h), if_pos h]
  · rw [if_neg (mt compare_eq_iff.1 h), if_neg h]

/-- A removed key has no value, in terms of equality of keys. -/
theorem get?_erase_of [TransOrd κ] [LawfulEqOrd κ] [DecidableEq κ] (m : SortedMap κ ν) (k k' : κ) :
    (m.erase k).get? k' = if k' = k then none else m.get? k' := by
  rw [get?_erase]
  by_cases h : k' = k
  · rw [if_pos (compare_eq_iff.2 h), if_pos h]
  · rw [if_neg (mt compare_eq_iff.1 h), if_neg h]

theorem get?_filter_eq_some_iff [TransOrd κ] [LawfulEqOrd κ] {m : SortedMap κ ν}
    {p : κ × ν → Bool} {k : κ} {v : ν} :
    (m.filter p).get? k = some v ↔ m.get? k = some v ∧ p (k, v) = true := by
  rw [get?_eq_some_iff, get?_eq_some_iff, filter, List.mem_filter]

/-! ## The number of entries -/

theorem length_insertEntry [TransOrd κ] [LawfulEqOrd κ] {k : κ} {v : ν} {es : List (κ × ν)}
    (h : lookup k es = none) : (insertEntry k v es).length = es.length + 1 := by
  induction es with
  | nil => rfl
  | cons d es ih =>
    unfold lookup at h
    unfold insertEntry
    cases hc : compare k d.1 with
    | lt => rfl
    | eq =>
      rw [if_pos hc] at h
      cases h
    | gt =>
      rw [if_neg (by rw [hc]; decide)] at h
      exact congrArg (· + 1) (ih h)

section
variable [TransOrd κ] [LawfulEqOrd κ] {m : SortedMap κ ν} {k : κ} {v w : ν}

/-- A new key adds an entry. -/
theorem size_insert_of_fresh (h : m.get? k = none) : (m.insert k v).size = m.size + 1 :=
  length_insertEntry h

theorem insert_erase (m : SortedMap κ ν) (k : κ) (v : ν) :
    (m.erase k).insert k v = m.insert k v := by
  refine ext_get? fun j => ?_
  rw [get?_insert, get?_insert, get?_erase]
  by_cases hj : compare j k = .eq
  · rw [if_pos hj, if_pos hj]
  · rw [if_neg hj, if_neg hj, if_neg hj]

theorem insert_of_get? (h : m.get? k = some v) : m.insert k v = m := by
  refine ext_get? fun j => ?_
  rw [get?_insert]
  by_cases hj : compare j k = .eq
  · rw [if_pos hj, compare_eq_iff.1 hj, h]
  · rw [if_neg hj]

/-- A removed key takes its entry away. -/
theorem size_erase (h : m.get? k = some v) : (m.erase k).size + 1 = m.size := by
  have hfresh : (m.erase k).get? k = none := by rw [get?_erase, if_pos (compare_self k)]
  rw [← size_insert_of_fresh hfresh, insert_erase, insert_of_get? h]

/-- A key that has a value keeps its entry. -/
theorem size_insert_of_get? (h : m.get? k = some w) : (m.insert k v).size = m.size := by
  have hfresh : (m.erase k).get? k = none := by rw [get?_erase, if_pos (compare_self k)]
  rw [← insert_erase, size_insert_of_fresh hfresh, size_erase h]

end

theorem size_insert_le [TransOrd κ] [LawfulEqOrd κ] (m : SortedMap κ ν) (k : κ) (v : ν) :
    (m.insert k v).size ≤ m.size + 1 := by
  cases h : m.get? k with
  | none => exact Nat.le_of_eq (size_insert_of_fresh h)
  | some w => exact Nat.le_succ_of_le (Nat.le_of_eq (size_insert_of_get? h))

/-- Every entry is kept by a filter or by its opposite. -/
theorem size_filter_add (m : SortedMap κ ν) (p : κ × ν → Bool) :
    (m.filter p).size + (m.filter fun e => !p e).size = m.size := by
  unfold size filter
  rw [← List.countP_eq_length_filter, ← List.countP_eq_length_filter,
    List.length_eq_countP_add_countP p]
  congr 1
  exact List.countP_congr fun e _ => by simp

/-! ## Building a map from its entries -/

theorem insertEntry_of_gt [TransOrd κ] {k : κ} {v : ν} {es : List (κ × ν)}
    (h : ∀ e ∈ es, compare e.1 k = .lt) : insertEntry k v es = es ++ [(k, v)] := by
  induction es with
  | nil => rfl
  | cons e es ih =>
    have he : compare k e.1 = .gt := OrientedCmp.gt_of_lt (h e List.mem_cons_self)
    unfold insertEntry
    rw [he, List.cons_append, ih fun d hd => h d (List.mem_cons_of_mem _ hd)]

theorem entries_foldl_insert [TransOrd κ] [LawfulEqOrd κ] (es : List (κ × ν)) (m : SortedMap κ ν)
    (h : (m.entries ++ es).Pairwise fun a b => compare a.1 b.1 = .lt) :
    (es.foldl (fun m e => m.insert e.1 e.2) m).entries = m.entries ++ es := by
  induction es generalizing m with
  | nil => rw [List.foldl_nil, List.append_nil]
  | cons e es ih =>
    have hm : (m.insert e.1 e.2).entries = m.entries ++ [e] := by
      refine insertEntry_of_gt fun d hd => ?_
      exact (List.pairwise_append.1 h).2.2 d hd e List.mem_cons_self
    rw [List.foldl_cons, ih _ (by rwa [hm, List.append_assoc]), hm, List.append_assoc]
    rfl

theorem ofList_entries [TransOrd κ] [LawfulEqOrd κ] (m : SortedMap κ ν) : ofList m.entries = m := by
  have h : (ofList m.entries).entries = m.entries :=
    entries_foldl_insert m.entries empty m.sorted
  refine ext_get? fun k => ?_
  unfold get?
  rw [h]

/-- A list of entries gives at most as many. -/
theorem size_ofList_le [TransOrd κ] [LawfulEqOrd κ] (es : List (κ × ν)) :
    (ofList es).size ≤ es.length := by
  have hfold (m : SortedMap κ ν) :
      (es.foldl (fun m e => m.insert e.1 e.2) m).size ≤ m.size + es.length := by
    induction es generalizing m with
    | nil => exact Nat.le_refl _
    | cons e es ih =>
      have hrest := ih (m.insert e.1 e.2)
      have hone := size_insert_le m e.1 e.2
      rw [List.foldl_cons, List.length_cons]
      omega
  exact Nat.le_trans (hfold empty) (Nat.le_of_eq (Nat.zero_add _))

end Quorum.SortedMap
