import Quorum.Proofs.Data.Map

/-!
# Sorted maps under other names of their keys

* `rekey f hf m` : the entries of `m`, with their keys renamed by `f`, which keeps the order;
* `get?_rekey`, `rekey_insert`, `rekey_erase`, `keys_rekey`, `last?_rekey` : the operations do not
  depend on the names;
* `get?_foldl_erase` : look-up after keys were removed one by one.
-/

namespace Quorum.SortedMap

open Std

variable {κ μ ν : Type} [Ord κ] [Ord μ]

theorem entries_inj {m n : SortedMap κ ν} (h : m.entries = n.entries) : m = n := by
  cases m
  cases n
  cases h
  rfl

/-- The entries with their keys renamed. -/
def rekey (f : κ → μ) (hf : ∀ a b, compare (f a) (f b) = compare a b) (m : SortedMap κ ν) :
    SortedMap μ ν where
  entries := m.entries.map fun e => (f e.1, e.2)
  sorted := List.pairwise_map.2 (m.sorted.imp fun {a b} h => (hf a.1 b.1).trans h)

section
variable {f : κ → μ} (hf : ∀ a b, compare (f a) (f b) = compare a b)

@[simp] theorem get?_rekey (m : SortedMap κ ν) (k : κ) : (m.rekey f hf).get? (f k) = m.get? k := by
  show lookup (f k) (m.entries.map _) = lookup k m.entries
  induction m.entries with
  | nil => rfl
  | cons e es ih =>
    show (if compare (f k) (f e.1) = .eq then _ else _) = if compare k e.1 = .eq then _ else _
    rw [hf, ih]

theorem rekey_insert [TransOrd κ] [LawfulEqOrd κ] [TransOrd μ] [LawfulEqOrd μ]
    (m : SortedMap κ ν) (k : κ) (v : ν) :
    (m.insert k v).rekey f hf = (m.rekey f hf).insert (f k) v := by
  refine entries_inj ?_
  show (insertEntry k v m.entries).map _ = insertEntry (f k) v (m.entries.map _)
  induction m.entries with
  | nil => rfl
  | cons e es ih =>
    rw [List.map_cons]
    unfold insertEntry
    dsimp only
    rw [hf]
    cases compare k e.1 with
    | lt => rfl
    | eq => rfl
    | gt => exact congrArg (_ :: ·) ih

theorem rekey_erase (m : SortedMap κ ν) (k : κ) :
    (m.erase k).rekey f hf = (m.rekey f hf).erase (f k) := by
  refine entries_inj ?_
  show (m.entries.filter _).map _ = (m.entries.map _).filter _
  rw [List.filter_map]
  congr 1
  refine List.filter_congr fun e _ => ?_
  rw [Function.comp_apply, hf]

@[simp] theorem keys_rekey (m : SortedMap κ ν) : (m.rekey f hf).keys = m.keys.map f := by
  unfold keys rekey
  rw [List.map_map, List.map_map]
  rfl

theorem last?_rekey (m : SortedMap κ ν) :
    (m.rekey f hf).last? = m.last?.map fun e => (f e.1, e.2) :=
  List.getLast?_map

theorem rekey_foldl_erase (m : SortedMap κ ν) (ks : List κ) :
    (ks.foldl erase m).rekey f hf = ks.foldl (fun m k => m.erase (f k)) (m.rekey f hf) := by
  induction ks generalizing m with
  | nil => rfl
  | cons k ks ih => rw [List.foldl_cons, List.foldl_cons, ih, rekey_erase hf]

end

/-- Look-up after keys were removed one by one. -/
theorem get?_foldl_erase [TransOrd κ] [LawfulEqOrd κ] [DecidableEq κ] (m : SortedMap κ ν)
    (ks : List κ) (k : κ) :
    (ks.foldl erase m).get? k = if k ∈ ks then none else m.get? k := by
  induction ks generalizing m with
  | nil => rw [List.foldl_nil, if_neg List.not_mem_nil]
  | cons j ks ih =>
    rw [List.foldl_cons, ih, get?_erase_of]
    by_cases hk : k ∈ ks <;> by_cases hj : k = j <;> simp [hk, hj]

end Quorum.SortedMap
