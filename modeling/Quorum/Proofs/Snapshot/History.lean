import Mathlib.Data.List.Basic
import Quorum.Proofs.Data.Map
import Quorum.Snapshot.History

/-!
# What a history recalls

* `Numbered` : snapshots of consecutive versions;
* `History.Recalls` : the history holds the last ones of the published snapshots, as many as it has
  room for;
* `recalls_start`, `Recalls.push` : it does so from its start on, whenever the next snapshot is
  published;
* `Recalls.versions_eq`, `Recalls.get?_eq_some_iff`, `Recalls.latest?_eq` : what can be looked up in
  it.
-/

namespace Quorum

open SortedMap

/-- The snapshots have consecutive versions. -/
def Numbered (first : Nat) (ps : List Snapshot) : Prop :=
  ps.map (·.version.toNat) = List.range' first ps.length

theorem Numbered.concat {first : Nat} {ps : List Snapshot} (h : Numbered first ps) {s : Snapshot}
    (hs : s.version.toNat = first + ps.length) : Numbered first (ps ++ [s]) := by
  unfold Numbered at *
  simp [h, hs, List.range'_concat]

theorem Numbered.mem_drop {first n : Nat} {ps : List Snapshot} (h : Numbered first ps)
    {s : Snapshot} : s ∈ ps.drop n ↔ s ∈ ps ∧ first + n ≤ s.version.toNat := by
  have hget (i : Nat) (hi : i < ps.length) : ps[i].version.toNat = first + i := by
    have hmap := congrArg (·[i]?) h
    simpa [hi] using hmap
  simp only [List.mem_iff_getElem, List.length_drop, List.getElem_drop]
  constructor
  · rintro ⟨i, hi, rfl⟩
    exact ⟨⟨n + i, by omega, rfl⟩, by rw [hget]; omega⟩
  · rintro ⟨⟨i, hi, rfl⟩, hle⟩
    rw [hget] at hle
    exact ⟨i - n, by omega, by simp [show n + (i - n) = i by omega]⟩

namespace History

variable {h : History} {ps : List Snapshot} {s : Snapshot} {first : Nat}

theorem entries_trim {capacity : Nat} (excess : Nat) (m : SortedMap Version Snapshot)
    (hm : m.size ≤ capacity + excess) :
    (trim capacity excess m).entries = m.entries.drop (m.size - capacity) := by
  induction excess generalizing m with
  | zero =>
    have hdrop : m.size - capacity = 0 := by omega
    simp [trim, hdrop]
  | succ excess ih =>
    unfold trim
    split_ifs with hc
    · have hsize : m.dropFirst.size = m.size - 1 := List.length_tail
      rw [ih _ (by omega), hsize]
      show m.entries.tail.drop _ = _
      rw [List.drop_tail]
      congr 1
      omega
    · simp [Nat.sub_eq_zero_of_le (Nat.le_of_not_lt hc)]

/-- A snapshot of a greater version is put last. -/
theorem entries_push (hs : ∀ e ∈ h.snapshots.entries, e.1.toNat < s.version.toNat) :
    (h.push s).snapshots.entries =
      (h.snapshots.entries ++ [(s.version, s)]).drop (h.size + 1 - h.capacity) := by
  have hinsert : (h.snapshots.insert s.version s).entries =
      h.snapshots.entries ++ [(s.version, s)] :=
    insertEntry_of_gt fun e he => Counter.compare_eq_lt.2 (hs e he)
  have hsize : (h.snapshots.insert s.version s).size = h.size + 1 := by
    unfold SortedMap.size History.size
    simp [hinsert, SortedMap.size]
  unfold push
  rw [entries_trim _ _ (by omega), hinsert, hsize]

/-- The history holds the last published snapshots. -/
def Recalls (h : History) (ps : List Snapshot) : Prop :=
  h.snapshots.entries = (ps.drop (ps.length - h.capacity)).map fun s => (s.version, s)

theorem recalls_start (s : Snapshot) (capacity : Nat) : (start s capacity).Recalls [s] := by
  have hpush := entries_push (h := ⟨SortedMap.empty, max capacity 1⟩) (s := s) (by simp [empty])
  have hdrop : 1 - max capacity 1 = 0 := by omega
  refine Eq.trans (b := List.drop (1 - max capacity 1) [(s.version, s)]) hpush ?_
  show _ = List.map _ (List.drop (1 - max capacity 1) [s])
  rw [hdrop]
  rfl

/-- **The next snapshot is recalled as well, and the oldest one is forgotten if there is no room.** -/
theorem Recalls.push (hr : h.Recalls ps) (hps : Numbered first ps)
    (hs : s.version.toNat = first + ps.length) : (h.push s).Recalls (ps ++ [s]) := by
  have hlt : ∀ e ∈ h.snapshots.entries, e.1.toNat < s.version.toNat := by
    intro e he
    rw [hr, List.mem_map] at he
    obtain ⟨p, hp, rfl⟩ := he
    have hmem : p.version.toNat ∈ ps.map (·.version.toNat) :=
      List.mem_map_of_mem (List.mem_of_mem_drop hp)
    rw [hps, List.mem_range'_1] at hmem
    show p.version.toNat < s.version.toNat
    omega
  have hsize : h.size = min ps.length h.capacity := by
    unfold History.size SortedMap.size
    rw [hr]
    simp
    omega
  have hcap : (h.push s).capacity = h.capacity := rfl
  unfold Recalls
  rw [entries_push hlt, hr, hsize, hcap]
  have hle : ps.length - h.capacity ≤ ps.length := Nat.sub_le _ _
  have happ : (ps ++ [s]).drop (ps.length - h.capacity) =
      ps.drop (ps.length - h.capacity) ++ [s] := List.drop_append_of_le_length hle
  have hmap : ((ps.drop (ps.length - h.capacity)).map fun s => (s.version, s)) ++ [(s.version, s)] =
      ((ps ++ [s]).drop (ps.length - h.capacity)).map fun s => (s.version, s) := by
    rw [happ, List.map_append, List.map_singleton]
  rw [hmap, ← List.map_drop, List.drop_drop]
  congr 2
  simp
  omega

/-! ## Looking up -/

theorem Recalls.versions_eq (hr : h.Recalls ps) (hps : Numbered first ps) :
    h.versions.map Counter.toNat = List.range' (first + (ps.length - h.capacity))
      (min h.capacity ps.length) := by
  have hdrop : (ps.drop (ps.length - h.capacity)).map (·.version.toNat) =
      (List.range' first ps.length).drop (ps.length - h.capacity) := by
    rw [List.map_drop, hps]
  unfold versions keys
  rw [hr, List.map_map, List.map_map]
  refine hdrop.trans ?_
  rw [List.drop_range', Nat.mul_one]
  congr 1
  omega

theorem Recalls.get?_eq_some_iff (hr : h.Recalls ps) (hps : Numbered first ps) {v : Version} :
    h.get? v = some s ↔
      s.version = v ∧ s ∈ ps ∧ first + (ps.length - h.capacity) ≤ v.toNat := by
  unfold get?
  rw [SortedMap.get?_eq_some_iff, hr, List.mem_map]
  constructor
  · rintro ⟨p, hp, he⟩
    cases he
    exact ⟨rfl, hps.mem_drop.1 hp⟩
  · rintro ⟨rfl, hs⟩
    exact ⟨s, hps.mem_drop.2 hs, rfl⟩

theorem Recalls.latest?_eq (hr : h.Recalls ps) (hc : 0 < h.capacity)
    (hlast : ps.getLast? = some s) : h.latest? = some s := by
  have hne : ¬ ps.length ≤ ps.length - h.capacity := by
    have : ps ≠ [] := by
      rintro rfl
      cases hlast
    have := List.length_pos_iff.2 this
    omega
  unfold latest? last?
  rw [hr, List.getLast?_map, List.getLast?_drop, if_neg hne, hlast]
  rfl

end History

end Quorum
