import Mathlib.Order.Interval.Finset.Nat
import Quorum.Proofs.Checkpoint.Operations
import Quorum.Proofs.Snapshot.History

/-!
# The checkpoints that stay

Checkpoints of consecutive versions are saved, and with each of them those that have become too old
are removed.

* `saveAllKeeping` : the store after such checkpoints;
* `newest` : what would be held at a version if nothing were ever removed;
* `load?_saveKeeping`, `load?_saveAllKeeping`, `load?_saveAllKeeping_of_old` : what is held in fact;
* `length_versions_le`, `le_length_versions` : how many versions there are;
* `latest?_eq` : which one is the latest;
* `KeepsLast`, `keepsLast_saveAllKeeping` : so the last checkpoints stay, as many as are to be kept.
-/

namespace Quorum

theorem Numbered.toNat_getElem? {first : Nat} {cs : List Checkpoint}
    (h : Numbered first (cs.map Checkpoint.data)) {i : Nat} {c : Checkpoint} (hc : cs[i]? = some c) :
    c.data.version.toNat = first + i := by
  obtain ⟨hi, hget⟩ := List.getElem?_eq_some_iff.1 hc
  have hmap := congrArg (·[i]?) h
  simpa [hi, hget] using hmap

theorem Numbered.of_concat {first : Nat} {cs : List Checkpoint} {c : Checkpoint}
    (h : Numbered first ((cs ++ [c]).map Checkpoint.data)) :
    Numbered first (cs.map Checkpoint.data) := by
  unfold Numbered at *
  have htake := congrArg (List.take cs.length) h
  simpa [List.take_append, List.range'_concat] using htake

namespace CheckpointStore

variable {s s₀ : CheckpointStore} {keep first : Nat} {cs : List Checkpoint} {c : Checkpoint}
  {v : Version}

/-- Save checkpoints one after the other, and remove with each those that are `keep` versions older or
more. -/
def saveAllKeeping (s : CheckpointStore) (keep : Nat) (cs : List Checkpoint) : CheckpointStore :=
  cs.foldl (fun s c => s.saveKeeping keep c) s

/-- The checkpoint at a version if those after `first` were saved and none were removed. -/
def newest (s : CheckpointStore) (first : Nat) (cs : List Checkpoint) (v : Version) :
    Option Checkpoint :=
  if v.toNat ≤ first then s.load? v else cs[v.toNat - first - 1]?

theorem saveAllKeeping_append (s : CheckpointStore) (keep : Nat) (cs ds : List Checkpoint) :
    s.saveAllKeeping keep (cs ++ ds) = (s.saveAllKeeping keep cs).saveAllKeeping keep ds :=
  List.foldl_append

/-- Removing below one more than the difference is removing what is `keep` versions older or more. -/
theorem load?_saveKeeping (hkeep : 0 < keep) (s : CheckpointStore) (c : Checkpoint) (v : Version) :
    (s.saveKeeping keep c).load? v =
      if v.toNat + keep ≤ c.data.version.toNat then none
      else if c.data.version = v then some c else s.load? v := by
  rw [← load?_save]
  unfold saveKeeping
  by_cases h : keep ≤ c.data.version.toNat
  · have hbound : (Counter.ofNat (c.data.version.toNat - keep + 1) : Version).toNat =
        c.data.version.toNat - keep + 1 := by
      have := c.data.version.toNat_lt
      exact Counter.toNat_ofNat (by omega)
    simp only [if_pos h, load?_pruneBelow, hbound]
    refine if_congr ?_ rfl rfl
    omega
  · simp only [if_neg h]
    rw [if_neg (by omega)]

/-! ## What is held -/

/-- **What is new enough is held as if nothing were ever removed.** -/
theorem load?_saveAllKeeping (hkeep : 0 < keep) (h₀ : ∀ v c, s₀.load? v = some c → v.toNat ≤ first)
    (hn : Numbered (first + 1) (cs.map Checkpoint.data)) (hv : first + cs.length < v.toNat + keep) :
    (s₀.saveAllKeeping keep cs).load? v = s₀.newest first cs v := by
  induction cs using List.reverseRecOn with
  | nil =>
    unfold newest
    split_ifs with hle
    · rfl
    · exact Option.eq_none_iff_forall_ne_some.2 fun c hc => hle (h₀ v c hc)
  | append_singleton cs c ih =>
    have hc : c.data.version.toNat = first + 1 + cs.length :=
      hn.toNat_getElem? (List.getElem?_concat_length)
    rw [List.length_append, List.length_singleton] at hv
    rw [saveAllKeeping_append]
    show ((s₀.saveAllKeeping keep cs).saveKeeping keep c).load? v = _
    rw [load?_saveKeeping hkeep, if_neg (by omega), ih hn.of_concat (by omega)]
    unfold newest
    by_cases hlast : c.data.version = v
    · subst hlast
      have hindex : c.data.version.toNat - first - 1 = cs.length := by omega
      rw [if_pos rfl, if_neg (by omega), hindex, List.getElem?_concat_length]
    · have hne : v.toNat ≠ first + 1 + cs.length := fun he =>
        hlast (Counter.toNat_inj.1 (hc.trans he.symm))
      rw [if_neg hlast]
      split_ifs with hle
      · rfl
      · have hindex : v.toNat - first - 1 ≠ cs.length := by omega
        rcases Nat.lt_or_gt_of_ne hindex with hlt | hgt
        · rw [List.getElem?_append_left hlt]
        · rw [List.getElem?_append_right (Nat.le_of_lt hgt), List.getElem?_eq_none (Nat.le_of_lt hgt),
            List.getElem?_singleton, if_neg (Nat.sub_ne_zero_of_lt hgt)]

/-- **What is too old is gone**, once anything was saved. -/
theorem load?_saveAllKeeping_of_old (hkeep : 0 < keep)
    (hn : Numbered (first + 1) (cs.map Checkpoint.data)) (hne : cs ≠ [])
    (hv : v.toNat + keep ≤ first + cs.length) : (s₀.saveAllKeeping keep cs).load? v = none := by
  rcases List.eq_nil_or_concat cs with rfl | ⟨cs, c, rfl⟩
  · exact absurd rfl hne
  rw [List.concat_eq_append] at *
  have hc : c.data.version.toNat = first + 1 + cs.length :=
    hn.toNat_getElem? (List.getElem?_concat_length)
  rw [List.length_append, List.length_singleton] at hv
  rw [saveAllKeeping_append]
  exact (load?_saveKeeping hkeep _ c v).trans (if_pos (by omega))

/-! ## How many there are -/

theorem nodup_versions (s : CheckpointStore) : (s.versions.map Counter.toNat).Nodup :=
  (pairwise_versions s).imp Nat.ne_of_lt

/-- There are at most as many versions as there are numbers that they can have. -/
theorem length_versions_le (low high : Nat)
    (h : ∀ v c, s.load? v = some c → low ≤ v.toNat ∧ v.toNat < high) :
    s.versions.length ≤ high - low := by
  have hsub : (s.versions.map Counter.toNat).toFinset ⊆ Finset.Ico low high := by
    intro n hn
    obtain ⟨v, hv, rfl⟩ := List.mem_map.1 (List.mem_toFinset.1 hn)
    obtain ⟨c, hc⟩ := mem_versions_iff.1 hv
    exact Finset.mem_Ico.2 (h v c hc)
  have hcard := Finset.card_le_card hsub
  rwa [List.toFinset_card_of_nodup s.nodup_versions, List.length_map, Nat.card_Ico] at hcard

/-- There are at least as many versions as there are numbers that they must have. -/
theorem le_length_versions (low high : Nat)
    (h : ∀ n, low ≤ n → n < high → ∃ v c, v.toNat = n ∧ s.load? v = some c) :
    high - low ≤ s.versions.length := by
  have hsub : Finset.Ico low high ⊆ (s.versions.map Counter.toNat).toFinset := by
    intro n hn
    obtain ⟨hlow, hhigh⟩ := Finset.mem_Ico.1 hn
    obtain ⟨v, c, rfl, hc⟩ := h n hlow hhigh
    exact List.mem_toFinset.2 (List.mem_map_of_mem (mem_versions_iff.2 ⟨c, hc⟩))
  have hcard := Finset.card_le_card hsub
  rwa [List.toFinset_card_of_nodup s.nodup_versions, List.length_map, Nat.card_Ico] at hcard

/-- The latest checkpoint is the one that is held at the greatest version. -/
theorem latest?_eq (hc : s.load? v = some c)
    (hmax : ∀ w d, s.load? w = some d → w.toNat ≤ v.toNat) : s.latest? = some c := by
  have hfits := fits_latest s
  generalize s.latest? = found at hfits
  cases hfits with
  | @latest w d hd hmax' =>
    obtain rfl : v = w := Counter.toNat_inj.1 (Nat.le_antisymm (hmax' v c hc) (hmax w d hd))
    rw [← hc, hd]
  | noLatest hnone => exact absurd hc (by rw [hnone]; nofun)

/-! ## The last checkpoints -/

/-- A store keeps the last ones of the checkpoints that were saved over another store, as many as it
is to keep, and before those what that store held. -/
structure KeepsLast (s s₀ : CheckpointStore) (keep first : Nat) (cs : List Checkpoint) : Prop where
  load?_iff : ∀ v d, s.load? v = some d ↔ first + cs.length < v.toNat + keep ∧
    (v.toNat ≤ first ∧ s₀.load? v = some d ∨
      first < v.toNat ∧ cs[v.toNat - first - 1]? = some d)
  atMost : s.versions.length ≤ keep
  atLeast : min keep cs.length ≤ s.versions.length
  latest? : s.latest? = cs.getLast?

/-- **Saving checkpoints of consecutive versions keeps the last ones.** -/
theorem keepsLast_saveAllKeeping (hkeep : 0 < keep)
    (h₀ : ∀ v d, s₀.load? v = some d → v.toNat ≤ first)
    (hn : Numbered (first + 1) (cs.map Checkpoint.data)) (hne : cs ≠ []) :
    (s₀.saveAllKeeping keep cs).KeepsLast s₀ keep first cs := by
  have hlength : 0 < cs.length := List.length_pos_of_ne_nil hne
  have hload (v : Version) (d : Checkpoint) : (s₀.saveAllKeeping keep cs).load? v = some d ↔
      first + cs.length < v.toNat + keep ∧ (v.toNat ≤ first ∧ s₀.load? v = some d ∨
        first < v.toNat ∧ cs[v.toNat - first - 1]? = some d) := by
    by_cases hnew : first + cs.length < v.toNat + keep
    · rw [load?_saveAllKeeping hkeep h₀ hn hnew]
      unfold newest
      by_cases hle : v.toNat ≤ first
      · simp [hnew, hle]
      · simp [hnew, hle, Nat.lt_of_not_le hle]
    · rw [load?_saveAllKeeping_of_old hkeep hn hne (Nat.le_of_not_lt hnew)]
      exact iff_of_false nofun fun hd => hnew hd.1
  -- every checkpoint that was saved and is not too old is held at its own version
  have hget (i : Nat) (hi : i < cs.length) (hnew : cs.length < i + 1 + keep) :
      ∃ v, v.toNat = first + 1 + i ∧ (s₀.saveAllKeeping keep cs).load? v = some cs[i] := by
    have hversion := hn.toNat_getElem? (List.getElem?_eq_getElem hi)
    refine ⟨cs[i].data.version, hversion, (hload _ _).2 ⟨by omega, .inr ⟨by omega, ?_⟩⟩⟩
    rw [show cs[i].data.version.toNat - first - 1 = i by omega, List.getElem?_eq_getElem hi]
  have hbelow (v : Version) (d : Checkpoint) (hd : (s₀.saveAllKeeping keep cs).load? v = some d) :
      first + cs.length < v.toNat + keep ∧ v.toNat ≤ first + cs.length := by
    obtain ⟨hnew, ⟨hle, -⟩ | ⟨-, hget⟩⟩ := (hload v d).1 hd
    · omega
    · obtain ⟨hlt, -⟩ := List.getElem?_eq_some_iff.1 hget
      omega
  refine ⟨hload, ?_, ?_, ?_⟩
  · have hcount := length_versions_le (s := s₀.saveAllKeeping keep cs)
      (first + cs.length + 1 - keep) (first + cs.length + 1) fun v d hd => by
        have := hbelow v d hd
        omega
    omega
  · have hcount := le_length_versions (s := s₀.saveAllKeeping keep cs)
      (first + cs.length + 1 - min keep cs.length) (first + cs.length + 1) fun n hlow hhigh => by
        obtain ⟨v, hv, hd⟩ := hget (n - first - 1) (by omega) (by omega)
        exact ⟨v, _, by omega, hd⟩
    omega
  · obtain ⟨v, hv, hd⟩ := hget (cs.length - 1) (by omega) (by omega)
    rw [List.getLast?_eq_getElem?, List.getElem?_eq_getElem (by omega)]
    refine latest?_eq hd fun w d' hd' => ?_
    have := hbelow w d' hd'
    omega

end CheckpointStore

end Quorum
