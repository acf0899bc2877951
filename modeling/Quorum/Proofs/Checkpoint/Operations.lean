import Mathlib.Tactic.SplitIfs
import Quorum.Checkpoint.Store
import Quorum.Proofs.Data.Map
import Quorum.Proofs.Data.Transcript

/-!
# What a store of checkpoints is asked

* `Operation`, `Answer`, `perform` : the operations on a store, and what it answers;
* `held` : the checkpoint that was last saved at a version and not pruned since, by the operations;
* `load?_perform`, `steady_held` : that is the one that the store holds;
* `Fits` : the answer that is called for when these checkpoints are held, `fits_perform` : it is the
  one that is given;
* `pruneBelow_pruneBelow` : pruning once is enough.
-/

namespace Quorum

theorem Counter.le_iff_not_lt {role : CounterRole} {a b : Counter role} :
    a ≤ b ↔ ¬ b.toNat < a.toNat := UInt64.le_iff_toNat_le.trans Nat.not_lt.symm

namespace CheckpointStore

/-- What a store is asked. -/
inductive Operation where
  | save (c : Checkpoint)
  | load (v : Version)
  | loadLatest
  | versions
  | pruneBelow (v : Version)
  deriving DecidableEq

/-- What it answers. -/
inductive Answer where
  | saved
  | loaded (found : Option Checkpoint)
  | listed (vs : List Version)
  | pruned (count : Nat)
  deriving DecidableEq

/-- The store after an operation, and its answer. -/
def perform (s : CheckpointStore) : Operation → CheckpointStore × Answer
  | .save c => (s.save c, .saved)
  | .load v => (s, .loaded (s.load? v))
  | .loadLatest => (s, .loaded s.latest?)
  | .versions => (s, .listed s.versions)
  | .pruneBelow v => ((s.pruneBelow v).1, .pruned (s.pruneBelow v).2)

/-- An operation and the answer to it. -/
structure Entry where
  operation : Operation
  answer : Answer
  deriving DecidableEq

/-- The store after an operation, with what was asked and answered. -/
def step? (s : CheckpointStore) (op : Operation) : Option (CheckpointStore × Entry) :=
  some ((s.perform op).1, ⟨op, (s.perform op).2⟩)

/-! ## What is held -/

/-- What an operation makes of the checkpoint at a version, if anything. -/
def Operation.decides (v : Version) : Operation → Option (Option Checkpoint)
  | save c => if c.data.version = v then some (some c) else none
  | pruneBelow w => if v.toNat < w.toNat then some none else none
  | _ => none

/-- The checkpoint at a version after operations: the last one that decides about it decides, and
without any it is the one that the store began with. -/
def held (s : CheckpointStore) (ops : List Operation) (v : Version) : Option Checkpoint :=
  (ops.filterMap (Operation.decides v)).getLast?.getD (s.load? v)

variable {s : CheckpointStore} {ops : List Operation} {v w : Version} {c : Checkpoint}

theorem held_concat (s : CheckpointStore) (ops : List Operation) (op : Operation) (v : Version) :
    s.held (ops ++ [op]) v = (op.decides v).getD (s.held ops v) := by
  unfold held
  rw [filterMap_concat, List.getLast?_append]
  cases op.decides v <;> rfl

/-! ## What one operation does -/

theorem load?_save (s : CheckpointStore) (c : Checkpoint) (v : Version) :
    (s.save c).load? v = if c.data.version = v then some c else s.load? v := by
  refine (SortedMap.get?_insert_of ..).trans ?_
  by_cases h : v = c.data.version
  · rw [if_pos h, if_pos h.symm]
  · rw [if_neg h, if_neg (Ne.symm h)]
    rfl

theorem load?_pruneBelow (s : CheckpointStore) (w v : Version) :
    (s.pruneBelow w).1.load? v = if v.toNat < w.toNat then none else s.load? v := by
  refine Option.ext fun c => ?_
  show (s.checkpoints.filter _).get? v = some c ↔ _
  rw [SortedMap.get?_filter_eq_some_iff, decide_eq_true_iff]
  rw [Counter.le_iff_not_lt]
  by_cases h : v.toNat < w.toNat
  · simp [h]
  · simp [h, load?]

/-- **An operation decides about the versions that it is about, and about no others.** -/
theorem load?_perform (s : CheckpointStore) (op : Operation) (v : Version) :
    (s.perform op).1.load? v = (op.decides v).getD (s.load? v) := by
  cases op with
  | save c =>
    refine (load?_save s c v).trans ?_
    simp only [Operation.decides]
    split_ifs <;> rfl
  | pruneBelow w =>
    refine (load?_pruneBelow s w v).trans ?_
    simp only [Operation.decides]
    split_ifs <;> rfl
  | _ => rfl

/-- **A store holds what the operations call for.** -/
theorem steady_held (s₀ : CheckpointStore) :
    Steady step? Entry.operation fun s es => ∀ v, s.load? v = s₀.held (es.map Entry.operation) v where
  request_eq h := by
    cases h
    rfl
  keeps {s es op s' e} h hstep v := by
    cases hstep
    rw [List.map_append, List.map_singleton, held_concat, load?_perform, h]

/-! ## Answers -/

/-- The answer that is called for when these checkpoints are held. -/
inductive Fits (held : Version → Option Checkpoint) : Operation → Answer → Prop
  | save (c : Checkpoint) : Fits held (.save c) .saved
  | load (v : Version) : Fits held (.load v) (.loaded (held v))
  /-- The latest checkpoint is the one of the greatest version. -/
  | latest {v : Version} {c : Checkpoint} (hc : held v = some c)
      (hmax : ∀ w c', held w = some c' → w.toNat ≤ v.toNat) : Fits held .loadLatest (.loaded (some c))
  | noLatest (h : ∀ v, held v = none) : Fits held .loadLatest (.loaded none)
  | versions {vs : List Version} (hsorted : (vs.map Counter.toNat).Pairwise (· < ·))
      (hmem : ∀ v, v ∈ vs ↔ ∃ c, held v = some c) : Fits held .versions (.listed vs)
  /-- The count of the versions that are removed. -/
  | pruneBelow {v : Version} {vs : List Version} (hnodup : vs.Nodup)
      (hmem : ∀ w, w ∈ vs ↔ w.toNat < v.toNat ∧ ∃ c, held w = some c) :
      Fits held (.pruneBelow v) (.pruned vs.length)

theorem mem_versions_iff : v ∈ s.versions ↔ ∃ c, s.load? v = some c := SortedMap.mem_keys_iff

theorem pairwise_versions (s : CheckpointStore) :
    (s.versions.map Counter.toNat).Pairwise (· < ·) :=
  List.pairwise_map.2 (s.checkpoints.pairwise_keys.imp Counter.compare_eq_lt.1)

/-- The entry of the greatest key. -/
theorem fits_latest (s : CheckpointStore) : Fits s.load? .loadLatest (.loaded s.latest?) := by
  unfold latest?
  obtain ⟨hlast, hnone⟩ | ⟨v, c, hlast, hc, hmax⟩ := s.checkpoints.last?_cases
  · rw [hlast]
    exact .noLatest hnone
  · rw [hlast]
    refine .latest hc fun w c' hw => ?_
    obtain rfl | hlt := hmax w c' hw
    · exact Nat.le_refl _
    · exact Nat.le_of_lt (Counter.compare_eq_lt.1 hlt)

/-- What pruning removes is what it does not keep. -/
theorem snd_pruneBelow (s : CheckpointStore) (v : Version) :
    (s.pruneBelow v).2 = (s.versions.filter fun w => w.toNat < v.toNat).length := by
  have hsize := s.checkpoints.size_filter_add fun e => v ≤ e.1
  have hgone : (s.checkpoints.filter fun e => !decide (v ≤ e.1)).size =
      (s.versions.filter fun w => w.toNat < v.toNat).length := by
    unfold versions SortedMap.keys
    rw [List.filter_map, List.length_map]
    show (s.checkpoints.entries.filter _).length = _
    congr 1
    refine List.filter_congr fun e _ => ?_
    by_cases h : e.1.toNat < v.toNat <;> simp [Counter.le_iff_not_lt, h]
  show s.checkpoints.size - (s.checkpoints.filter fun e => decide (v ≤ e.1)).size = _
  omega

theorem fits_pruneBelow (s : CheckpointStore) (v : Version) :
    Fits s.load? (.pruneBelow v) (.pruned (s.pruneBelow v).2) := by
  rw [snd_pruneBelow]
  refine .pruneBelow (s.checkpoints.nodup_keys.filter _) fun w => ?_
  rw [List.mem_filter, decide_eq_true_iff, mem_versions_iff, and_comm]

/-- **Every answer is the one that is called for.** -/
theorem fits_perform (s : CheckpointStore) (op : Operation) : Fits s.load? op (s.perform op).2 := by
  cases op with
  | save c => exact .save c
  | load v => exact .load v
  | loadLatest => exact fits_latest s
  | versions => exact .versions (pairwise_versions s) fun v => mem_versions_iff
  | pruneBelow v => exact fits_pruneBelow s v

/-- Pruning once is enough. -/
theorem pruneBelow_pruneBelow (s : CheckpointStore) (v : Version) :
    (s.pruneBelow v).1.pruneBelow v = ((s.pruneBelow v).1, 0) := by
  have hkept : (s.checkpoints.filter fun e => decide (v ≤ e.1)).filter (fun e => decide (v ≤ e.1)) =
      s.checkpoints.filter fun e => decide (v ≤ e.1) := by
    unfold SortedMap.filter
    simp only [List.filter_filter, Bool.and_self]
  unfold pruneBelow
  simp only [hkept, Nat.sub_self]

end CheckpointStore

end Quorum
