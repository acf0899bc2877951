import Quorum.Proofs.Checkpoint.Operations
import Quorum.Proofs.Data.BigEndian
import Quorum.Proofs.Data.Rekeyed
import Quorum.Proofs.Wire.Metering

/-!
# Checkpoints in a table of bytes

On disk, checkpoints are the rows of a table, in the order of the bytes of their keys. A version is
eight big-endian bytes, so this is the order of the versions.

* `CheckpointTable`, `perform?` : such a table, and the operations on it;
* `compare_encode` : versions are written in their order;
* `CheckpointStore.table`, `perform?_table` : a store as a table, which answers every operation in the
  same way;
* `map_by_version` : after any operations, every answer is the one that the checkpoints call for which
  were saved and not pruned since.
-/

namespace Quorum

open CheckpointStore

/-- Checkpoints by the bytes of their versions, in the order of these bytes. -/
structure CheckpointTable where
  rows : SortedMap Bytes Checkpoint

namespace CheckpointTable

/-- The version that a key spells. -/
def version? (key : Bytes) : Option Version := (Wire.decodeWhole Version key).toOption

/-- Add a row, over one of the same key. -/
def save (t : CheckpointTable) (c : Checkpoint) : CheckpointTable :=
  ⟨t.rows.insert (Wire.encode c.data.version) c⟩

/-- The versions of the keys below that of a version, if they all spell one. -/
def below? (t : CheckpointTable) (v : Version) : Option (List Version) :=
  (t.rows.keys.filter fun key => compare key (Wire.encode v) = .lt).mapM version?

/-- Remove the rows of versions. -/
def remove (t : CheckpointTable) (vs : List Version) : CheckpointTable :=
  ⟨vs.foldl (fun rows v => rows.erase (Wire.encode v)) t.rows⟩

/-- The table after an operation, and the answer, unless a key spells no version. -/
def perform? (t : CheckpointTable) : Operation → Option (CheckpointTable × Answer)
  | .save c => some (t.save c, .saved)
  | .load v => some (t, .loaded (t.rows.get? (Wire.encode v)))
  | .loadLatest => some (t, .loaded (t.rows.last?.map (·.2)))
  | .versions => (t.rows.keys.mapM version?).map fun vs => (t, .listed vs)
  | .pruneBelow v => (t.below? v).map fun old => (t.remove old, .pruned old.length)

/-- The table after an operation, with what was asked and answered. -/
def step? (t : CheckpointTable) (op : Operation) : Option (CheckpointTable × Entry) :=
  (t.perform? op).map fun p => (p.1, ⟨op, p.2⟩)

/-! ## Keys -/

/-- **Versions are written in their order.** -/
theorem compare_encode (v w : Version) : compare (Wire.encode v) (Wire.encode w) = compare v w :=
  (Counter.compare_toBytes v w).trans (Counter.compare_eq v w).symm

theorem version?_encode (v : Version) : version? (Wire.encode v) = some v := by
  have hneed : Wire.need v = 8 := rfl
  unfold version?
  rw [Wire.decodeWhole_encode_eq (by rw [hneed]; decide), hneed]
  rfl

theorem mapM_version? (vs : List Version) : (vs.map Wire.encode).mapM version? = some vs := by
  induction vs with
  | nil => rfl
  | cons v vs ih =>
    rw [List.map_cons, List.mapM_cons, version?_encode, ih]
    rfl

theorem filter_keys (vs : List Version) (v : Version) :
    (vs.map Wire.encode).filter (fun key => compare key (Wire.encode v) = .lt) =
      (vs.filter fun w => w.toNat < v.toNat).map Wire.encode := by
  rw [List.filter_map]
  congr 1
  refine List.filter_congr fun w _ => ?_
  rw [Function.comp_apply, compare_encode, decide_eq_decide]
  exact Counter.compare_eq_lt

end CheckpointTable

open CheckpointTable

/-- The checkpoints of a store as a table. -/
def CheckpointStore.table (s : CheckpointStore) : CheckpointTable :=
  ⟨s.checkpoints.rekey Wire.encode compare_encode⟩

namespace CheckpointTable

theorem keys_table (s : CheckpointStore) : s.table.rows.keys = s.versions.map Wire.encode :=
  SortedMap.keys_rekey compare_encode s.checkpoints

/-- Pruning is removing the versions below one by one. -/
theorem checkpoints_pruneBelow (s : CheckpointStore) (v : Version) :
    (s.pruneBelow v).1.checkpoints =
      (s.versions.filter fun w => w.toNat < v.toNat).foldl SortedMap.erase s.checkpoints := by
  refine SortedMap.ext_get? fun w => ?_
  refine (load?_pruneBelow s v w).trans ?_
  rw [SortedMap.get?_foldl_erase]
  simp only [List.mem_filter, decide_eq_true_iff]
  by_cases hlt : w.toNat < v.toNat
  · rw [if_pos hlt]
    by_cases hw : w ∈ s.versions
    · rw [if_pos ⟨hw, hlt⟩]
    · rw [if_neg fun h => hw h.1]
      refine (Option.eq_none_iff_forall_ne_some.2 fun c hc => hw ?_).symm
      exact mem_versions_iff.2 ⟨c, hc⟩
  · rw [if_neg hlt, if_neg fun h => hlt h.2]
    rfl

/-- **A store and its table do the same and answer the same.** -/
theorem perform?_table (s : CheckpointStore) (op : Operation) :
    s.table.perform? op = some ((s.perform op).1.table, (s.perform op).2) := by
  cases op with
  | save c =>
    have hrows := SortedMap.rekey_insert compare_encode s.checkpoints c.data.version c
    exact congrArg (fun rows => some (CheckpointTable.mk rows, Answer.saved)) hrows.symm
  | load v =>
    exact congrArg (fun found => some (s.table, Answer.loaded found))
      (SortedMap.get?_rekey compare_encode s.checkpoints v)
  | loadLatest =>
    have hlast : s.table.rows.last?.map (·.2) = s.latest? := by
      refine (congrArg (Option.map (·.2)) (SortedMap.last?_rekey compare_encode s.checkpoints)).trans ?_
      rw [Option.map_map]
      rfl
    exact congrArg (fun found => some (s.table, Answer.loaded found)) hlast
  | versions =>
    show (s.table.rows.keys.mapM version?).map _ = _
    rw [keys_table, mapM_version?]
    rfl
  | pruneBelow v =>
    have hold : s.table.below? v = some (s.versions.filter fun w => w.toNat < v.toNat) := by
      unfold below?
      rw [keys_table, filter_keys, mapM_version?]
    have hrows : s.table.remove (s.versions.filter fun w => w.toNat < v.toNat) =
        (s.pruneBelow v).1.table := by
      unfold remove CheckpointStore.table
      rw [checkpoints_pruneBelow, SortedMap.rekey_foldl_erase]
    show (s.table.below? v).map _ = some (_, Answer.pruned (s.pruneBelow v).2)
    rw [hold, Option.map_some, hrows, snd_pruneBelow]
    rfl

theorem step?_table (s : CheckpointStore) (op : Operation) :
    s.table.step? op = (s.step? op).map fun t => (t.1.table, t.2) := by
  unfold CheckpointTable.step?
  rw [perform?_table]
  rfl

end CheckpointTable

/-- **A store is a map that is ordered by version.** Whatever it is asked, it answers, and a table in
the order of the bytes of its keys answers the same. At any moment a version is loaded as it was last
saved and not pruned since; the versions are listed in their numeric order, the latest checkpoint is
the one of the greatest of them, and pruning counts and removes exactly those below. Pruning again
does nothing. -/
theorem map_by_version (s : CheckpointStore) (ops : List Operation) :
    (∃ s' es, transcript? CheckpointStore.step? s ops = some (s', es) ∧
      transcript? CheckpointTable.step? s.table ops = some (s'.table, es) ∧
      es.map Entry.operation = ops ∧
      (∀ v, s'.load? v = s.held ops v) ∧
      (∀ v, (s'.pruneBelow v).1.pruneBelow v = ((s'.pruneBelow v).1, 0)) ∧
      ∀ before e after, es = before ++ e :: after →
        Fits (s.held (before.map Entry.operation)) e.operation e.answer) ∧
    ∀ v w : Version, compare (Wire.encode v) (Wire.encode w) = compare v.toNat w.toNat := by
  refine ⟨?_, fun v w => (compare_encode v w).trans (Counter.compare_eq v w)⟩
  have hI := steady_held s
  have hstart : ∀ v, s.load? v = s.held [] v := fun _ => rfl
  obtain ⟨s', es, hrun⟩ : ∃ s' es, transcript? CheckpointStore.step? s ops = some (s', es) :=
    exists_transcript? (fun s op => ⟨_, rfl⟩) s ops
  have hops : es.map Entry.operation = ops := hI.map_request hrun
  refine ⟨s', es, hrun, ?_, hops, fun v => ?_, fun v => pruneBelow_pruneBelow s' v, ?_⟩
  · rw [transcript?_view step?_table, hrun]
    rfl
  · have hheld : s'.load? v = s.held (([] ++ es).map Entry.operation) v :=
      hI.transcript hstart hrun v
    rwa [List.nil_append, hops] at hheld
  · rintro before e after rfl
    obtain ⟨s₁, s₂, hheld, hstep⟩ := hI.moment [] hstart hrun
    obtain ⟨-, hentry⟩ := Prod.mk.inj (Option.some.inj hstep)
    have hfits := fits_perform s₁ e.operation
    rw [show s₁.load? = s.held (before.map Entry.operation) from funext hheld] at hfits
    have hanswer : (s₁.perform e.operation).2 = e.answer := congrArg Entry.answer hentry
    rwa [hanswer] at hfits

/-- A checkpoint of a version, with nothing agreed on. -/
def blankAt (v : Nat) : Checkpoint :=
  ⟨⟨Counter.ofNat v, SortedMap.empty⟩, .registrationStartup, none, Counter.zero, Counter.zero⟩

/-- Three versions, saved out of order and around a carry of their bytes, and one of them pruned. -/
def carrying : List Operation :=
  [.save (blankAt 256), .save (blankAt 1), .save (blankAt 255), .pruneBelow (Counter.ofNat 255)]

theorem map_by_version_of_carrying : ∃ (s' : CheckpointStore) (es : List Entry),
    transcript? CheckpointTable.step? (CheckpointStore.empty true).table carrying =
      some (s'.table, es) ∧
    s'.load? (Counter.ofNat 1) = none ∧ s'.load? (Counter.ofNat 255) = some (blankAt 255) ∧
    s'.load? (Counter.ofNat 256) = some (blankAt 256) ∧
    Fits ((CheckpointStore.empty true).held (carrying.take 3)) (.pruneBelow (Counter.ofNat 255))
      (.pruned 1) ∧
    compare (Wire.encode (Counter.ofNat 255 : Version)) (Wire.encode (Counter.ofNat 256 : Version)) =
      .lt := by
  obtain ⟨⟨s', es, hstore, hrun, -, hheld, -, hfits⟩, horder⟩ :=
    map_by_version (CheckpointStore.empty true) carrying
  have hes : es = (carrying.take 3).map (⟨·, .saved⟩) ++
      [⟨.pruneBelow (Counter.ofNat 255), .pruned 1⟩] :=
    (congrArg Prod.snd (Option.some.inj hstore)).symm
  exact ⟨s', es, hrun, (hheld _).trans rfl, (hheld _).trans rfl, (hheld _).trans rfl,
    hfits _ _ [] hes, (horder _ _).trans rfl⟩

end Quorum
