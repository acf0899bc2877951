import Quorum.Proofs.Agent.Saving

/-!
# Where peers resume together

Peers resume from the checkpoint of the greatest version that all their stores have, as the first of
the stores has it. Whether the others have the same one there is not looked at.

* `Keyed` : a store holds every checkpoint at its own version, which every operation keeps
  (`Keyed.perform`, `keyed_performed`);
* `Shared`, `HeldByAll` : a version that every store has, a checkpoint that every store holds;
* `common?_eq_some_iff`, `common?_eq_none_iff` : where peers resume;
* `resumes_at_greatest_shared` : so they resume from a checkpoint that all of them hold exactly if
  their stores agree at that version;
* `resumes_from_stale` : stores need not agree.
-/

namespace Quorum.CheckpointStore

variable {s : CheckpointStore} {stores : List CheckpointStore} {c d : Checkpoint} {v w : Version}

/-! ## Stores of checkpoints -/

/-- Every checkpoint is held at its own version. -/
def Keyed (s : CheckpointStore) : Prop := ∀ v c, s.load? v = some c → c.data.version = v

theorem keyed_empty (ephemeral : Bool) : (empty ephemeral).Keyed := nofun

theorem keyed_iff : s.Keyed ↔ ∀ v ∈ s.versions, ∀ c ∈ s.load? v, c.data.version = v :=
  ⟨fun h v _ c hc => h v c hc, fun h v c hc => h v (mem_versions_iff.2 ⟨c, hc⟩) c hc⟩

instance : Decidable s.Keyed := decidable_of_iff _ keyed_iff.symm

/-- Every operation keeps checkpoints at their own versions. -/
theorem Keyed.perform (h : s.Keyed) (op : Operation) : (s.perform op).1.Keyed := by
  intro v c hc
  rw [load?_perform] at hc
  cases op with
  | save c' =>
    simp only [Operation.decides] at hc
    split_ifs at hc with hv
    · cases hc
      exact hv
    · exact h v c hc
  | pruneBelow w =>
    simp only [Operation.decides] at hc
    split_ifs at hc
    · cases hc
    · exact h v c hc
  | _ => exact h v c hc

/-- **Every store holds its checkpoints at their own versions.** -/
theorem keyed_performed (ephemeral : Bool) (ops : List Operation) :
    (ops.foldl (fun s op => (s.perform op).1) (empty ephemeral)).Keyed := by
  induction ops using List.reverseRecOn with
  | nil => exact keyed_empty ephemeral
  | append_singleton ops op ih =>
    rw [List.foldl_concat]
    exact ih.perform op

/-! ## What stores have in common -/

/-- Every store has a checkpoint of the version. -/
def Shared (stores : List CheckpointStore) (v : Version) : Prop :=
  ∀ s ∈ stores, ∃ c, s.load? v = some c

/-- Every store holds the checkpoint. -/
def HeldByAll (stores : List CheckpointStore) (c : Checkpoint) : Prop :=
  ∀ s ∈ stores, s.load? c.data.version = some c

theorem HeldByAll.shared (h : HeldByAll stores c) : Shared stores c.data.version :=
  fun s hs => ⟨c, h s hs⟩

/-- The last one of increasing versions is the greatest. -/
theorem getLast?_eq_some_iff {vs : List Version} (h : (vs.map Counter.toNat).Pairwise (· < ·)) :
    vs.getLast? = some v ↔ v ∈ vs ∧ ∀ w ∈ vs, w.toNat ≤ v.toNat := by
  rcases List.eq_nil_or_concat vs with rfl | ⟨us, u, rfl⟩
  · simp
  rw [List.concat_eq_append] at *
  rw [List.map_append, List.pairwise_append] at h
  have hlt (w : Version) (hw : w ∈ us) : w.toNat < u.toNat :=
    h.2.2 _ (List.mem_map_of_mem hw) _ (List.mem_singleton_self _)
  rw [List.getLast?_concat, Option.some_inj]
  constructor
  · rintro rfl
    refine ⟨List.mem_concat_self, fun w hw => ?_⟩
    rcases List.mem_append.1 hw with hw | hw
    · exact Nat.le_of_lt (hlt w hw)
    · rw [List.mem_singleton.1 hw]
  · rintro ⟨hv, hmax⟩
    rcases List.mem_append.1 hv with hv | hv
    · exact absurd (hmax u List.mem_concat_self) (Nat.not_le_of_lt (hlt v hv))
    · exact (List.mem_singleton.1 hv).symm

/-- **The greatest version that every store has.** -/
theorem commonVersion?_eq_some_iff (hne : stores ≠ []) : commonVersion? stores = some v ↔
    Shared stores v ∧ ∀ w, Shared stores w → w.toNat ≤ v.toNat := by
  obtain ⟨s, ss, rfl⟩ := List.exists_cons_of_ne_nil hne
  have hmem (w : Version) : w ∈ s.versions.filter (fun v => ss.all fun t => (t.load? v).isSome) ↔
      Shared (s :: ss) w := by
    simp [Shared, List.mem_filter, mem_versions_iff, Option.isSome_iff_exists]
  have hsorted := List.Pairwise.filter (fun v => ss.all fun t => (t.load? v).isSome)
    (List.pairwise_map.1 (pairwise_versions s))
  unfold commonVersion?
  rw [getLast?_eq_some_iff (List.pairwise_map.2 hsorted), hmem]
  simp only [hmem]

/-- There is no such version only if the stores have none in common. -/
theorem commonVersion?_eq_none_iff (hne : stores ≠ []) :
    commonVersion? stores = none ↔ ∀ v, ¬ Shared stores v := by
  obtain ⟨s, ss, rfl⟩ := List.exists_cons_of_ne_nil hne
  unfold commonVersion?
  rw [List.getLast?_eq_none_iff, List.filter_eq_nil_iff]
  simp [Shared, mem_versions_iff, Option.isSome_iff_exists]

/-! ## Where peers resume -/

/-- **Peers resume from what the first store has at the greatest version that every store has.** -/
theorem common?_eq_some_iff (hkeyed : ∀ s ∈ stores, s.Keyed) : common? stores = some c ↔
    (∃ s, stores.head? = some s ∧ s.load? c.data.version = some c) ∧
      Shared stores c.data.version ∧ ∀ w, Shared stores w → w.toNat ≤ c.data.version.toNat := by
  cases stores with
  | nil => simp [common?, commonVersion?]
  | cons s ss =>
    refine Option.bind_eq_some_iff.trans ?_
    simp only [commonVersion?_eq_some_iff (List.cons_ne_nil s ss), List.head?_cons,
      Option.some_inj, exists_eq_left']
    constructor
    · rintro ⟨v, hv, hc : s.load? v = some c⟩
      obtain rfl := hkeyed s List.mem_cons_self v c hc
      exact ⟨hc, hv⟩
    · rintro ⟨hc, hv⟩
      exact ⟨c.data.version, hv, hc⟩

theorem common?_eq_none_iff (hne : stores ≠ []) :
    common? stores = none ↔ ∀ v, ¬ Shared stores v := by
  rw [← commonVersion?_eq_none_iff hne]
  refine ⟨fun h => ?_, fun h => by rw [common?, h]; rfl⟩
  refine Option.eq_none_iff_forall_ne_some.2 fun v hv => ?_
  obtain ⟨s, ss, rfl⟩ := List.exists_cons_of_ne_nil hne
  obtain ⟨c, hc⟩ := ((commonVersion?_eq_some_iff hne).1 hv).1 s List.mem_cons_self
  have hcommon : common? (s :: ss) = s.load? v := by rw [common?, hv]; rfl
  rw [hcommon, hc] at h
  cases h

/-- A checkpoint that one of the stores has is held by all if no two stores differ at its version. -/
theorem heldByAll_iff {s : CheckpointStore} (hs : s ∈ stores) (hc : s.load? c.data.version = some c) :
    HeldByAll stores c ↔
      ∀ t ∈ stores, ∀ u ∈ stores, t.load? c.data.version = u.load? c.data.version :=
  ⟨fun h t ht u hu => (h t ht).trans (h u hu).symm, fun h t ht => (h t ht s hs).trans hc⟩

/-- **The common checkpoint.** Peers resume from the checkpoint that the first store has at the
greatest version that every store has. All of them hold it exactly if no two stores differ at that
version; no checkpoint of a greater version is held by all. Without such a version there is nothing
to resume from, and no checkpoint that all of them hold. -/
theorem resumes_at_greatest_shared (hne : stores ≠ []) (hkeyed : ∀ s ∈ stores, s.Keyed) :
    (∀ c, common? stores = some c ↔
      (∃ s, stores.head? = some s ∧ s.load? c.data.version = some c) ∧
        Shared stores c.data.version ∧
          ∀ w, Shared stores w → w.toNat ≤ c.data.version.toNat) ∧
    (∀ c, common? stores = some c →
      (HeldByAll stores c ↔
        ∀ s ∈ stores, ∀ t ∈ stores, s.load? c.data.version = t.load? c.data.version) ∧
      ∀ d, HeldByAll stores d → d.data.version.toNat ≤ c.data.version.toNat) ∧
    (common? stores = none ↔ ∀ v, ¬ Shared stores v) ∧
    (common? stores = none → ∀ d, ¬ HeldByAll stores d) := by
  refine ⟨fun c => common?_eq_some_iff hkeyed, fun c hc => ?_, common?_eq_none_iff hne,
    fun h d hd => (common?_eq_none_iff hne).1 h _ hd.shared⟩
  obtain ⟨⟨s, hs, hc⟩, -, hmax⟩ := (common?_eq_some_iff hkeyed).1 hc
  exact ⟨heldByAll_iff (List.mem_of_head? hs) hc, fun d hd => hmax _ hd.shared⟩

/-! ## Two runs from one checkpoint -/

/-- What a peer alone has stored when it resumed at version 3, without anything above it, and some
blocks came. -/
def storedAfter (roundTimeout : UInt64) (blocks : List Block) : CheckpointStore :=
  let config := { Chronicle.keepingThree with app := { Application.brief with roundTimeout } }
  match Agent.create config (some Application.thirdAttempt) with
  | .error _ => empty true
  | .ok a =>
    let cues := Chronicle.twoBlocks.take 1 ++ blocks.map .block
    let a' := ((Chronicle.begin { a with
      store := some ((empty true).save Application.thirdAttempt) }).follow cues).agent
    a'.store.getD (empty true)

/-- Of a run whose round is out of time with the first block. -/
def hasty : CheckpointStore := storedAfter 0 (Application.emptyBlocks.take 1)

/-- Of a run whose round is out of time with the second block. -/
def patient : CheckpointStore := storedAfter 2 Application.emptyBlocks

/-- The round ran out of time at different heights in the two runs, so the checkpoints of version 4
differ. -/
theorem load?_hasty_ne_patient :
    hasty.load? (Counter.ofNat 4) ≠ patient.load? (Counter.ofNat 4) := by
  intro h
  have hheight : (hasty.load? (Counter.ofNat 4)).map (·.height.toNat) = some 11 := by
    rw [h]
    rfl
  exact absurd hheight (by decide)

/-- From the two stores peers resume at the height of the run whose store comes first. With a store
that has nothing there is nothing to resume from. -/
theorem resumes_at_greatest_shared_of_reruns : ∃ c, common? [patient, hasty] = some c ∧
    c.data.version.toNat = 4 ∧ c.height.toNat = 11 ∧ ¬ HeldByAll [patient, hasty] c ∧
      common? [patient, empty true] = none ∧ ∀ d, ¬ HeldByAll [patient, empty true] d := by
  obtain ⟨c, hc⟩ : ∃ c, common? [patient, hasty] = some c := ⟨_, rfl⟩
  obtain ⟨hv, hh⟩ : c.data.version = Counter.ofNat 4 ∧ c.height = Counter.ofNat 11 := by
    cases hc
    exact ⟨rfl, rfl⟩
  obtain ⟨-, hheld, -, -⟩ :=
    resumes_at_greatest_shared (List.cons_ne_nil patient [hasty]) (by decide)
  obtain ⟨-, -, hiff, hnone⟩ :=
    resumes_at_greatest_shared (List.cons_ne_nil patient [empty true]) (by decide)
  have hempty : common? [patient, empty true] = none := by
    refine hiff.2 fun v h => ?_
    obtain ⟨d, hd⟩ := h (empty true) (by simp)
    cases hd
  refine ⟨c, hc, by rw [hv]; rfl, by rw [hh]; rfl, fun hall => ?_, hempty, hnone hempty⟩
  have hagree := (hheld c hc).1.1 hall hasty (by simp) patient (by simp)
  rw [hv] at hagree
  exact load?_hasty_ne_patient hagree

/-- **Stores need not agree.** Of the two runs, both peers resume from the checkpoint of the first
one, which the second peer does not have, though there is one that both have. -/
theorem resumes_from_stale : ∃ c, common? [hasty, patient] = some c ∧
    patient.load? c.data.version ≠ some c ∧ ¬ HeldByAll [hasty, patient] c ∧
      HeldByAll [hasty, patient] Application.thirdAttempt := by
  obtain ⟨c, hc⟩ : ∃ c, common? [hasty, patient] = some c := ⟨_, rfl⟩
  have hv : c.data.version = Counter.ofNat 4 := by
    cases hc
    rfl
  have hfirst : hasty.load? c.data.version = some c := by
    rw [hv]
    exact hc
  have hne : patient.load? c.data.version ≠ some c := by
    rw [← hfirst, hv]
    exact load?_hasty_ne_patient.symm
  refine ⟨c, hc, hne, fun h => hne (h patient (by simp)), fun s hs => ?_⟩
  rcases List.mem_pair.1 hs with rfl | rfl <;> rfl

end Quorum.CheckpointStore
