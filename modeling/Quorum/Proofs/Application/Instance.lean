import Quorum.Proofs.Application.Advance
import Quorum.Proofs.Application.Rejection
import Quorum.Proofs.Application.SideBySide
import Quorum.Proofs.Application.Supply

/-!
# Instances of rounds along a run

Blocks here come in any order and may hold anything: one that is not the next one is refused.

* `Application.transitionAt` : the transition that a block leads to, if it leads to one;
* `Coherent.advances` : every block leaves the instance of the current round as it is, or moves on
  from it;
* `Coherent.sameInstance` : the round count tells the instances apart;
* `Application.StartedBy`, `Coherent.startedBy` : the block of a run that started the last instance;
* `foreground_votes_count_once` : a vote in the foreground counts in one instance at most.
-/

namespace Quorum

theorem Submission.open_congr {s s' : Submission} {p p' : Payload} (h : s'.payload = s.payload)
    (hs : s.open = .ok p) (hs' : s'.open = .ok p') : p' = p := by
  unfold Submission.open at hs hs'
  rw [h] at hs'
  cases hd : Wire.decodeWhole Payload s.payload with
  | error e =>
    simp only [hd] at hs
    cases hs
  | ok q =>
    simp only [hd] at hs hs'
    split_ifs at hs hs'
    exact (Except.ok.inj hs').symm.trans (Except.ok.inj hs)

namespace Application

/-- The transition that a block leads to, if there is one. -/
def transitionAt (x : Application) (b : Block) : Option Transition :=
  (x.processBlock b).2.toOption.bind BlockOutcome.transition

/-- One of the blocks of a run has started the instance of a round in which the run ends. -/
structure StartedBy (a : Application) (bs pre : List Block) (b : Block) (t : Transition) : Prop where
  run : pre ++ [b] <+: bs
  transition : (a.afterBlocks pre).transitionAt b = some t
  since : SameInstance (a.afterBlocks (pre ++ [b])) (a.afterBlocks bs)

variable {a x y : Application} {b : Block} {bs pre post : List Block} {s s' : Submission}
  {p : Payload} {t : Transition}

theorem transitionAt_of_ok {o : BlockOutcome} (h : x.processBlock b = (y, .ok o)) :
    x.transitionAt b = o.transition := by
  unfold transitionAt
  rw [h]
  rfl

/-! ## One block -/

/-- Every block leaves the instance as it is, or moves on from it. -/
theorem Coherent.advances (h : x.Coherent) (b : Block) :
    Advance x (x.processBlock b).1 (x.transitionAt b) := by
  by_cases hb : b.height.toNat = x.height.toNat + 1
  · obtain ⟨y, o, hproc, -⟩ := h.processBlock hb
    rw [transitionAt_of_ok hproc, hproc]
    exact (processBlock_advances hproc).1
  · unfold transitionAt
    rw [processBlock_of_refused hb]
    exact .stays (.refl x)

/-- Only the next block leads to a transition. -/
theorem height_of_transitionAt (h : x.transitionAt b = some t) :
    b.height.toNat = x.height.toNat + 1 := by
  by_contra hb
  unfold transitionAt at h
  rw [processBlock_of_refused hb] at h
  cases h

theorem Advance.roundCount {o : Option Transition} (h : Advance x y o) :
    y.roundCount.toNat = x.roundCount.toNat + o.toList.length := by
  cases h with
  | stays same => exact congrArg Counter.toNat same.roundCount
  | moves hm => exact hm.roundCount ▸ Counter.next?_eq_some.1 hm.counts

/-! ## Runs -/

/-- Whatever the blocks are, the application stays coherent. -/
theorem Coherent.after (h : a.Coherent) (bs : List Block) : (a.afterBlocks bs).Coherent := by
  induction bs using List.reverseRecOn with
  | nil => exact h
  | append_singleton bs b ih =>
    rw [afterBlocks_concat]
    exact ih.next b

theorem Coherent.current_roundCount (h : a.Coherent) : a.current.roundCount = a.roundCount := by
  obtain ⟨keeper, -, hf⟩ := h.exists_fresh
  exact congrArg Round.roundCount hf

theorem Coherent.roundCount_concat (h : a.Coherent) (bs : List Block) (b : Block) :
    (a.afterBlocks (bs ++ [b])).roundCount.toNat =
      (a.afterBlocks bs).roundCount.toNat + ((a.afterBlocks bs).transitionAt b).toList.length := by
  rw [afterBlocks_concat]
  exact ((h.after bs).advances b).roundCount

/-- A run stays in its first instance, or its round count has grown. -/
theorem Coherent.sameInstance_or_lt (h : a.Coherent) (bs : List Block) :
    SameInstance a (a.afterBlocks bs) ∨ a.roundCount.toNat < (a.afterBlocks bs).roundCount.toNat := by
  induction bs using List.reverseRecOn with
  | nil => exact .inl (.refl a)
  | append_singleton bs b ih =>
    have hcount := h.roundCount_concat bs b
    have hadvance := (h.after bs).advances b
    rw [← afterBlocks_concat] at hadvance
    generalize (a.afterBlocks bs).transitionAt b = o at hadvance hcount
    rcases ih with hsame | hlt
    · cases hadvance with
      | stays same => exact .inl (hsame.trans same)
      | moves hm =>
        have := congrArg Counter.toNat hsame.roundCount
        simp only [Option.toList_some, List.length_singleton] at hcount
        exact .inr (by omega)
    · exact .inr (by omega)

/-- **The round count tells the instances of rounds apart.** -/
theorem Coherent.sameInstance (h : a.Coherent) (hpre : pre <+: bs)
    (hcount : (a.afterBlocks pre).roundCount = (a.afterBlocks bs).roundCount) :
    SameInstance (a.afterBlocks pre) (a.afterBlocks bs) := by
  obtain ⟨post, rfl⟩ := hpre
  rw [afterBlocks_append] at *
  rcases (h.after pre).sameInstance_or_lt post with hsame | hlt
  · exact hsame
  · rw [hcount] at hlt
    omega

/-- A run that has left its first instance is in one that a block has started. -/
theorem Coherent.startedBy (h : a.Coherent) (bs : List Block) :
    SameInstance a (a.afterBlocks bs) ∨ ∃ pre b t, StartedBy a bs pre b t := by
  induction bs using List.reverseRecOn with
  | nil => exact .inl (.refl a)
  | append_singleton bs b ih =>
    cases ht : (a.afterBlocks bs).transitionAt b with
    | some t => exact .inr ⟨bs, b, t, List.prefix_refl _, ht, .refl _⟩
    | none =>
      have hadvance := (h.after bs).advances b
      rw [ht, ← afterBlocks_concat] at hadvance
      cases hadvance with
      | stays same =>
        rcases ih with hsame | ⟨pre, c, t, hst⟩
        · exact .inl (hsame.trans same)
        · exact .inr ⟨pre, c, t, hst.run.trans (List.prefix_append bs [b]), hst.transition,
            hst.since.trans same⟩

/-- The block that has started an instance has moved on from the one before. -/
theorem StartedBy.moves (hs : StartedBy a bs pre b t) (h : a.Coherent) :
    Moves (a.afterBlocks pre) (a.afterBlocks (pre ++ [b])) t := by
  have hadvance := (h.after pre).advances b
  rw [hs.transition, ← afterBlocks_concat] at hadvance
  cases hadvance with
  | moves hm => exact hm

/-! ## Votes -/

/-- A submission counts in a run: the next block after some blocks of the run is applied, and the
submission counts where it stands in it. -/
def CountsAfter (a : Application) (bs pre : List Block) (s : Submission) : Prop :=
  ∃ b, pre ++ [b] <+: bs ∧ (∃ o, ((a.afterBlocks pre).processBlock b).2 = .ok o) ∧
    s ∈ (a.afterBlocks pre).counted b.submissions

theorem Coherent.admits_of_counted (h : x.Coherent) {subs : List Submission}
    (hc : s ∈ x.counted subs) : x.admits s = true := by
  rw [counted_eq_filter h.apart] at hc
  exact (List.mem_filter.1 hc).2

theorem opens_of_admits (h : x.admits s = true) : ∃ p, s.open = .ok p := by
  unfold admits route at h
  cases ho : s.open with
  | ok p => exact ⟨p, rfl⟩
  | error e =>
    rw [ho] at h
    cases h

/-- A submission that counts and does not ask to end the service is a vote of the current round. -/
theorem Coherent.takes_of_counted (h : x.Coherent) {subs : List Submission}
    (hc : s ∈ x.counted subs) (hs : s.open = .ok p) (hp : p.kind ≠ .termination) :
    x.current.takes s = true ∧ p.roundCount = x.roundCount := by
  have hadmits := h.admits_of_counted hc
  rw [admits_eq h.apart, Bool.or_eq_true, Option.any_eq_true] at hadmits
  have htakes : x.current.takes s = true := by
    rcases hadmits with htakes | ⟨bg, hbg, htakes⟩
    · exact htakes
    -- the background round takes votes to end the service only
    obtain ⟨q, hq, -, -, hexpects⟩ := Round.takes_iff.1 htakes
    cases hs.symm.trans hq
    have hvotes := hexpects.1
    rw [(h.background_watches hbg).1.kind] at hvotes
    exact absurd (Option.some.inj hvotes).symm hp
  refine ⟨htakes, ?_⟩
  obtain ⟨q, hq, -, -, -, hcount⟩ := Round.takes_iff.1 htakes
  cases hs.symm.trans hq
  rw [h.current_anyRoundCount, h.current_roundCount] at hcount
  exact hcount.resolve_left Bool.false_ne_true

/-- **A vote in the foreground counts in one instance of a round at most.** Along every run from the
start, of any blocks, the current round and the application have the same round count, which grows
by one with each transition. A submission that counts, and does not ask to end the service, is a
vote of the current round and of its round count; so when the same bytes count twice in a run, they
do so in the same instance. -/
theorem foreground_votes_count_once {params : AppParams} (hstart : start params = .ok a)
    (bs : List Block) :
    (a.afterBlocks bs).current.roundCount = (a.afterBlocks bs).roundCount ∧
      (∀ b, (a.afterBlocks (bs ++ [b])).roundCount.toNat =
        (a.afterBlocks bs).roundCount.toNat + ((a.afterBlocks bs).transitionAt b).toList.length) ∧
      (∀ pre s p, a.CountsAfter bs pre s → s.open = .ok p → p.kind ≠ .termination →
        (a.afterBlocks pre).current.takes s = true ∧
          p.roundCount = (a.afterBlocks pre).roundCount) ∧
      ∀ pre pre' s s' p, a.CountsAfter bs pre s → a.CountsAfter bs pre' s' →
        s'.payload = s.payload → s.open = .ok p → p.kind ≠ .termination →
          SameInstance (a.afterBlocks pre) (a.afterBlocks pre') := by
  obtain ⟨⟨hne, hle⟩, rfl⟩ := start_eq_ok_iff.1 hstart
  have h := coherent_initial hne hle
  have hcounts : ∀ pre s p, (initial params).CountsAfter bs pre s → s.open = .ok p →
      p.kind ≠ .termination → ((initial params).afterBlocks pre).current.takes s = true ∧
        p.roundCount = ((initial params).afterBlocks pre).roundCount := by
    rintro pre s p ⟨b, -, -, hc⟩ hs hp
    exact (h.after pre).takes_of_counted hc hs hp
  refine ⟨(h.after bs).current_roundCount, h.roundCount_concat bs, hcounts, ?_⟩
  intro pre pre' s s' p hc hc' hbytes hs hp
  obtain ⟨p', hs'⟩ : ∃ p', s'.open = .ok p' := by
    obtain ⟨b, -, -, hmem⟩ := hc'
    exact opens_of_admits ((h.after pre').admits_of_counted hmem)
  have hp' := Submission.open_congr hbytes hs hs'
  have hcount := (hcounts pre s p hc hs hp).2
  have hcount' := (hcounts pre' s' p' hc' hs' (hp' ▸ hp)).2
  have heq : ((initial params).afterBlocks pre).roundCount =
      ((initial params).afterBlocks pre').roundCount := by rw [← hcount, ← hcount', hp']
  obtain ⟨b, hpre, -⟩ := hc
  obtain ⟨b', hpre', -⟩ := hc'
  have hle := (List.prefix_append pre [b]).trans hpre
  have hle' := (List.prefix_append pre' [b']).trans hpre'
  rcases List.prefix_or_prefix_of_prefix hle hle' with hlt | hlt
  · exact h.sameInstance hlt heq
  · exact (h.sameInstance hlt heq.symm).symm

/-- The second block holds the registration once more. -/
def replayBlock : Block := ⟨Counter.ofNat 2, soloBlock.hash, [firstRegistration]⟩

/-- The registration of the only peer counts in the first block, and not when it is replayed. -/
theorem foreground_votes_count_once_of_one :
    (initial soloParams).CountsAfter [soloBlock, replayBlock] [] firstRegistration ∧
      ¬ (initial soloParams).CountsAfter [soloBlock, replayBlock] [soloBlock] firstRegistration := by
  obtain ⟨-, -, hcounts, -⟩ := foreground_votes_count_once start_solo [soloBlock, replayBlock]
  constructor
  · have h := coherent_initial_solo
    obtain ⟨y, o, hproc, -⟩ := h.processBlock (b := soloBlock) rfl
    refine ⟨soloBlock, ⟨[replayBlock], rfl⟩, ⟨o, congrArg Prod.snd hproc⟩, ?_⟩
    have htakes : (initial soloParams).current.takes firstRegistration = true :=
      Round.takes_iff.2 ⟨_, opened_pair.1, rfl, by decide, rfl, .inr rfl⟩
    have hadmits : (initial soloParams).admits firstRegistration = true := by
      rw [admits_eq h.apart, htakes, Bool.true_or]
    show firstRegistration ∈ (initial soloParams).counted [firstRegistration]
    rw [counted_eq_filter h.apart, List.filter_cons_of_pos hadmits]
    exact List.mem_cons_self
  · intro hc
    have hcount := (hcounts [soloBlock] firstRegistration _ hc opened_pair.1 (by decide)).2
    rw [afterBlocks_soloBlock] at hcount
    exact absurd hcount (by decide +kernel)

end Application

end Quorum
