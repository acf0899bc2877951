import Quorum.Proofs.Application.Resumption
import Quorum.Proofs.Application.Solo

/-!
# Write sets and preemption

* `Application.Reachable` : the states that a service comes to, also by resuming from a checkpoint of
  its own; all of them are coherent (`Reachable.coherent`);
* `Application.Preempts` : all that a transition of the background round shows;
* `Coherent.preempted`, `Coherent.not_preempted` : a block carries out the verdict of the background
  round, or else that of the current round;
* `transitions_attributed` : so every transition writes keys of the round that it is attributed to,
  and one of the background round hides whatever the current round has come to.
-/

namespace Quorum.Application

/-- The states that a service comes to: it starts, it is given blocks, and it resumes from a
checkpoint of its own. -/
inductive Reachable (params : AppParams) : Application → Prop
  | started {x : Application} (h : start params = .ok x) : Reachable params x
  | given {x : Application} (h : Reachable params x) (b : Block) :
    Reachable params (x.processBlock b).1
  | resumed {x y : Application} (h : Reachable params x)
    (hy : restore params x.checkpoint = .ok y) : Reachable params y

/-- The transition carries out a verdict of the background round, and nothing else. -/
structure Preempts (x : Application) (b : Block) (data : Snapshot) (event : Event)
    (y : Application) (t : Transition) : Prop where
  source : t.source = .termination
  preempted : t.preempted = true
  event : t.event = event
  target : t.target = .terminated
  current : instantiate x.params data .terminated t.roundCount b.height = .ok y.current
  data : y.data = data
  history : y.history = x.history.push y.data

variable {params : AppParams} {x y : Application} {b : Block} {o : BlockOutcome} {t : Transition}

/-! ## States that a service comes to -/

/-- A service that resumes from its own checkpoint is coherent, wherever it was taken. -/
theorem Coherent.of_restore (h : x.Coherent) (hy : restore x.params x.checkpoint = .ok y) :
    y.Coherent ∧ y.params = x.params := by
  obtain ⟨keeper, -, hsome, hi⟩ := exists_instantiate (k := x.current.kind) h.conforms h.nonempty
    h.bounded h.needs x.roundCount x.height
  have hr := restoreWith_eq (c := x.checkpoint) h.table h.conforms h.nonempty h.bounded hi rfl
  unfold restore at hy
  rw [h.table] at hy
  cases hr.symm.trans hy
  obtain ⟨hane, hale⟩ := h.asked_bounds x.current.kind x.data
  have hfresh : (Round.fresh x.current.kind x.roundCount
      (x.current.kind.asked x.data x.params.participants) keeper x.height false).WellFormed :=
    Round.wellFormed_fresh hane hale hsome
  exact ⟨{ h with
    wellFormed := hfresh
    collecting := rfl
    instantiated := hi
    startHeight_le := Nat.le_refl _
    running := fun hf => by
      obtain ⟨hne, hle⟩ := h.asked_bounds .termination x.data
      exact ⟨_, if_neg (Bool.eq_false_iff.1 hf), Round.watches_watch hne hle _ _, Nat.le_refl _⟩
    ended := fun hf => if_pos hf }, rfl⟩

theorem Reachable.coherent (h : Reachable params x) : x.Coherent ∧ x.params = params := by
  induction h with
  | started h =>
    obtain ⟨⟨hne, hle⟩, rfl⟩ := start_eq_ok_iff.1 h
    exact ⟨coherent_initial hne hle, rfl⟩
  | @given x _ b ih =>
    refine ⟨ih.1.next b, ?_⟩
    by_cases hb : b.height.toNat = x.height.toNat + 1
    · obtain ⟨y, o, hproc, hs, -⟩ := ih.1.processBlock hb
      rw [hproc]
      exact hs.params_eq.trans ih.2
    · rw [processBlock_of_refused hb]
      exact ih.2
  | resumed _ hy ih =>
    obtain ⟨hcoh, hparams⟩ := ih
    rw [← hparams] at hy
    obtain ⟨hcoh', hparams'⟩ := hcoh.of_restore hy
    exact ⟨hcoh', hparams'.trans hparams⟩

/-! ## The two rounds at the end of a block -/

theorem Coherent.isFinished_of_background (h : x.Coherent) {bg : Round}
    (hbg : x.background = some bg) : x.isFinished = false := by
  refine Bool.eq_false_iff.2 fun hf => ?_
  rw [h.ended hf] at hbg
  cases hbg

theorem Coherent.verdict_of_backgroundEnds (h : x.Coherent)
    (hb : b.height.toNat = x.height.toNat + 1) (hends : x.BackgroundEnds b) :
    ∃ bg data event, x.background = some bg ∧ x.verdict b bg = .ok (some (data, event)) := by
  cases hbg : x.background with
  | none => exact absurd hends (not_backgroundEnds h.apart hbg)
  | some bg =>
    obtain ⟨v, -, -, -, hv, -⟩ := h.ending hbg hb
    obtain ⟨⟨data, event⟩, rfl⟩ :=
      Option.isSome_iff_exists.1 ((backgroundEnds_iff h.apart hbg hv).1 hends)
    exact ⟨bg, data, event, rfl, hv⟩

/-- **A verdict of the background round is carried out.** -/
theorem Coherent.preempted (h : x.Coherent) (hb : b.height.toNat = x.height.toNat + 1) {bg : Round}
    {data : Snapshot} {event : Event} (hbg : x.background = some bg)
    (hv : x.verdict b bg = .ok (some (data, event))) (hproc : x.processBlock b = (y, .ok o)) :
    ∃ t, o.transition = some t ∧ Preempts x b data event y t := by
  obtain ⟨v, w, y', t, hv', -, hend, hending⟩ := h.ending hbg hb
  cases hv.symm.trans hv'
  rw [processBlock_of_running h.apart (h.isFinished_of_background hbg) hb, hend] at hproc
  cases hproc
  cases hending with
  | preempts hbg' hs =>
    have hkind := (h.background_watches hbg').1.kind
    have hfollows := hs.follows
    rw [hkind] at hfollows
    obtain rfl := RoundKind.target_of_termination h.table hfollows
    exact ⟨_, rfl, hkind, rfl, rfl, rfl, hs.starts, rfl, rfl⟩

/-- Otherwise a transition is the current round's own. -/
theorem Coherent.not_preempted (h : x.Coherent) (hb : b.height.toNat = x.height.toNat + 1)
    (hends : ¬ x.BackgroundEnds b) (hproc : x.processBlock b = (y, .ok o))
    (ht : o.transition = some t) :
    t.source = x.current.kind ∧ t.source ≠ .termination ∧ t.preempted = false := by
  cases hf : x.isFinished with
  | true =>
    cases (processBlock_of_finished hf hb).symm.trans hproc
    cases ht
  | false =>
    obtain ⟨bg, hbg, -⟩ := h.running hf
    obtain ⟨v, w, y', t', hv, -, hend, hending⟩ := h.ending hbg hb
    rw [processBlock_of_running h.apart hf hb, hend] at hproc
    rw [backgroundEnds_iff h.apart hbg hv] at hends
    cases hproc
    cases hending with
    | waits => cases ht
    | preempts => exact absurd rfl hends
    | moves =>
      cases ht
      exact ⟨rfl, h.foreground, rfl⟩

/-- **Transitions write keys of their own round, and the background round comes first.** In every
state that a service comes to the next block is applied. If it leads to a transition, the agreed
data has the next version and differs at most under the keys of the round that the transition is
attributed to, of which none is removed. The transition is the background round's, and says so,
exactly if that round ends at the block; then the agreed data, the event, the next round and the
history follow from the verdict of the background round alone, whatever that of the current round
is. -/
theorem transitions_attributed (h : Reachable params x) (hb : b.height.toNat = x.height.toNat + 1) :
    ∃ y o, x.processBlock b = (y, .ok o) ∧
      (x.BackgroundEnds b ↔ ∃ t, o.transition = some t ∧ t.source = .termination ∧
        t.preempted = true) ∧
      (∀ t, o.transition = some t →
        x.data.Revises y.data (t.source.writes t.event) ∧
          (t.source = .termination ↔ x.BackgroundEnds b) ∧
          (t.preempted = true ↔ x.BackgroundEnds b) ∧
          (¬ x.BackgroundEnds b → t.source = x.current.kind)) ∧
      ∀ bg data event, x.background = some bg → x.verdict b bg = .ok (some (data, event)) →
        ∃ t, o.transition = some t ∧ Preempts x b data event y t := by
  obtain ⟨hcoh, -⟩ := h.coherent
  obtain ⟨y, o, hproc, -⟩ := hcoh.processBlock hb
  have hrevises : ∀ t, o.transition = some t → x.data.Revises y.data (t.source.writes t.event) := by
    intro t ht
    have hadvance := (processBlock_advances hproc).1
    rw [ht] at hadvance
    cases hadvance with
    | moves hm => exact hm.revises
  have hshown : ∀ bg data event, x.background = some bg →
      x.verdict b bg = .ok (some (data, event)) →
        ∃ t, o.transition = some t ∧ Preempts x b data event y t :=
    fun bg data event hbg hv => hcoh.preempted hb hbg hv hproc
  by_cases hends : x.BackgroundEnds b
  · obtain ⟨bg, data, event, hbg, hv⟩ := hcoh.verdict_of_backgroundEnds hb hends
    obtain ⟨t, ht, hp⟩ := hshown bg data event hbg hv
    refine ⟨y, o, hproc, iff_of_true hends ⟨t, ht, hp.source, hp.preempted⟩, fun t' ht' => ?_,
      hshown⟩
    cases ht.symm.trans ht'
    exact ⟨hrevises t ht, iff_of_true hp.source hends, iff_of_true hp.preempted hends,
      absurd hends⟩
  · have hown : ∀ t, o.transition = some t →
        t.source = x.current.kind ∧ t.source ≠ .termination ∧ t.preempted = false :=
      fun t ht => hcoh.not_preempted hb hends hproc ht
    refine ⟨y, o, hproc, iff_of_false hends ?_, fun t ht => ?_, hshown⟩
    · rintro ⟨t, ht, hsource, -⟩
      exact (hown t ht).2.1 hsource
    · obtain ⟨hsource, hne, hpre⟩ := hown t ht
      exact ⟨hrevises t ht, iff_of_false hne hends,
        iff_of_false (Bool.eq_false_iff.1 hpre) hends, fun _ => hsource⟩

/-! ## Two rounds that end at once -/

/-- The only peer registers, and votes to end the service. -/
def bothBlock : Block := Block.first [firstRegistration, firstVote]

/-- The current round has registered every peer. -/
theorem verdict_current_bothBlock : ∃ s e, (initial soloParams).verdict bothBlock
    (initial soloParams).current = .ok (some (s, e)) ∧ s.Has Snapshot.Key.participants := by
  have hcounts : (initial soloParams).current.check ⟨firstPeer, Counter.zero, .registration⟩ =
      .ok () := (alone_initial rfl).check rfl rfl rfl nofun
  have hcollect : (initial soloParams).current.collectAll bothBlock.submissions =
      (initial soloParams).current.count ⟨firstPeer, Counter.zero, .registration⟩ := by
    have haccept : (initial soloParams).current.collect firstRegistration = _ :=
      Round.collect_of_accepted opened_pair.1
        (Round.accept_eq_ok_iff.2 ⟨Round.check_eq_ok_iff.1 hcounts, rfl⟩)
    show (initial soloParams).current.collectAll [firstRegistration, firstVote] = _
    rw [Round.collectAll_cons, haccept, Round.collectAll_singleton]
    exact Round.collect_of_votes open_firstVote (by decide)
  obtain ⟨-, hverdict⟩ := (alone_initial rfl).verdict_current (e := .done) hcounts hcollect rfl
  exact ⟨_, _, hverdict, _, rfl⟩

/-- The background round has agreed to end the service. -/
theorem backgroundEnds_bothBlock : (initial soloParams).BackgroundEnds bothBlock := by
  have h := coherent_initial_solo
  obtain ⟨v, -, -, -, hv, -⟩ := h.ending (b := bothBlock) rfl rfl
  refine (backgroundEnds_iff h.apart rfl hv).2 (Option.isSome_iff_ne_none.2 ?_)
  rintro rfl
  -- the registration is not for the background round, so the vote is all that it sees
  have hdrop : (Round.watch soloParams.participants Counter.zero Counter.zero).collect
      firstRegistration = _ := Round.collect_of_votes opened_pair.1 (by decide)
  refine not_undecided_solo fun bg hbg fp => ?_
  have hlt := h.undecided rfl hv bg hbg fp
  cases hbg
  rw [show bothBlock.submissions = [firstRegistration, firstVote] from rfl, Round.collectAll_cons,
    hdrop] at hlt
  exact hlt

/-- Both rounds end at the first block, and the registration leaves no trace. -/
theorem transitions_attributed_of_one : ∃ y o t,
    (∃ s e, (initial soloParams).verdict bothBlock (initial soloParams).current =
        .ok (some (s, e)) ∧ s.Has Snapshot.Key.participants) ∧
      (initial soloParams).processBlock bothBlock = (y, .ok o) ∧ o.transition = some t ∧
      t.source = .termination ∧ t.preempted = true ∧
      y.data.db.get? Snapshot.Key.participants = none := by
  obtain ⟨y, o, hproc, hends, hall, -⟩ :=
    transitions_attributed (b := bothBlock) (.started start_solo) rfl
  obtain ⟨t, ht, hsource, hpre⟩ := hends.1 backgroundEnds_bothBlock
  have hframe := (hall t ht).1.frame Snapshot.Key.participants
  rw [hsource] at hframe
  exact ⟨y, o, t, verdict_current_bothBlock, hproc, ht, hsource, hpre,
    hframe (by cases t.event <;> decide)⟩

end Quorum.Application
