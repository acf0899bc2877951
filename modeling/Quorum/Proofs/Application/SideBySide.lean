import Quorum.Proofs.Application.Run

/-!
# Two applications side by side

What two applications have in common that agree in everything but the votes of their rounds, and
whose rounds come to the same verdicts.

* `Matching F B` : relations between rounds, for the current rounds and for those in the background,
  that no block can tell apart by what counts;
* `Alike F B` : applications that agree in everything but their history and their rounds, and whose
  rounds are related;
* `Ending.alike` : the verdicts of the two rounds decide everything else about the end of a block,
  so with the same verdicts two such applications stay alike;
* `Alike.processBlock` : so they return the same outcome;
* `Application.outcomes` : what became of every block of a run.
-/

namespace Quorum.Application

/-! ## Related rounds -/

/-- Relations between rounds that count the same submissions, for the current rounds and for those
in the background. -/
structure Matching (F B : Round → Round → Prop) : Prop where
  refl : ∀ r, F r r
  kind : ∀ {r r'}, F r r' → r'.kind = r.kind
  takes : ∀ {r r'}, F r r' → r'.takes = r.takes
  refl_background : ∀ r, B r r
  takes_background : ∀ {r r'}, B r r' → r'.takes = r.takes
  participants : ∀ {r r'}, B r r' → r'.participants = r.participants

/-- The applications agree in everything but their history and their rounds, and the rounds are
related. -/
structure Alike (F B : Round → Round → Prop) (x y : Application) : Prop where
  params : y.params = x.params
  table : y.table = x.table
  previous : y.previous = x.previous
  data : y.data = x.data
  roundCount : y.roundCount = x.roundCount
  height : y.height = x.height
  current : F x.current y.current
  background : Option.Rel B x.background y.background

variable {F B : Round → Round → Prop} {x x' y y' : Application} {b c : Block}
  {v o : Option (Snapshot × Event)} {t u : Option Transition}

/-- Background rounds are kept together or replaced by the same one. -/
theorem Matching.kept (hm : Matching F B) {r r' : Round} (h : B r r') (peers : PeerSet)
    (roundCount : RoundCount) (height : Height) :
    B (Round.kept (some r) peers roundCount height)
      (Round.kept (some r') peers roundCount height) := by
  have hp := hm.participants h
  by_cases hr : r.participants = peers
  · rwa [Round.kept_of_asks hr, Round.kept_of_asks (hp.trans hr)]
  · rw [Round.kept_of_others fun s hs => by cases hs; exact hr,
      Round.kept_of_others fun s hs => by cases hs; exact hp ▸ hr]
    exact hm.refl_background _

theorem Alike.isFinished (hm : Matching F B) (h : Alike F B x y) : y.isFinished = x.isFinished :=
  congrArg RoundKind.isTerminal (hm.kind h.current)

/-- The same submissions count. -/
theorem Alike.admits (hm : Matching F B) (h : Alike F B x y) (hx : x.Apart) (hy : y.Apart) :
    y.admits = x.admits := by
  funext s
  have hb := h.background
  rw [admits_eq hx, admits_eq hy, hm.takes h.current]
  generalize x.background = p at hb ⊢
  generalize y.background = q at hb ⊢
  cases hb with
  | none => rfl
  | some hb => rw [Option.any_some, Option.any_some, hm.takes_background hb]

theorem Alike.received (h : Alike F B x y) (hc : c.height = b.height)
    (hcurrent : F x.current y.current →
      F (x.current.collectAll b.submissions) (y.current.collectAll c.submissions))
    (hbackground : ∀ {r r'}, x.background = some r → B r r' →
      B (r.collectAll b.submissions) (r'.collectAll c.submissions)) :
    Alike F B (x.received b) (y.received c) where
  params := h.params
  table := h.table
  previous := h.previous
  data := h.data
  roundCount := h.roundCount
  height := hc
  current := hcurrent h.current
  background := by
    have hb := h.background
    unfold Application.received Application.collectAll
    generalize x.background = p at hb hbackground ⊢
    generalize y.background = q at hb ⊢
    cases hb with
    | none => exact .none
    | some hb => exact .some (hbackground rfl hb)

/-! ## The same verdicts -/

/-- The same verdict leads to the same next round. -/
theorem Succeeds.unique {r r' next next' : Round} {data : Snapshot} {event : Event}
    {roundCount roundCount' : RoundCount} {target target' : RoundKind}
    (hs : x.Succeeds b r data event roundCount target next)
    (hs' : y.Succeeds c r' data event roundCount' target' next') (h : Alike F B x y)
    (hc : c.height = b.height) (hk : r'.kind = r.kind) :
    roundCount' = roundCount ∧ target' = target ∧ next' = next := by
  have hcounts := hs'.counts
  rw [h.roundCount, hs.counts] at hcounts
  obtain rfl := Option.some.inj hcounts
  have hfollows := hs'.follows
  rw [h.table, hk, hs.follows] at hfollows
  obtain rfl := Except.ok.inj hfollows
  have hstarts := hs'.starts
  rw [h.params, hc, hs.starts] at hstarts
  exact ⟨rfl, rfl, (Except.ok.inj hstarts).symm⟩

/-- **The verdicts of the rounds decide everything else about the end of a block.** -/
theorem Ending.alike (hm : Matching F B) (h : Alike F B x y)
    (hr : Alike F B (x.received b) (y.received c)) (hx : x.Coherent) (hy : y.Coherent)
    (he : Ending x b v o x' t) (he' : Ending y c v o y' u) : u = t ∧ Alike F B x' y' := by
  have hc : c.height = b.height := hr.height
  have hk := hm.kind h.current
  -- the verdicts choose the case, so both blocks end in the same one
  cases he with
  | waits =>
    cases he'
    exact ⟨rfl, hr⟩
  | preempts hbg hs =>
    cases he' with
    | preempts hbg' hs' =>
      have hkind := (hx.background_watches hbg).1.kind
      have hkind' := (hy.background_watches hbg').1.kind
      obtain ⟨rfl, rfl, rfl⟩ := hs.unique hs' h hc (hkind'.trans hkind.symm)
      rw [hkind, hkind']
      exact ⟨rfl, { hr with
        previous := congrArg some (hm.kind hr.current)
        data := rfl
        roundCount := rfl
        current := hm.refl _
        background := .none }⟩
  | moves hbg hs =>
    cases he' with
    | moves hbg' hs' =>
      obtain ⟨rfl, rfl, rfl⟩ := hs.unique hs' h hc hk
      have hb := hr.background
      rw [received_background hbg, received_background hbg'] at hb
      rw [hk]
      refine ⟨rfl, { hr with
        previous := congrArg some (hm.kind hr.current)
        data := rfl
        roundCount := rfl
        current := hm.refl _
        background := .some ?_ }⟩
      rw [h.params, hc]
      exact hm.kept (Option.rel_some_some.1 hb) _ _ _

theorem Ending.history_eq (he : Ending x b v o x' t) :
    x'.history = t.elim x.history fun _ => x.history.push x'.data := by
  cases he <;> rfl

/-- **With the same verdicts the outcomes are the same.** -/
theorem Alike.processBlock (hm : Matching F B) (h : Alike F B x y)
    (hr : Alike F B (x.received b) (y.received c)) (hx : x.Coherent) (hy : y.Coherent)
    (hb : b.height.toNat = x.height.toNat + 1) (hp : b.submissions.Perm c.submissions)
    (hcurrent : y.verdict c y.current = x.verdict b x.current)
    (hbackground : ∀ r r', x.background = some r → y.background = some r' →
      y.verdict c r' = x.verdict b r) :
    (y.processBlock c).2 = (x.processBlock b).2 ∧
      Alike F B (x.processBlock b).1 (y.processBlock c).1 ∧
      (y.history = x.history → (y.processBlock c).1.history = (x.processBlock b).1.history) := by
  have hc : c.height = b.height := hr.height
  have hb' : c.height.toNat = y.height.toNat + 1 := by rw [hc, h.height, hb]
  have hfin := h.isFinished hm
  cases hf : x.isFinished with
  | true =>
    rw [hf] at hfin
    rw [processBlock_of_finished hf hb, processBlock_of_finished hfin hb', hc]
    exact ⟨rfl, { h with height := rfl }, id⟩
  | false =>
    rw [hf] at hfin
    obtain ⟨r, hbg, -⟩ := hx.running hf
    obtain ⟨r', hbg', -⟩ := hy.running hfin
    obtain ⟨v, o, x', t, hv, ho, hend, he⟩ := hx.ending hbg hb
    obtain ⟨v', o', y', u, hv', ho', hend', he'⟩ := hy.ending hbg' hb'
    rw [hbackground r r' hbg hbg', hv] at hv'
    rw [hcurrent, ho] at ho'
    obtain rfl := Except.ok.inj hv'
    obtain rfl := Except.ok.inj ho'
    obtain ⟨rfl, halike⟩ := he.alike hm h hr hx hy he'
    rw [processBlock_of_running hx.apart hf hb, processBlock_of_running hy.apart hfin hb',
      hend, hend', h.admits hm hx.apart hy.apart, hc, hp.countP_eq, hp.countP_eq]
    refine ⟨rfl, halike, fun hh => ?_⟩
    show y'.history = x'.history
    rw [he'.history_eq, he.history_eq, hh, halike.data]

/-! ## Runs -/

/-- What became of every block of a run. -/
def outcomes (a : Application) : List Block → List (Except FatalError BlockOutcome)
  | [] => []
  | b :: bs => (a.processBlock b).2 :: (a.processBlock b).1.outcomes bs

theorem outcomes_concat (a : Application) (bs : List Block) (b : Block) :
    a.outcomes (bs ++ [b]) = a.outcomes bs ++ [((a.afterBlocks bs).processBlock b).2] := by
  induction bs generalizing a with
  | nil => rfl
  | cons c bs ih => exact congrArg _ (ih _)

/-- Why a block that is not the next one is refused. -/
def refusal (height : Height) (b : Block) : FatalError :=
  height.next?.elim .outOfNumbers fun expected => .blockOutOfOrder expected b.height

/-- A block that is not the next one changes nothing. -/
theorem processBlock_of_refused (hb : b.height.toNat ≠ x.height.toNat + 1) :
    x.processBlock b = (x, .error (refusal x.height b)) := by
  unfold Application.processBlock refusal
  cases hn : x.height.next? with
  | none => rfl
  | some expected =>
    have hne : b.height ≠ expected := fun he => hb (he ▸ Counter.next?_eq_some.1 hn)
    exact if_pos hne

/-- Whatever the next block is, the application stays coherent. -/
theorem Coherent.next (h : x.Coherent) (b : Block) : (x.processBlock b).1.Coherent := by
  by_cases hb : b.height.toNat = x.height.toNat + 1
  · obtain ⟨x', o, hproc, hs, -⟩ := h.processBlock hb
    rw [hproc]
    exact hs.coherent h hb
  · rw [processBlock_of_refused hb]
    exact h

theorem Coherent.height_next (h : x.Coherent) (hb : b.height.toNat = x.height.toNat + 1) :
    (x.processBlock b).1.height = b.height := by
  obtain ⟨x', o, hproc, hs, -⟩ := h.processBlock hb
  rw [hproc, hs.height_eq]

/-- Blocks in order all have an outcome. -/
theorem Coherent.exists_outcomes (h : x.Coherent) {bs : List Block}
    (hin : InOrder x.height.toNat bs) :
    ∃ os : List BlockOutcome, x.outcomes bs = os.map .ok := by
  induction bs generalizing x with
  | nil => exact ⟨[], rfl⟩
  | cons b bs ih =>
    obtain ⟨hb, hin⟩ := hin
    obtain ⟨_, o, hproc, -⟩ := h.processBlock hb
    obtain ⟨os, hos⟩ := ih (h.next b) (by rwa [h.height_next hb, hb])
    refine ⟨o :: os, ?_⟩
    rw [outcomes, hos, hproc, List.map_cons]

end Quorum.Application
