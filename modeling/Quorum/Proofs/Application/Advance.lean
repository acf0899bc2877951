import Quorum.Proofs.Application.Step
import Quorum.Proofs.Round.Writes

/-!
# What a block does to any application

Nothing is assumed here of the application, of its table or of the agreed data: a block that is
applied without an error has one of two effects.

* `Round.origin` : a round as it was started, which tells instances of rounds apart;
* `Application.SameInstance` : the same instance of a round, the same agreed data and history;
* `Application.Moves` : everything that a transition does;
* `Advance`, `processBlock_advances` : a block leaves the instance as it is, or moves on from it.
-/

namespace Quorum

/-- The round as it was started. -/
def Round.origin (r : Round) : Round :=
  { r with payloads := SortedMap.empty, seen := [], concluded := false }

theorem Round.origin_of_accept {r r' : Round} {p : Payload} (h : r.accept p = .ok r') :
    r'.origin = r.origin := by
  obtain ⟨-, rfl⟩ := accept_eq_ok_iff.1 h
  rfl

namespace Application

/-- The applications are in the same instance of a round, and the agreed data is the same. -/
structure SameInstance (x y : Application) : Prop where
  params : y.params = x.params
  table : y.table = x.table
  current : y.current.origin = x.current.origin
  previous : y.previous = x.previous
  data : y.data = x.data
  history : y.history = x.history
  roundCount : y.roundCount = x.roundCount

/-- A round of the first application has ended with a transition, and the second one is in the next
instance. -/
structure Moves (x y : Application) (t : Transition) : Prop where
  source : t.preempted = false → t.source = x.current.kind
  follows : x.table.target t.source t.event = .ok t.target
  revises : x.data.Revises y.data (t.source.writes t.event)
  counts : x.roundCount.next? = some t.roundCount
  starts : instantiate x.params y.data t.target t.roundCount y.height = .ok y.current
  params : y.params = x.params
  table : y.table = x.table
  previous : y.previous = some x.current.kind
  history : y.history = x.history.push y.data
  version : t.version = y.data.version
  roundCount : t.roundCount = y.roundCount

/-- What a block does to the instance of a round and to the agreed data. -/
inductive Advance (x y : Application) : Option Transition → Prop
  | stays (same : SameInstance x y) : Advance x y none
  | moves {t : Transition} (moves : Moves x y t) : Advance x y (some t)

variable {a a' x y z : Application} {b : Block} {t : Transition} {height : Height}

theorem SameInstance.refl (x : Application) : SameInstance x x := ⟨rfl, rfl, rfl, rfl, rfl, rfl, rfl⟩

theorem sameInstance_background (x : Application) (bg : Option Round) :
    SameInstance x { x with background := bg } := ⟨rfl, rfl, rfl, rfl, rfl, rfl, rfl⟩

theorem SameInstance.trans (h : SameInstance x y) (h' : SameInstance y z) : SameInstance x z where
  params := h'.params.trans h.params
  table := h'.table.trans h.table
  current := h'.current.trans h.current
  previous := h'.previous.trans h.previous
  data := h'.data.trans h.data
  history := h'.history.trans h.history
  roundCount := h'.roundCount.trans h.roundCount

theorem SameInstance.symm (h : SameInstance x y) : SameInstance y x where
  params := h.params.symm
  table := h.table.symm
  current := h.current.symm
  previous := h.previous.symm
  data := h.data.symm
  history := h.history.symm
  roundCount := h.roundCount.symm

theorem SameInstance.kind (h : SameInstance x y) : y.current.kind = x.current.kind :=
  (congrArg Round.kind h.current :)

/-- What moves on from an instance moves on from every application in it. -/
theorem SameInstance.moves (h : SameInstance x y) (hm : Moves y z t) : Moves x z t where
  source ht := (hm.source ht).trans h.kind
  follows := h.table ▸ hm.follows
  revises := h.data ▸ hm.revises
  counts := h.roundCount ▸ hm.counts
  starts := h.params ▸ hm.starts
  params := hm.params.trans h.params
  table := hm.table.trans h.table
  previous := hm.previous.trans (congrArg some h.kind)
  history := h.history ▸ hm.history
  version := hm.version
  roundCount := hm.roundCount

theorem SameInstance.advance {o : Option Transition} (h : SameInstance x y) (ha : Advance y z o) :
    Advance x z o := by
  cases ha with
  | stays same => exact .stays (h.trans same)
  | moves hm => exact .moves (h.moves hm)

/-! ## Routing -/

/-- A payload that counts changes the votes of a round, and nothing else. -/
theorem sameInstance_of_route {s : Submission} (h : a.route s = .ok a') :
    SameInstance a a' ∧ a'.height = a.height := by
  unfold route at h
  cases hs : s.open with
  | error e =>
    rw [hs] at h
    cases h
  | ok p =>
    simp only [hs] at h
    unfold routePayload at h
    split at h
    · rename_i bg _
      cases hb : bg.accept p with
      | error e =>
        rw [hb] at h
        cases h
      | ok r =>
        rw [hb] at h
        cases h
        exact ⟨sameInstance_background a _, rfl⟩
    · cases hc : a.current.accept p with
      | error e =>
        rw [hc] at h
        cases h
      | ok r =>
        rw [hc] at h
        cases h
        exact ⟨{ SameInstance.refl a with current := Round.origin_of_accept hc }, rfl⟩

theorem sameInstance_routeAll (a : Application) (subs : List Submission) :
    SameInstance a (a.routeAll subs).1 ∧ (a.routeAll subs).1.height = a.height := by
  refine routeAll_induction (P := fun x => SameInstance a x ∧ x.height = a.height)
    ⟨.refl a, rfl⟩ (fun x y s hx hs => ?_) subs
  obtain ⟨hsame, hheight⟩ := sameInstance_of_route hs
  exact ⟨hx.1.trans hsame, hheight.trans hx.2⟩

/-! ## The end of a block -/

theorem endBackground_of_ok {v : Option (RoundKind × Snapshot × Event)}
    (h : a.endBackground height = (a', .ok v)) :
    SameInstance a a' ∧ a'.height = a.height ∧
      ∀ k s e, v = some (k, s, e) → a.data.Revises s (k.writes e) := by
  unfold endBackground at h
  cases hbg : a.background with
  | none =>
    rw [hbg] at h
    cases h
    exact ⟨.refl a, rfl, fun _ _ _ hv => by cases hv⟩
  | some bg =>
    simp only [hbg] at h
    cases hend : bg.endBlock a.data height a.params.roundTimeout with
    | mk bg' res =>
      rw [hend] at h
      cases res with
      | error e => cases h
      | ok o =>
        cases h
        refine ⟨sameInstance_background a _, rfl, fun k s e hv => ?_⟩
        obtain ⟨⟨s', e'⟩, rfl, hv⟩ := Option.map_eq_some_iff.1 hv
        cases hv
        rcases Round.endBlock_cases_of_ok hend with ⟨hnone, -⟩ | ⟨_, _, hsome, -, hrev⟩
        · cases hnone
        · cases hsome
          exact hrev

theorem endForeground_of_ok {v : Option (Snapshot × Event)}
    (h : a.endForeground height = (a', .ok v)) :
    SameInstance a a' ∧ a'.height = a.height ∧
      ∀ s e, v = some (s, e) → a.data.Revises s (a.current.kind.writes e) := by
  unfold endForeground at h
  cases hend : a.current.endBlock a.data height a.params.roundTimeout with
  | mk r res =>
    rw [hend] at h
    cases h
    rcases Round.endBlock_cases_of_ok hend with ⟨rfl, rfl⟩ | ⟨s, e, rfl, rfl, hrev⟩
    · exact ⟨.refl a, rfl, fun _ _ hv => by cases hv⟩
    · refine ⟨{ SameInstance.refl a with current := rfl }, rfl, fun _ _ hv => ?_⟩
      cases hv
      exact hrev

/-- A round that was started asks the peers, and listens to the keeper, that it reads from the
agreed data. -/
theorem of_instantiate_eq_ok {params : AppParams} {data : Snapshot} {k : RoundKind}
    {roundCount : RoundCount} {r : Round}
    (h : instantiate params data k roundCount height = .ok r) :
    ∃ peers keeper, k.participants data params.participants = .ok peers ∧
      k.keeper? data = .ok keeper ∧
      Round.start k roundCount peers keeper height false = .ok r := by
  unfold instantiate at h
  obtain ⟨peers, hpeers, h⟩ := bind_eq_ok.1 h
  obtain ⟨keeper, hkeeper, h⟩ := bind_eq_ok.1 h
  refine ⟨peers, keeper, hpeers, hkeeper, ?_⟩
  generalize Round.start k roundCount peers keeper height false = started at h ⊢
  cases started with
  | error e => cases h
  | ok r' => exact congrArg _ (Except.ok.inj h)

theorem kind_of_instantiate {params : AppParams} {data : Snapshot} {k : RoundKind}
    {roundCount : RoundCount} {r : Round}
    (h : instantiate params data k roundCount height = .ok r) : r.kind = k := by
  obtain ⟨peers, keeper, -, -, hstart⟩ := of_instantiate_eq_ok h
  rw [Round.eq_fresh_of_start hstart]
  rfl

theorem refreshBackground_of_ok (h : a.refreshBackground = .ok a') :
    ∃ bg, a' = { a with background := bg } := by
  unfold refreshBackground at h
  split at h
  · cases h
    exact ⟨_, rfl⟩
  split_ifs at h
  · cases h
    exact ⟨_, rfl⟩
  · obtain ⟨participants, -, h⟩ := bind_eq_ok.1 h
    split_ifs at h
    · cases h
      exact ⟨_, rfl⟩
    · obtain ⟨round, -, h⟩ := bind_eq_ok.1 h
      cases h
      exact ⟨_, rfl⟩

/-- A transition that does not fail is carried out as a whole. -/
theorem transition_moves {source : RoundKind} {data : Snapshot} {event : Event} {preempted : Bool}
    (h : a.transition source data event preempted = (a', .ok t))
    (hrev : a.data.Revises data (source.writes event))
    (hs : preempted = false → source = a.current.kind) :
    Moves a a' t ∧ a'.height = a.height := by
  unfold transition at h
  simp only at h
  split at h
  · cases h
  rename_i target roundCount next hready
  obtain ⟨k, hk, hready⟩ := bind_eq_ok.1 hready
  obtain ⟨c, hc, hready⟩ := bind_eq_ok.1 hready
  obtain ⟨r, hr, hready⟩ := bind_eq_ok.1 hready
  cases hready
  have hk : a.table.target source event = .ok target := by
    cases ht : a.table.target source event <;> rw [ht] at hk <;> cases hk
    rfl
  have hc : a.roundCount.next? = some roundCount := by
    cases hn : a.roundCount.next? <;> rw [hn] at hc <;> cases hc
    rfl
  have moves {x : Application} {bg : Option Round}
      (hx : x = a.moved data roundCount next bg)
      (ht : t = ⟨source, event, target, data.version, roundCount, preempted⟩) :
      Moves a x t ∧ x.height = a.height := by
    subst hx ht
    exact ⟨⟨hs, hk, hrev, hc, hr, rfl, rfl, rfl, rfl, rfl, rfl⟩, rfl⟩
  split_ifs at h with hp
  · cases h
    exact moves rfl (by rw [hp])
  · split at h
    · cases h
    · rename_i hb
      obtain ⟨bg, rfl⟩ := refreshBackground_of_ok hb
      cases h
      exact moves rfl (by rw [Bool.eq_false_iff.2 hp])

/-- The end of a block that does not fail moves on if a round has ended. -/
theorem endBlock_advances {o : Option Transition} (h : a.endBlock height = (a', .ok o)) :
    Advance a a' o ∧ a'.height = a.height := by
  unfold endBlock at h
  split at h
  · cases h
  rename_i a₁ v hbg
  obtain ⟨hsame, hheight, hrev⟩ := endBackground_of_ok hbg
  split at h
  · cases h
  rename_i a₂ w hfg
  obtain ⟨hsame', hheight', hrev'⟩ := endForeground_of_ok hfg
  have hboth := hsame.trans hsame'
  have hheights := hheight'.trans hheight
  -- whichever round has ended, the transition starts from the same instance
  have moves {source : RoundKind} {s : Snapshot} {e : Event} {preempted : Bool} {a₃ : Application}
      {res : Except FatalError Transition} (hrev : a.data.Revises s (source.writes e))
      (hs : preempted = false → source = a₂.current.kind)
      (ht : a₂.transition source s e preempted = (a₃, res))
      (hres : (a₃, res.map some) = (a', .ok o)) : Advance a a' o ∧ a'.height = a.height := by
    cases res with
    | error _ => cases hres
    | ok t =>
      cases hres
      obtain ⟨hm, hheight₃⟩ := transition_moves ht (hboth.data ▸ hrev) hs
      exact ⟨.moves (hboth.moves hm), hheight₃.trans hheights⟩
  split at h
  · exact moves (hrev _ _ _ rfl) (fun hp => by cases hp) rfl h
  · refine moves ?_ (fun _ => rfl) rfl h
    rw [← hsame.data, hsame'.kind]
    exact hrev' _ _ rfl
  · cases h
    exact ⟨.stays hboth, hheights⟩

/-- Only the next block is applied. -/
theorem height_of_processBlock {o : BlockOutcome} (h : a.processBlock b = (a', .ok o)) :
    b.height.toNat = a.height.toNat + 1 := by
  unfold processBlock at h
  split at h
  · cases h
  · rename_i expected hn
    split at h
    · cases h
    · rename_i hb
      rw [Decidable.not_not.1 hb]
      exact Counter.next?_eq_some.1 hn

/-- **A block that is applied leaves the instance as it is, or moves on from it.** -/
theorem processBlock_advances {o : BlockOutcome} (h : a.processBlock b = (a', .ok o)) :
    Advance a a' o.transition ∧ a'.height = b.height := by
  have hsame : SameInstance a { a with height := b.height } := ⟨rfl, rfl, rfl, rfl, rfl, rfl, rfl⟩
  unfold processBlock at h
  split at h
  · cases h
  split at h
  · cases h
  simp only at h
  split_ifs at h
  · cases h
    exact ⟨.stays hsame, rfl⟩
  obtain ⟨hroute, hheight⟩ := sameInstance_routeAll { a with height := b.height } b.submissions
  generalize ({ a with height := b.height } : Application).routeAll b.submissions = routed at *
  cases hend : routed.1.endBlock b.height with
  | mk a₁ res =>
    rw [hend] at h
    cases res with
    | error e => cases h
    | ok t =>
      cases h
      obtain ⟨hadvance, hheight'⟩ := endBlock_advances hend
      exact ⟨(hsame.trans hroute).advance hadvance, hheight'.trans hheight⟩

end Application

end Quorum
