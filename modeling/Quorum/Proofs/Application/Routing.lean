import Mathlib.Data.List.Induction
import Quorum.Application.Basic
import Quorum.Proofs.Round.Ballot

/-!
# Where submissions are counted

* `Application.collectAll` : the application with submissions counted in both rounds;
* `Application.Apart` : the two rounds collect different kinds of votes;
* `Application.admits` : whether a submission counts, which the submissions before it do not change
  (`admits_collectAll`);
* `routeAll_eq_countP` : so routing a list of submissions is the same as letting both rounds see all
  of them, and those count that are admitted before the first one.
-/

namespace Quorum.Application

/-- The application with submissions counted in both rounds. -/
def collectAll (a : Application) (subs : List Submission) : Application :=
  { a with
    current := a.current.collectAll subs
    background := a.background.map (·.collectAll subs) }

/-- The two rounds collect different kinds of votes. -/
def Apart (a : Application) : Prop :=
  ∀ bg, a.background = some bg → bg.kind.votes? ≠ a.current.kind.votes?

theorem collectAll_nil (a : Application) : a.collectAll [] = a := by
  unfold collectAll
  cases h : a.background <;> simp [Round.collectAll, ← h]

theorem collectAll_append (a : Application) (xs ys : List Submission) :
    a.collectAll (xs ++ ys) = (a.collectAll xs).collectAll ys := by
  unfold collectAll Round.collectAll
  cases a.background <;> simp [List.foldl_append]

theorem Apart.collectAll {a : Application} (h : a.Apart) (subs : List Submission) :
    (a.collectAll subs).Apart := by
  intro bg hbg
  obtain ⟨bg₀, hbg₀, rfl⟩ := Option.map_eq_some_iff.1 hbg
  show _ ≠ (a.current.collectAll subs).kind.votes?
  rw [Round.collectAll_kind, Round.collectAll_kind]
  exact h bg₀ hbg₀

theorem routePayload_background {a : Application} {p : Payload} {bg : Round}
    (hbg : a.background = some bg) (hv : bg.kind.votes? = some p.kind) :
    a.routePayload p = (fun r => { a with background := some r }) <$> bg.accept p := by
  have hf : a.background.filter (fun bg => bg.kind.votes? = some p.kind) = some bg := by
    rw [hbg]
    exact Option.filter_some_pos (decide_eq_true hv)
  unfold routePayload
  rw [hf]

theorem routePayload_current {a : Application} {p : Payload}
    (hbg : ∀ bg, a.background = some bg → bg.kind.votes? ≠ some p.kind) :
    a.routePayload p = (fun r => { a with current := r }) <$> a.current.accept p := by
  have hf : a.background.filter (fun bg => bg.kind.votes? = some p.kind) = none := by
    rw [Option.filter_eq_none_iff]
    intro bg h
    simpa using hbg bg h
  unfold routePayload
  rw [hf]

theorem collectAll_eq_of {a : Application} {s : Submission} {r : Round} {bg : Option Round}
    (hr : a.current.collect s = r) (hbg : a.background.map (·.collect s) = bg) :
    a.collectAll [s] = { a with current := r, background := bg } := by
  subst hr hbg
  rfl

/-- A submission that is routed is counted as if each round were alone, or is dropped by both. -/
theorem route_cases {a : Application} (h : a.Apart) (s : Submission) :
    (∃ e, a.route s = .error e ∧ a.collectAll [s] = a) ∨ a.route s = .ok (a.collectAll [s]) := by
  unfold route
  cases hs : s.open with
  | error e =>
    refine .inl ⟨_, rfl, collectAll_eq_of (Round.collect_of_unopened _ hs) ?_⟩
    cases a.background with
    | none => rfl
    | some bg => rw [Option.map_some, Round.collect_of_unopened bg hs]
  | ok p =>
    simp only
    by_cases hv : ∃ bg, a.background = some bg ∧ bg.kind.votes? = some p.kind
    · obtain ⟨bg, hbg, hv⟩ := hv
      have hcur : a.current.collect s = a.current :=
        Round.collect_of_votes hs (hv ▸ (h bg hbg).symm)
      rw [routePayload_background hbg hv]
      cases hp : bg.accept p with
      | error e =>
        refine .inl ⟨e, rfl, collectAll_eq_of hcur ?_⟩
        rw [hbg, Option.map_some, Round.collect_of_refused hs hp]
      | ok r =>
        refine .inr (congrArg _ (collectAll_eq_of hcur ?_).symm)
        rw [hbg, Option.map_some, Round.collect_of_accepted hs hp]
    · have hbg : a.background.map (·.collect s) = a.background := by
        cases hbg : a.background with
        | none => rfl
        | some bg =>
          rw [Option.map_some, Round.collect_of_votes hs fun hk => hv ⟨bg, hbg, hk⟩]
      rw [routePayload_current fun bg hbg hk => hv ⟨bg, hbg, hk⟩]
      cases hp : a.current.accept p with
      | error e => exact .inl ⟨e, rfl, collectAll_eq_of (Round.collect_of_refused hs hp) hbg⟩
      | ok r =>
        exact .inr (congrArg _ (collectAll_eq_of (Round.collect_of_accepted hs hp) hbg).symm)

/-- A submission that opens and counts changes the round that collects votes of its kind. -/
theorem collectAll_of_routed {a a' : Application} {s : Submission} {p : Payload} (h : a.Apart)
    (hs : s.open = .ok p) (hp : a.routePayload p = .ok a') : a.collectAll [s] = a' := by
  have hroute : a.route s = .ok a' := by
    unfold route
    rw [hs]
    exact hp
  rcases route_cases h s with ⟨e, he, -⟩ | hr
  · cases he.symm.trans hroute
  · exact Except.ok.inj (hr.symm.trans hroute)

section
variable {a a₁ a₂ : Application} {subs : List Submission} {s : Submission} {n m : Nat}

theorem routeAll_concat_of_ok (h : a.routeAll subs = (a₁, n, m)) (hs : a₁.route s = .ok a₂) :
    a.routeAll (subs ++ [s]) = (a₂, n + 1, m) := by
  unfold routeAll at h ⊢
  rw [List.foldl_append, h]
  simp only [List.foldl_cons, List.foldl_nil, hs]

theorem routeAll_concat_of_error {e : Rejection} (h : a.routeAll subs = (a₁, n, m))
    (hs : a₁.route s = .error e) : a.routeAll (subs ++ [s]) = (a₁, n, m + 1) := by
  unfold routeAll at h ⊢
  rw [List.foldl_append, h]
  simp only [List.foldl_cons, List.foldl_nil, hs]

end

/-! ## Which submissions count -/

/-- Whether a submission counts in one of the rounds. -/
def admits (a : Application) (s : Submission) : Bool := (a.route s).isOk

/-- What routing a submission keeps, routing a list of them keeps. -/
theorem routeAll_induction {P : Application → Prop} {a : Application} (h : P a)
    (hstep : ∀ x y s, P x → x.route s = .ok y → P y) (subs : List Submission) :
    P (a.routeAll subs).1 := by
  induction subs using List.reverseRecOn with
  | nil => exact h
  | append_singleton subs s ih =>
    obtain ⟨a₁, n, m, hr⟩ : ∃ a₁ n m, a.routeAll subs = (a₁, n, m) := ⟨_, _, _, rfl⟩
    rw [hr] at ih
    cases hs : a₁.route s with
    | error e =>
      rw [routeAll_concat_of_error hr hs]
      exact ih
    | ok a₂ =>
      rw [routeAll_concat_of_ok hr hs]
      exact hstep a₁ a₂ s ih hs

theorem isOk_map {ε α β : Type} (f : α → β) (r : Except ε α) : (f <$> r).isOk = r.isOk := by
  cases r <;> rfl

/-- A submission is admitted exactly if one of the rounds takes it. -/
theorem admits_eq {a : Application} (h : a.Apart) (s : Submission) :
    a.admits s = (a.current.takes s || a.background.any (·.takes s)) := by
  unfold admits route
  cases hs : s.open with
  | error e =>
    have hnone (r : Round) : r.takes s = false := by
      unfold Round.takes Round.submit
      rw [hs]
      rfl
    cases a.background <;> simp [hnone, Except.isOk, Except.toBool]
  | ok p =>
    have htakes (r : Round) : (r.accept p).isOk = r.takes s := by
      unfold Round.takes Round.submit
      rw [hs]
    by_cases hv : ∃ bg, a.background = some bg ∧ bg.kind.votes? = some p.kind
    · obtain ⟨bg, hbg, hv⟩ := hv
      have hcur : a.current.takes s = false := Round.takes_of_votes hs (hv ▸ (h bg hbg).symm)
      show (a.routePayload p).isOk = _
      rw [routePayload_background hbg hv, isOk_map, htakes, hcur, hbg]
      rfl
    · have hbg : a.background.any (·.takes s) = false := by
        cases hbg : a.background with
        | none => rfl
        | some bg => exact Round.takes_of_votes hs fun hk => hv ⟨bg, hbg, hk⟩
      show (a.routePayload p).isOk = _
      rw [routePayload_current fun bg hbg hk => hv ⟨bg, hbg, hk⟩, isOk_map, htakes, hbg,
        Bool.or_false]

/-- What counts does not depend on what was counted before. -/
theorem admits_collectAll {a : Application} (h : a.Apart) (subs : List Submission) :
    (a.collectAll subs).admits = a.admits := by
  funext s
  rw [admits_eq h, admits_eq (h.collectAll subs)]
  show ((a.current.collectAll subs).takes s || (a.background.map (·.collectAll subs)).any _) = _
  rw [Round.takes_collectAll, Option.any_map]
  simp only [Round.takes_collectAll]

/-- The submissions that count are those that the application admits as it is. -/
theorem routeAll_eq_countP {a : Application} (h : a.Apart) (subs : List Submission) :
    a.routeAll subs =
      (a.collectAll subs, subs.countP a.admits, subs.countP fun s => !a.admits s) := by
  induction subs using List.reverseRecOn with
  | nil =>
    rw [collectAll_nil]
    rfl
  | append_singleton subs s ih =>
    have hs : a.admits s = ((a.collectAll subs).route s).isOk := by
      rw [← admits_collectAll h subs]
      rfl
    rw [collectAll_append, List.countP_append, List.countP_append, List.countP_singleton,
      List.countP_singleton, hs]
    rcases route_cases (h.collectAll subs) s with ⟨e, hr, ha⟩ | hr
    · rw [ha, hr]
      exact routeAll_concat_of_error ih hr
    · rw [hr]
      exact routeAll_concat_of_ok ih hr

theorem countP_admits_add (a : Application) (subs : List Submission) :
    subs.countP a.admits + (subs.countP fun s => !a.admits s) = subs.length := by
  rw [List.length_eq_countP_add_countP a.admits]
  simp only [Bool.not_eq_true, Bool.decide_eq_false]

/-- Every submission is counted where it belongs, or dropped. -/
theorem routeAll_eq {a : Application} (h : a.Apart) (subs : List Submission) :
    ∃ accepted rejected, a.routeAll subs = (a.collectAll subs, accepted, rejected) ∧
      accepted + rejected = subs.length :=
  ⟨_, _, routeAll_eq_countP h subs, countP_admits_add a subs⟩

end Quorum.Application
