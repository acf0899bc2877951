/-!
# Transcripts

A program takes requests one after the other and answers each.

* `transcript?` : the state after the requests, with everything that was answered; nothing, once a
  step cannot be taken;
* `concat_eq_append_cons`, `filterMap_concat` : one more answer;
* `exists_transcript?` : steps that can always be taken;
* `transcript?_view` : a program that takes the same steps on another form of the state gives the same
  answers;
* `Steady` : a property of the state and the answers so far that every step keeps;
* `Steady.transcript`, `Steady.moment` : it holds after all requests, and between any two;
* `Steady.isSome_transcript?` : a supply that some of the requests use up is all that can run out.
-/

namespace Quorum

variable {σ ρ τ : Type} {step : σ → ρ → Option (σ × τ)} {request : τ → ρ}
  {I : σ → List τ → Prop} {s s' : σ} {r : ρ} {rs : List ρ} {e : τ} {es es' before after : List τ}

/-- The state after requests, and the answers, unless a step cannot be taken. -/
def transcript? (step : σ → ρ → Option (σ × τ)) (s : σ) : List ρ → Option (σ × List τ)
  | [] => some (s, [])
  | r :: rs => (step s r).bind fun t => (transcript? step t.1 rs).map fun u => (u.1, t.2 :: u.2)

theorem transcript?_cons (h : transcript? step s (r :: rs) = some (s', es)) :
    ∃ s₁ e es₁, step s r = some (s₁, e) ∧ transcript? step s₁ rs = some (s', es₁) ∧
      es = e :: es₁ := by
  obtain ⟨⟨s₁, e⟩, hstep, h⟩ := Option.bind_eq_some_iff.1 h
  obtain ⟨⟨_, es₁⟩, hrest, heq⟩ := Option.map_eq_some_iff.1 h
  cases heq
  exact ⟨s₁, e, es₁, hstep, hrest, rfl⟩

theorem exists_transcript? (h : ∀ s r, ∃ t, step s r = some t) (s : σ) (rs : List ρ) :
    ∃ s' es, transcript? step s rs = some (s', es) := by
  induction rs generalizing s with
  | nil => exact ⟨s, [], rfl⟩
  | cons r rs ih =>
    obtain ⟨⟨s₁, e⟩, hstep⟩ := h s r
    obtain ⟨s', es, hrest⟩ := ih s₁
    refine ⟨s', e :: es, ?_⟩
    unfold transcript?
    rw [hstep, Option.bind_some, hrest]
    rfl

/-- **The same steps on another form of the state give the same answers.** -/
theorem transcript?_view {σ' : Type} {step' : σ' → ρ → Option (σ' × τ)} {view : σ → σ'}
    (h : ∀ s r, step' (view s) r = (step s r).map fun t => (view t.1, t.2)) (s : σ)
    (rs : List ρ) :
    transcript? step' (view s) rs = (transcript? step s rs).map fun t => (view t.1, t.2) := by
  induction rs generalizing s with
  | nil => rfl
  | cons r rs ih =>
    unfold transcript?
    rw [h]
    cases step s r with
    | none => rfl
    | some t =>
      simp only [Option.map_some, Option.bind_some, ih, Option.map_map]
      rfl

/-- A new answer is the last one, or the answer in question was there before. -/
theorem concat_eq_append_cons {d : τ} (h : es ++ [e] = before ++ d :: after) :
    (before = es ∧ d = e ∧ after = []) ∨
      ∃ after', es = before ++ d :: after' ∧ after = after' ++ [e] := by
  rcases List.eq_nil_or_concat after with rfl | ⟨after', last, rfl⟩
  · obtain ⟨hes, he⟩ := List.append_inj' h rfl
    exact .inl ⟨hes.symm, (List.singleton_inj.1 he).symm, rfl⟩
  · rw [List.concat_eq_append, ← List.cons_append, ← List.append_assoc] at h
    obtain ⟨hes, he⟩ := List.append_inj' h rfl
    exact .inr ⟨after', hes, by rw [List.concat_eq_append, ← he]⟩

theorem filterMap_concat {α : Type} (f : τ → Option α) (es : List τ) (e : τ) :
    (es ++ [e]).filterMap f = es.filterMap f ++ (f e).toList := by
  rw [List.filterMap_append]
  cases h : f e <;> simp [h]

/-- Every answer is one to its request, and the step keeps a property of the state and the answers
so far. -/
structure Steady (step : σ → ρ → Option (σ × τ)) (request : τ → ρ) (I : σ → List τ → Prop) :
    Prop where
  request_eq : ∀ {s r s' e}, step s r = some (s', e) → request e = r
  keeps : ∀ {s es r s' e}, I s es → step s r = some (s', e) → I s' (es ++ [e])

namespace Steady

variable (hI : Steady step request I)
include hI

theorem map_request (h : transcript? step s rs = some (s', es)) : es.map request = rs := by
  induction rs generalizing s es with
  | nil =>
    cases h
    rfl
  | cons r rs ih =>
    obtain ⟨s₁, e, es, hstep, hrest, rfl⟩ := transcript?_cons h
    rw [List.map_cons, hI.request_eq hstep, ih hrest]

/-- **What a step keeps, many steps keep.** -/
theorem transcript (h : I s es) (hr : transcript? step s rs = some (s', es')) :
    I s' (es ++ es') := by
  induction rs generalizing s es es' with
  | nil =>
    cases hr
    exact (List.append_nil es).symm ▸ h
  | cons r rs ih =>
    obtain ⟨s₁, e, es₁, hstep, hrest, rfl⟩ := transcript?_cons hr
    have h' := ih (hI.keeps h hstep) hrest
    rwa [List.append_assoc] at h'

/-- **Every answer was given at a moment when the property held.** -/
theorem moment (es : List τ) (h : I s es) (hr : transcript? step s rs = some (s', before ++ e :: after)) :
    ∃ s₁ s₂, I s₁ (es ++ before) ∧ step s₁ (request e) = some (s₂, e) := by
  induction rs generalizing s es before with
  | nil => cases before <;> cases hr
  | cons r rs ih =>
    obtain ⟨s₁, d, es₁, hstep, hrest, heq⟩ := transcript?_cons hr
    cases before with
    | nil =>
      cases heq
      obtain rfl := hI.request_eq hstep
      exact ⟨s, s₁, (List.append_nil es).symm ▸ h, hstep⟩
    | cons c before =>
      cases heq
      have hmoment := ih _ (hI.keeps h hstep) hrest
      rwa [List.append_assoc] at hmoment

/-- If a step cannot be taken only because too many requests of one kind came, all of them are
answered as long as there are few of these. -/
theorem isSome_transcript? {p : ρ → Bool} {base limit : Nat}
    (hfits : ∀ {s es}, I s es → base + (es.map request).countP p < limit)
    (hsome : ∀ {s es r}, I s es →
      ((step s r).isSome ↔ base + (es.map request).countP p + [r].countP p < limit))
    (es : List τ) (h : I s es) : (transcript? step s rs).isSome ↔
      base + (es.map request).countP p + rs.countP p < limit := by
  induction rs generalizing s es with
  | nil => exact iff_of_true rfl (hfits h)
  | cons r rs ih =>
    have hr := hsome h (r := r)
    unfold transcript?
    rw [← List.singleton_append, List.countP_append, ← Nat.add_assoc]
    cases hx : step s r with
    | none =>
      rw [hx, Option.isSome_none] at hr
      exact iff_of_false Bool.false_ne_true fun hlt => Bool.false_ne_true (hr.2 (by omega))
    | some t =>
      obtain ⟨s', e⟩ := t
      rw [Option.bind_some, Option.isSome_map, ih _ (hI.keeps h hx), List.map_append,
        List.countP_append, ← Nat.add_assoc, List.map_singleton, hI.request_eq hx]

end Steady

end Quorum
