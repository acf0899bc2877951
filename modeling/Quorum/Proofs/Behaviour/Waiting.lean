import Quorum.Proofs.Behaviour.Insisting

/-!
# What a task waits for

A task that has gone on as far as it can waits for something that is not there, and that is not due
before a later instant. Until then time can pass.

* `Ask.lt_of_due?` : what is still waited for is due later;
* `Task.Rests` : nothing that a task waits for is due, nor has its round ended if it waits for that;
* `Task.rests_poll` : so it is after a task went on;
* `Effort.proceed?_eq_none` : work that submits a vote and rests cannot go on;
* `Effort.leads_clock` : until something is due, nothing happens to it but that time passes;
* `Effort.rests_of_ofBehaviour` : it rests if the behaviour that does it rests.
-/

namespace Quorum

/-! ## Requests -/

namespace Ask

variable {actor : Actor} {w : Waiting} {s : Site} {d : Instant}

theorem lt_of_expired {timeout : Option Nat} (h : expired w timeout s.now = false)
    (hd : timeout.map (w.since + ·) = some d) : s.now < d := by
  obtain ⟨t, rfl, rfl⟩ := Option.map_eq_some_iff.1 hd
  exact Nat.lt_of_not_le (of_decide_eq_false h)

theorem awaiting_eq_none {holds : Bool} {timeout : Option Nat}
    (h : awaiting holds w timeout s = none) : holds = false ∧ expired w timeout s.now = false := by
  unfold awaiting at h
  split_ifs at h with hholds hexpired
  exact ⟨Bool.eq_false_iff.2 hholds, Bool.eq_false_iff.2 hexpired⟩

/-- What is still waited for is due later. -/
theorem lt_of_due? {a : Ask} (h : a.answer? actor w s = none) (hd : a.due? actor w = some d) :
    s.now < d := by
  cases a with
  | call c =>
    cases hd
    unfold answer? received at h
    dsimp only at h
    split at h
    · cases h
    split_ifs at h with hexpired
    exact lt_of_expired (Bool.eq_false_iff.2 hexpired) rfl
  | sleep duration =>
    cases hd
    simp only [answer?] at h
    split_ifs at h with hover
    exact Nat.lt_of_not_le hover
  | pause duration limit =>
    cases hd
    simp only [answer?] at h
    split_ifs at h with hover hlimit
    cases limit with
    | none => exact Nat.lt_of_not_le hover
    | some t =>
      have ht : ¬ t ≤ s.now := fun hle => hlimit (decide_eq_true hle)
      exact Nat.lt_min.2 ⟨Nat.lt_of_not_le hover, Nat.lt_of_not_le ht⟩
  | roundEnd timeout | condition c timeout => exact lt_of_expired (awaiting_eq_none h).2 hd
  | snapshot | info | clock | submit | status => cases hd

end Ask

/-! ## Tasks -/

namespace Task

variable {σ ρ : Type} {m : Machine σ ρ} {t t' : Task σ} {s s' : Site} {fuel : Nat}

/-- Nothing that a task waits for is due, and its round has not ended if it waits for that. -/
structure Rests (m : Machine σ ρ) (t : Task σ) (now : Instant) (info : RoundInfo) : Prop where
  due : ∀ d, t.due? m = some d → now < d
  runs : ∀ timeout resume, m t.stage = .ask (.roundEnd timeout) resume → t.waiting.isSome →
    Ask.roundEnded t.actor info = false

theorem rests_of_waiting (h : t.waiting = none) (now : Instant) (info : RoundInfo) :
    t.Rests m now info where
  due d hd := by
    unfold due? at hd
    rw [h] at hd
    cases hm : m t.stage <;> rw [hm] at hd <;> cases hd
  runs _ _ _ hw := by
    rw [h] at hw
    cases hw

/-- **A task that went on rests.** If it was stopped on its way it waits for nothing. -/
theorem rests_poll (h : t.poll m fuel s = (t', s', none)) (hfuel : 0 < fuel ∨ t.waiting = none) :
    t'.Rests m s.now s.info := by
  induction fuel generalizing t s with
  | zero =>
    cases h
    exact rests_of_waiting (hfuel.resolve_left (Nat.lt_irrefl 0)) _ _
  | succ fuel ih =>
    cases hstep : m t.stage with
    | done result =>
      unfold poll at h
      rw [hstep] at h
      cases h
    | ask a resume =>
      obtain ⟨w, s₁, status, hw, ⟨hanswer, hpoll⟩ | ⟨answer, s₂, hanswer, hpoll⟩⟩ :=
        poll_of_asks hstep fuel s
      all_goals
        have halike := t.alike_requested a s
        rw [hw] at halike
        rw [hpoll] at h
      · cases h
        refine ⟨fun d hd => ?_, fun timeout resume' hasks _ => ?_⟩
        · simp only [due?, hstep] at hd
          exact halike.now ▸ Ask.lt_of_due? hanswer hd
        · cases hstep.symm.trans hasks
          exact halike.info ▸ (Ask.awaiting_eq_none hanswer).1
      · have halike := halike.trans (Ask.alike_answer hanswer)
        rw [← halike.now, ← halike.info]
        exact ih h (.inr rfl)

end Task

/-! ## Work that submits a vote -/

namespace Effort

variable {p : BehaviourParams} {t : Task Submitting} {s : Site} {now : Instant}

/-- Work that rests cannot go on. -/
theorem proceed?_eq_none (h : t.Rests (Submitting.step p) s.now s.info) (hw : t.waiting.isSome) :
    (ofTask t s).proceed? p = none := by
  obtain ⟨actor, ⟨vote, attempt, backoff, phase⟩, waiting, status⟩ := t
  obtain ⟨w, rfl⟩ := Option.isSome_iff_exists.1 hw
  cases phase with
  | send | ended => rfl
  | await =>
    have hruns : Ask.roundEnded actor s.info = false := h.runs _ _ rfl rfl
    have hlt : ¬ w.since + p.inclusionTimeout ≤ s.now := Nat.not_le_of_lt (h.due _ rfl)
    simp [proceed?, ofTask, Submitting.step, Ask.answer?, Ask.awaiting, Ask.expired, hruns, hlt]
  | rest =>
    have hlt : ¬ w.since + backoff.delay ≤ s.now := Nat.not_le_of_lt (h.due _ rfl)
    simp [proceed?, ofTask, Submitting.step, Ask.answer?, hlt]

/-- As long as the work cannot go on, time can pass. -/
theorem leads_ticks (k : Nat)
    (h : ∀ i < k, (ofTask t { s with now := s.now + i }).proceed? p = none) :
    Leads p (ofTask t s) (ofTask t { s with now := s.now + k }) := by
  induction k generalizing s with
  | zero => exact .refl p _
  | succ k ih =>
    have hfirst : (ofTask t s).proceed? p = none := h 0 (Nat.succ_pos k)
    have htick : ((ofTask t s).advance? p .ticks).map Prod.fst =
        some (ofTask t { s with now := s.now + 1 }) := by
      simp only [advance?, hfirst]
      rfl
    have hrest := ih (s := { s with now := s.now + 1 }) fun i hi => by
      have hi' := h (i + 1) (Nat.succ_lt_succ hi)
      rwa [Nat.add_comm i 1, ← Nat.add_assoc] at hi'
    rw [Nat.add_assoc, Nat.add_comm 1 k] at hrest
    exact .head .ticks htick hrest

/-- **Until something is due, only time passes.** Work that rests stays as it is until the instant at
which it goes on by itself, and all that happens to it before is that time passes. -/
theorem leads_clock (h : t.Rests (Submitting.step p) s.now s.info) (hw : t.waiting.isSome)
    (hle : s.now ≤ now) (hdue : ∀ d, t.due? (Submitting.step p) = some d → now ≤ d) :
    Leads p (ofTask t s) (ofTask t { s with now }) := by
  obtain ⟨k, rfl⟩ := Nat.exists_eq_add_of_le hle
  refine leads_ticks k fun i hi => proceed?_eq_none ⟨fun d hd => ?_, h.runs⟩ hw
  exact Nat.lt_of_lt_of_le (Nat.add_lt_add_left hi s.now) (hdue d hd)

/-! ### Behaviours -/

variable {key : SecretKey} {info : RoundInfo}

theorem due?_ofBehaviour (p : BehaviourParams) (key : SecretKey) (t : Task Submitting) :
    (ofBehaviour t).due? (Stage.step p key) = t.due? (Submitting.step p) := by
  unfold Task.due? ofBehaviour
  simp only [Stage.step_submitting]
  cases t.stage.step p <;> cases t.waiting <;> rfl

theorem rests_of_ofBehaviour (h : (ofBehaviour t).Rests (Stage.step p key) now info) :
    t.Rests (Submitting.step p) now info where
  due d hd := h.due d ((due?_ofBehaviour p key t).trans hd)
  runs timeout resume hasks := by
    refine h.runs timeout (fun answer => .submitting (resume answer)) ?_
    show (Stage.submitting t.stage).step p key = _
    rw [Stage.step_submitting, hasks]

end Effort

end Quorum
