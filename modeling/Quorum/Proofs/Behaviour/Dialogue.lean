import Quorum.Proofs.Behaviour.Reading

/-!
# What work asks for and is answered

Work is a dialogue with all that it can reach. Nothing is assumed of the answers here.

* `Exchange`, `Dialogue` : a request with its answer, and the exchanges that lead from one stage to
  another;
* `requests`, `results` : everything that was asked for, the request that still waits included, and
  what external calls came to;
* `Dialogue.keeps` : what every exchange keeps, a dialogue keeps;
* `Heads`, `Due` : what is asked for next, if need be after a pause, and what was asked for or is
  asked for next;
* `Task.dialogue_poll` : all that a task does at an instant is such a dialogue.
-/

namespace Quorum

variable {σ ρ : Type} {m : Machine σ ρ} {st st' st'' : σ} {a b : Ask}
  {es es' : List Exchange}

/-! ## Exchanges -/

/-- A request and its answer. -/
structure Exchange where
  ask : Ask
  answer : ask.Answer

namespace Ask

/-- The external call that is asked for. -/
def call? : Ask → Option External.Call
  | call c => some c
  | _ => none

theorem eq_call_of_call? {c : External.Call} (h : a.call? = some c) : a = call c := by
  cases a with
  | call c' => exact congrArg call (Option.some.inj h)
  | _ => cases h

/-- Work asks for nothing but that time passes. -/
def isPause : Ask → Bool
  | sleep _ | pause .. => true
  | _ => false

end Ask

/-- What an external call came to. -/
def Exchange.result? : Exchange → Option External.Result
  | ⟨.call _, r⟩ => some r
  | _ => none

theorem Exchange.isSome_result? (e : Exchange) : e.result?.isSome = e.ask.call?.isSome := by
  obtain ⟨a, answer⟩ := e
  cases a <;> rfl

theorem Exchange.result?_of_call? {answer : a.Answer} (h : a.call? = none) :
    Exchange.result? ⟨a, answer⟩ = none := by
  cases a with
  | call c => cases h
  | _ => rfl

theorem Ask.call?_of_pause (h : a.isPause = true) : a.call? = none := by
  cases a with
  | call c => cases h
  | _ => rfl

theorem Ask.exists_answer_of_pause (h : a.isPause = true) : ∃ _ : a.Answer, True := by
  cases a with
  | sleep d => exact ⟨(), trivial⟩
  | pause d limit => exact ⟨true, trivial⟩
  | _ => cases h

/-- What a step asks for. -/
def Step.ask? : Step σ ρ → Option Ask
  | .done _ => none
  | .ask a _ => some a

theorem Step.ask?_eq_some {s : Step σ ρ} : s.ask? = some a ↔ ∃ resume, s = .ask a resume := by
  constructor
  · intro h
    cases s with
    | done r => cases h
    | ask b resume =>
      cases h
      exact ⟨resume, rfl⟩
  · rintro ⟨resume, rfl⟩
    rfl

/-! ## Dialogues -/

/-- The exchanges that lead from one stage to another. -/
inductive Dialogue (m : Machine σ ρ) : σ → List Exchange → σ → Prop
  | nil (st : σ) : Dialogue m st [] st
  | cons {st st' : σ} {a : Ask} {resume : a.Answer → σ} {es : List Exchange}
    (asks : m st = .ask a resume) (answer : a.Answer) (rest : Dialogue m (resume answer) es st') :
    Dialogue m st (⟨a, answer⟩ :: es) st'

namespace Dialogue

theorem trans (h : Dialogue m st es st') (h' : Dialogue m st' es' st'') :
    Dialogue m st (es ++ es') st'' := by
  induction h with
  | nil => exact h'
  | cons asks answer _ ih => exact .cons asks answer (ih h')

theorem single {resume : a.Answer → σ} (asks : m st = .ask a resume) (answer : a.Answer) :
    Dialogue m st [⟨a, answer⟩] (resume answer) := .cons asks answer (.nil _)

/-- **What every exchange keeps, a dialogue keeps.** -/
theorem keeps {I : List Exchange → σ → Prop} (h : Dialogue m st es st') (hst : I [] st)
    (hstep : ∀ {es : List Exchange} {st : σ} {a : Ask} {resume : a.Answer → σ}, I es st →
      m st = .ask a resume → ∀ answer, I (es ++ [⟨a, answer⟩]) (resume answer)) : I es st' := by
  -- the first stage of what is left is not the first of all, so carry along what came before
  suffices hgo : ∀ before, I before st → I (before ++ es) st' from hgo [] hst
  clear hst
  induction h with
  | nil => exact fun before hst => (List.append_nil before).symm ▸ hst
  | @cons st st' a resume es asks answer _ ih =>
    intro before hst
    have hafter := ih _ (hstep hst asks answer)
    rwa [List.append_assoc] at hafter

end Dialogue

/-! ## Requests -/

/-- Everything that was asked for, the request that waits for its answer included. -/
def requests (m : Machine σ ρ) (es : List Exchange) (st : σ) : List Ask :=
  es.map Exchange.ask ++ (m st).ask?.toList

/-- The external calls among everything that was asked for. -/
def calls (m : Machine σ ρ) (es : List Exchange) (st : σ) : List External.Call :=
  (requests m es st).filterMap Ask.call?

/-- What the external calls came to that were answered. -/
def results (es : List Exchange) : List External.Result := es.filterMap Exchange.result?

theorem requests_nil (m : Machine σ ρ) (st : σ) : requests m [] st = (m st).ask?.toList := rfl

/-- One exchange adds what is asked for next. -/
theorem requests_concat {resume : a.Answer → σ} (asks : m st = .ask a resume) (answer : a.Answer) :
    requests m (es ++ [⟨a, answer⟩]) (resume answer) =
      requests m es st ++ (m (resume answer)).ask?.toList := by
  unfold requests
  rw [asks, List.map_append]
  rfl

theorem results_append (es es' : List Exchange) : results (es ++ es') = results es ++ results es' :=
  List.filterMap_append

theorem results_concat (es : List Exchange) (e : Exchange) :
    results (es ++ [e]) = results es ++ e.result?.toList := by
  rw [results_append]
  cases h : e.result? <;> simp [results, h]

/-- Every result is that of a call, and at most one call waits for its result. -/
theorem length_calls (m : Machine σ ρ) (es : List Exchange) (st : σ) :
    (calls m es st).length =
      (results es).length + if (m st).ask?.any fun a => a.call?.isSome then 1 else 0 := by
  have hanswered : ((es.map Exchange.ask).filterMap Ask.call?).length = (results es).length := by
    unfold results
    induction es with
    | nil => rfl
    | cons e es ih =>
      have hsome := e.isSome_result?
      cases hr : e.result? <;> cases hc : e.ask.call? <;> simp_all
  unfold calls requests
  rw [List.filterMap_append, List.length_append, hanswered]
  cases (m st).ask? with
  | none => rfl
  | some a => cases a <;> rfl

/-! ## What comes next -/

/-- The work asks for something next, or does so after the pause that it is in. -/
def Heads (m : Machine σ ρ) (st : σ) (a : Ask) : Prop :=
  (m st).ask? = some a ∨ ∃ b resume, m st = .ask b resume ∧ b.isPause = true ∧
    ∀ answer, (m (resume answer)).ask? = some a

/-- The work has asked for something, or heads for it. -/
def Due (m : Machine σ ρ) (es : List Exchange) (st : σ) (a : Ask) : Prop :=
  a ∈ requests m es st ∨ Heads m st a

theorem heads_iff_of_ask? (h : (m st).ask? = some a) (ha : a.isPause = false) :
    Heads m st b ↔ a = b := by
  unfold Heads
  rw [h]
  refine ⟨fun hb => hb.elim Option.some.inj fun ⟨c, resume, asks, hc, _⟩ => ?_,
    fun hb => .inl (congrArg some hb)⟩
  rw [asks] at h
  cases Option.some.inj h
  cases ha.symm.trans hc

/-- What the work heads for can be reached without a call. -/
theorem Heads.dialogue (h : Heads m st a) :
    ∃ es st', Dialogue m st es st' ∧ (m st').ask? = some a ∧ results es = [] := by
  rcases h with hnow | ⟨b, resume, asks, hpause, hnext⟩
  · exact ⟨[], st, .nil st, hnow, rfl⟩
  · obtain ⟨answer, -⟩ := Ask.exists_answer_of_pause hpause
    refine ⟨_, _, .single asks answer, hnext answer, ?_⟩
    unfold results
    rw [List.filterMap_cons, Exchange.result?_of_call? (Ask.call?_of_pause hpause)]
    rfl

/-- What is due has been asked for at some time, if the work is given the time. -/
theorem Due.dialogue (h : Due m es st a) :
    ∃ es' st', Dialogue m st es' st' ∧ a ∈ requests m (es ++ es') st' := by
  rcases h with hasked | hheads
  · exact ⟨[], st, .nil st, (List.append_nil es).symm ▸ hasked⟩
  · obtain ⟨es', st', hd, hask, -⟩ := hheads.dialogue
    refine ⟨es', st', hd, List.mem_append_right _ ?_⟩
    rw [hask]
    exact List.mem_singleton_self a

/-! ## Tasks -/

/-- **A task that goes on only carries on its dialogue**, with what it is answered where it is. -/
theorem Task.dialogue_poll (m : Machine σ ρ) (fuel : Nat) (t : Task σ) (s : Site) :
    ∃ es, Dialogue m t.stage es (t.poll m fuel s).1.stage := by
  induction fuel generalizing t s with
  | zero => exact ⟨[], .nil _⟩
  | succ fuel ih =>
    cases hstep : m t.stage with
    | done result =>
      unfold Task.poll
      rw [hstep]
      exact ⟨[], .nil _⟩
    | ask a resume =>
      obtain ⟨w, s₁, status, -, ⟨-, hpoll⟩ | ⟨answer, s₂, -, hpoll⟩⟩ := Task.poll_of_asks hstep fuel s
      · rw [hpoll]
        exact ⟨[], .nil _⟩
      · rw [hpoll]
        obtain ⟨es, hes⟩ := ih { t with stage := resume answer, waiting := none, status } s₂
        exact ⟨⟨a, answer⟩ :: es, .cons hstep answer hes⟩

end Quorum
