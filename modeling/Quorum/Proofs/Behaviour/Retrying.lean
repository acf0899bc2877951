import Quorum.Proofs.Behaviour.Dialogue
import Quorum.Proofs.Behaviour.Insisting

/-!
# Asking again until there is something to vote for

A peer asks the beacon for a value, or the chain for the receipt of a transaction, until the answer
is one that it can vote for or it has asked often enough. The two behaviours pause in different
places and give up in different ways, and are the same search but for that.

* `Tries` : the calls of work that makes one call until a result is found;
* `Search` : a call that is made again and again, what its results bring, and the stages on the way;
* `Search.At`, `At.next` : where a search is after some results, and that it never leaves these
  places;
* `Search.outcome?` : the vote for the first thing that was found, or else for giving up;
* `Search.kept` : what holds after every dialogue, from which `Search.tries` (the calls),
  `Search.due_iff` (the votes) and `Search.silent_iff` (when there is none for good);
* `Search.exists_dialogue` : any results can come in turn;
* `Search.validation`, `Search.observation` : the two behaviours;
* `bounded_retries_vote_right` : both are bounded and vote for what they were told.
-/

namespace Quorum

/-! ## What there is to vote for -/

namespace External.Result

/-- The receipt that a result brings, if it brings one. -/
def receipt? : Result → Option Receipt
  | .ok (.receipt r) => r
  | _ => none

/-- The observation that a result brings, if it brings one. -/
def observation? : Result → Option Observation
  | .ok (.randomness o) => some o
  | _ => none

end External.Result

/-- The calls of work that makes one call again and again, at most `limit` times, until a result is
found: the first such result is the last one, and as long as there is none the work goes on. -/
structure Tries {σ ρ : Type} (call : External.Call) (limit : Nat) (found : External.Result → Bool)
    (m : Machine σ ρ) (es : List Exchange) (st : σ) : Prop where
  same : ∀ c ∈ calls m es st, c = call
  bounded : (calls m es st).length ≤ limit
  stops : ∀ before r after, results es = before ++ r :: after → found r = true →
    after = [] ∧ (calls m es st).length = (results es).length
  insists : (∀ r ∈ results es, found r = false) → (results es).length < limit →
    Heads m st (.call call)

/-- Work that submits a vote makes no calls, submits no other vote and keeps its own. -/
theorem Submitting.of_asks {p : BehaviourParams} {sub : Submitting} {a : Ask}
    {resume : a.Answer → Submitting} (asks : sub.step p = .ask a resume) :
    a.call? = none ∧ (∀ v, a = .submit v → sub.vote = v) ∧
      ∀ answer, (resume answer).vote = sub.vote := by
  obtain ⟨vote, attempt, backoff, phase⟩ := sub
  cases phase with
  | send =>
    cases asks
    refine ⟨rfl, fun v hv => Ask.submit.inj hv, fun answer => ?_⟩
    cases answer with
    | ok height => rfl
    | error err => exact Submitting.vote_again p _
  | await =>
    cases asks
    refine ⟨rfl, nofun, fun ended => ?_⟩
    cases ended with
    | true => rfl
    | false => exact Submitting.vote_again p _
  | rest =>
    cases asks
    exact ⟨rfl, nofun, fun _ => rfl⟩
  | ended => cases asks

namespace Stage

variable {p : BehaviourParams} {key : SecretKey} {st st' : Stage} {a : Ask}
  {resume : a.Answer → Stage} {es : List Exchange} {v : Vote} {v? : Option Vote}
  {r : External.Result} {rs : List External.Result}

/-- The stage is over with looking: it submits a vote, or only waits for the round to end. -/
inductive Settled : Option Vote → Stage → Prop
  | submitting (sub : Submitting) : Settled (some sub.vote) (submitting sub)
  | idle : Settled none idle
  | ended (result : Except BehaviourError Unit) : Settled none (ended result)

/-- It stays so, makes no calls and submits nothing else. -/
theorem Settled.of_asks (h : Settled v? st) (asks : st.step p key = .ask a resume) :
    a.call? = none ∧ (∀ v, a = .submit v → v? = some v) ∧
      ∀ answer, Settled v? (resume answer) := by
  cases h with
  | submitting sub =>
    rw [step_submitting] at asks
    cases hsub : sub.step p with
    | done result =>
      rw [hsub] at asks
      cases asks
    | ask b go =>
      rw [hsub] at asks
      cases asks
      obtain ⟨hcall, hvote, hkeeps⟩ := Submitting.of_asks hsub
      exact ⟨hcall, fun v hv => congrArg some (hvote v hv),
        fun answer => hkeeps answer ▸ .submitting (go answer)⟩
  | idle =>
    cases asks
    exact ⟨rfl, nofun, fun _ => .ended _⟩
  | ended result => cases asks

theorem Settled.eq_of_heads (h : Settled v? st) (hv : Heads (step p key) st (.submit v)) :
    v? = some v := by
  rcases hv with hnow | ⟨b, go, asks, hpause, hnext⟩
  · obtain ⟨go, asks⟩ := Step.ask?_eq_some.1 hnow
    exact (h.of_asks asks).2.1 v rfl
  · obtain ⟨answer, -⟩ := Ask.exists_answer_of_pause hpause
    obtain ⟨go', asks'⟩ := Step.ask?_eq_some.1 (hnext answer)
    exact (((h.of_asks asks).2.2 answer).of_asks asks').2.1 v rfl

/-- A pause leads from one stage to another. -/
def Pauses (p : BehaviourParams) (key : SecretKey) (st st' : Stage) : Prop :=
  ∃ a resume, st.step p key = .ask a resume ∧ a.isPause = true ∧ ∀ answer, resume answer = st'

theorem Pauses.ask?_ne (h : Pauses p key st st') (ha : a.isPause = false) :
    (st.step p key).ask? ≠ some a := by
  obtain ⟨b, go, asks, hpause, -⟩ := h
  rw [asks]
  intro hb
  cases Option.some.inj hb
  cases ha.symm.trans hpause

theorem Pauses.heads_iff (h : Pauses p key st st') (ha : a.isPause = false) :
    Heads (step p key) st a ↔ (st'.step p key).ask? = some a := by
  constructor
  · rintro (hnow | ⟨b, go, asks, hpause, hnext⟩)
    · exact absurd hnow (h.ask?_ne ha)
    · obtain ⟨c, go', asks', -, hgo⟩ := h
      cases asks'.symm.trans asks
      obtain ⟨answer, -⟩ := Ask.exists_answer_of_pause hpause
      exact hgo answer ▸ hnext answer
  · intro hnext
    obtain ⟨b, go, asks, hpause, hgo⟩ := h
    exact .inr ⟨b, go, asks, hpause, fun answer => (hgo answer).symm ▸ hnext⟩

theorem asks_voting (p : BehaviourParams) (key : SecretKey) (v : Vote) :
    ((voting p v).step p key).ask? = some (.submit v) := rfl

/-! ## Searches -/

/-- A call that is made again and again, until its result brings something to vote for. -/
structure Search (α : Type) (p : BehaviourParams) (key : SecretKey) where
  call : External.Call
  /-- The calls that are made at most. -/
  limit : Nat
  /-- What a result brings, if it brings anything. -/
  find? : External.Result → Option α
  vote : α → Vote
  /-- The vote for giving up. -/
  fallback : Option Vote
  /-- The stage that makes the call after as many others. -/
  attempt : Nat → Stage
  /-- The stage after as many calls in vain. -/
  missed : Nat → Stage
  limit_pos : 0 < limit
  asks : ∀ k < limit, (attempt k).step p key =
    .ask (.call call) fun r => (find? r).elim (missed (k + 1)) fun x => voting p (vote x)
  pauses : ∀ k, 0 < k → k < limit → Pauses p key (missed k) (attempt k)
  gives_up : (fallback = none ∧ missed limit = idle) ∨
    ∃ v, fallback = some v ∧ Pauses p key (missed limit) (voting p v)

namespace Search

variable {α : Type} {R : Search α p key} {x : α}

/-- None of the results brings anything. -/
def Missed (R : Search α p key) (rs : List External.Result) : Prop := ∀ r ∈ rs, R.find? r = none

/-- The vote for the first thing that was found, or else for giving up after the last call. -/
def outcome? (R : Search α p key) (rs : List External.Result) : Option Vote :=
  ((rs.findSome? R.find?).map R.vote).or (if rs.length = R.limit then R.fallback else none)

theorem outcome?_of_missed (hm : R.Missed rs) :
    R.outcome? rs = if rs.length = R.limit then R.fallback else none := by
  unfold outcome?
  rw [List.findSome?_eq_none_iff.2 hm, Option.map_none, Option.none_or]

theorem outcome?_concat (hm : R.Missed rs) (hx : R.find? r = some x) :
    R.outcome? (rs ++ [r]) = some (R.vote x) := by
  unfold outcome?
  rw [List.findSome?_append, List.findSome?_eq_none_iff.2 hm, List.findSome?_singleton, hx]
  rfl

theorem outcome?_eq_some_iff : R.outcome? rs = some v ↔
    (∃ x, rs.findSome? R.find? = some x ∧ v = R.vote x) ∨
      (R.Missed rs ∧ rs.length = R.limit ∧ R.fallback = some v) := by
  unfold outcome?
  rw [Option.or_eq_some_iff, Option.map_eq_some_iff, Option.map_eq_none_iff,
    List.findSome?_eq_none_iff, Option.ite_none_right_eq_some]
  simp only [eq_comm (b := v), Missed]

theorem asks_attempt {k : Nat} (R : Search α p key) (hk : k < R.limit) :
    ((R.attempt k).step p key).ask? = some (.call R.call) := by
  rw [R.asks k hk]
  rfl

theorem heads_call {k : Nat} (R : Search α p key) (hpos : 0 < k) (hk : k < R.limit) :
    Heads (step p key) (R.missed k) (.call R.call) :=
  ((R.pauses k hpos hk).heads_iff rfl).2 (R.asks_attempt hk)

/-- Between two calls a search neither calls nor submits. -/
theorem ask?_missed_ne {k : Nat} (R : Search α p key) (hpos : 0 < k) (hle : k ≤ R.limit) :
    (∀ c, ((R.missed k).step p key).ask? ≠ some (.call c)) ∧
      ∀ v, ((R.missed k).step p key).ask? ≠ some (.submit v) := by
  rcases Nat.lt_or_eq_of_le hle with hlt | rfl
  · have hpauses := R.pauses k hpos hlt
    exact ⟨fun c => hpauses.ask?_ne rfl, fun v => hpauses.ask?_ne rfl⟩
  · rcases R.gives_up with ⟨-, hidle⟩ | ⟨w, -, hpauses⟩
    · rw [hidle]
      exact ⟨nofun, nofun⟩
    · exact ⟨fun c => hpauses.ask?_ne rfl, fun v => hpauses.ask?_ne rfl⟩

/-! ## Places -/

/-- Where a search is after some results, with the vote that it has submitted. -/
inductive At {α : Type} (R : Search α p key) : List External.Result → Option Vote → Stage → Prop
  | attempt {rs : List External.Result} (hm : R.Missed rs) (hlt : rs.length < R.limit) :
    R.At rs none (R.attempt rs.length)
  | missed {rs : List External.Result} (hm : R.Missed rs) (hpos : 0 < rs.length)
      (hle : rs.length ≤ R.limit) :
    R.At rs none (R.missed rs.length)
  | gaveUp {rs : List External.Result} {st : Stage} (hm : R.Missed rs)
      (hlen : rs.length = R.limit) (hs : Settled R.fallback st) :
    R.At rs R.fallback st
  | found {rs : List External.Result} {r : External.Result} {x : α} {st : Stage}
      (hm : R.Missed rs) (hlt : rs.length < R.limit) (hx : R.find? r = some x)
      (hs : Settled (some (R.vote x)) st) :
    R.At (rs ++ [r]) (some (R.vote x)) st

/-- A search is in a place where it has submitted what it had before, and what it submits next. -/
def Arrives (R : Search α p key) (rs : List External.Result) (v? : Option Vote) (st : Stage) :
    Prop :=
  ∃ w?, R.At rs w? st ∧ ∀ v, w? = some v ↔ v? = some v ∨ (st.step p key).ask? = some (.submit v)

/-- A call leads to the vote for what it brought, or to another place without a vote. -/
theorem arrives_call (hm : R.Missed rs) (hlt : rs.length < R.limit) (r : External.Result) :
    R.Arrives (rs ++ [r]) none ((R.find? r).elim (R.missed (rs.length + 1)) fun x =>
      voting p (R.vote x)) := by
  cases hx : R.find? r with
  | some x =>
    refine ⟨_, .found hm hlt hx (.submitting (Submitting.start p (R.vote x))), fun v => ?_⟩
    rw [Option.elim_some, asks_voting]
    simp
  | none =>
    have hm' : R.Missed (rs ++ [r]) :=
      List.forall_mem_append.2 ⟨hm, fun r' hr' => List.mem_singleton.1 hr' ▸ hx⟩
    have hlen : (rs ++ [r]).length = rs.length + 1 := List.length_append
    rw [Option.elim_none, ← hlen]
    refine ⟨none, .missed hm' (by omega) (by omega), fun v => ?_⟩
    have hne := (R.ask?_missed_ne (k := (rs ++ [r]).length) (by omega) (by omega)).2 v
    exact ⟨nofun, fun h => h.elim nofun fun hv => absurd hv hne⟩

/-- A pause with calls left leads to the next one. -/
theorem arrives_attempt (hm : R.Missed rs) (hlt : rs.length < R.limit) :
    R.Arrives rs none (R.attempt rs.length) := by
  refine ⟨none, .attempt hm hlt, fun v => ?_⟩
  rw [R.asks_attempt hlt]
  simp

/-- A pause after the last call leads to the vote for giving up. -/
theorem arrives_voting (hm : R.Missed rs) (hlen : rs.length = R.limit) (hv : R.fallback = some v) :
    R.Arrives rs none (voting p v) := by
  have hs : Settled R.fallback (voting p v) := hv ▸ .submitting (Submitting.start p v)
  refine ⟨R.fallback, .gaveUp hm hlen hs, fun w => ?_⟩
  rw [hv, asks_voting]
  simp

/-- A search that is settled stays where it is. -/
theorem arrives_of_settled (hs : Settled v? st) (hat : R.At rs v? st) : R.Arrives rs v? st :=
  ⟨v?, hat, fun _ => ⟨.inl, fun hv => hv.elim id fun hv => hs.eq_of_heads (.inl hv)⟩⟩

/-- **A search never leaves these places**, and submits the vote that belongs to its place. -/
theorem At.next (h : R.At rs v? st) (asks : st.step p key = .ask a resume) (answer : a.Answer) :
    R.Arrives (rs ++ (Exchange.result? ⟨a, answer⟩).toList) v? (resume answer) := by
  -- the only exchange with a result is that of an attempt
  have hquiet (ha : a.call? = none) : rs ++ (Exchange.result? ⟨a, answer⟩).toList = rs := by
    rw [Exchange.result?_of_call? ha, Option.toList_none, List.append_nil]
  cases h with
  | attempt hm hlt =>
    rw [R.asks _ hlt] at asks
    cases asks
    exact arrives_call hm hlt answer
  | missed hm hpos hle =>
    rcases Nat.lt_or_eq_of_le hle with hlt | hlen
    · obtain ⟨b, go, asks', hpause, hgo⟩ := R.pauses _ hpos hlt
      cases asks'.symm.trans asks
      rw [hquiet (Ask.call?_of_pause hpause), hgo answer]
      exact arrives_attempt hm hlt
    · rw [hlen] at asks
      rcases R.gives_up with ⟨hnone, hidle⟩ | ⟨v, hv, b, go, asks', hpause, hgo⟩
      · rw [hidle] at asks
        cases asks
        rw [hquiet rfl, ← hnone]
        have hs : Settled R.fallback (ended (.ok ())) := hnone ▸ .ended _
        exact arrives_of_settled hs (.gaveUp hm hlen hs)
      · cases asks'.symm.trans asks
        rw [hquiet (Ask.call?_of_pause hpause), hgo answer]
        exact arrives_voting hm hlen hv
  | gaveUp hm hlen hs =>
    obtain ⟨hcall, -, hkeeps⟩ := hs.of_asks asks
    rw [hquiet hcall]
    exact arrives_of_settled (hkeeps answer) (.gaveUp hm hlen (hkeeps answer))
  | found hm hlt hx hs =>
    obtain ⟨hcall, -, hkeeps⟩ := hs.of_asks asks
    rw [hquiet hcall]
    exact arrives_of_settled (hkeeps answer) (.found hm hlt hx (hkeeps answer))

/-- A search makes a call only as long as all were in vain and there is one left. -/
theorem At.of_call {c : External.Call} (h : R.At rs v? st)
    (hc : (st.step p key).ask? = some (.call c)) :
    c = R.call ∧ R.Missed rs ∧ rs.length < R.limit := by
  obtain ⟨go, asks⟩ := Step.ask?_eq_some.1 hc
  cases h with
  | attempt hm hlt =>
    rw [R.asks_attempt hlt] at hc
    cases hc
    exact ⟨rfl, hm, hlt⟩
  | missed hm hpos hle => exact absurd hc ((R.ask?_missed_ne hpos hle).1 c)
  | gaveUp hm hlen hs => cases (hs.of_asks asks).1
  | found hm hlt hx hs => cases (hs.of_asks asks).1

theorem At.length_le (h : R.At rs v? st) : rs.length ≤ R.limit := by
  cases h with
  | attempt hm hlt => exact Nat.le_of_lt hlt
  | missed hm hpos hle => exact hle
  | gaveUp hm hlen hs => exact Nat.le_of_eq hlen
  | found hm hlt hx hs =>
    rw [List.length_append]
    exact hlt

/-- A result that brings something is the last one. -/
theorem At.eq_nil {before after : List External.Result} (h : R.At rs v? st)
    (hrs : rs = before ++ r :: after) (hr : (R.find? r).isSome) : after = [] := by
  have hmem : r ∈ rs := hrs ▸ List.mem_append_right before List.mem_cons_self
  have hmissed (hm : R.Missed rs) : False := by
    rw [hm r hmem] at hr
    cases hr
  cases h with
  | attempt hm hlt => exact (hmissed hm).elim
  | missed hm hpos hle => exact (hmissed hm).elim
  | gaveUp hm hlen hs => exact (hmissed hm).elim
  | @found earlier last x st hm hlt hx hs =>
    -- were another one to follow, then this one would be among those in vain
    rcases List.eq_nil_or_concat after with hnil | ⟨rest, final, hafter⟩
    · exact hnil
    · rw [hafter, List.concat_eq_append, ← List.cons_append, ← List.append_assoc] at hrs
      have hearlier := (List.append_inj' hrs rfl).1
      rw [hm r (hearlier ▸ List.mem_append_right before List.mem_cons_self)] at hr
      cases hr

/-- As long as all calls were in vain and there is one left, a search heads for it. -/
theorem At.heads_call (h : R.At rs v? st) (hm : R.Missed rs) (hlt : rs.length < R.limit) :
    Heads (step p key) st (.call R.call) := by
  cases h with
  | attempt => exact .inl (R.asks_attempt hlt)
  | missed _ hpos _ => exact R.heads_call hpos hlt
  | gaveUp _ hlen _ => omega
  | found _ _ hx _ =>
    have hnone := hm _ List.mem_concat_self
    rw [hx] at hnone
    cases hnone

/-- What was submitted, or comes after a pause, is the vote for the results. -/
theorem At.due_iff (h : R.At rs v? st) (v : Vote) :
    (v? = some v ∨ Heads (step p key) st (.submit v)) ↔ R.outcome? rs = some v := by
  cases h with
  | attempt hm hlt =>
    rw [heads_iff_of_ask? (R.asks_attempt hlt) rfl, outcome?_of_missed hm,
      if_neg (Nat.ne_of_lt hlt)]
    simp
  | missed hm hpos hle =>
    rw [outcome?_of_missed hm]
    rcases Nat.lt_or_eq_of_le hle with hlt | hlen
    · rw [(R.pauses _ hpos hlt).heads_iff rfl, R.asks_attempt hlt, if_neg (Nat.ne_of_lt hlt)]
      simp
    · rw [hlen, if_pos rfl]
      rcases R.gives_up with ⟨hnone, hidle⟩ | ⟨w, hw, hpauses⟩
      · rw [hnone, hidle, heads_iff_of_ask? (a := .roundEnd none) rfl rfl]
        simp
      · rw [hw, hpauses.heads_iff rfl, asks_voting]
        simp
  | gaveUp hm hlen hs =>
    rw [outcome?_of_missed hm, if_pos hlen]
    exact ⟨fun h => h.elim id hs.eq_of_heads, .inl⟩
  | found hm hlt hx hs =>
    rw [outcome?_concat hm hx]
    exact ⟨fun h => h.elim id hs.eq_of_heads, .inl⟩

/-! ## Whole searches -/

/-- What holds after every dialogue: only the one call was made, and the search is in one of its
places, with all that it submitted. -/
def Kept (R : Search α p key) (es : List Exchange) (st : Stage) : Prop :=
  (∀ c ∈ calls (step p key) es st, c = R.call) ∧ ∃ v?, R.At (results es) v? st ∧
    ∀ v, .submit v ∈ requests (step p key) es st ↔ v? = some v

theorem kept_nil (R : Search α p key) : R.Kept [] (R.attempt 0) := by
  have hasks := R.asks_attempt R.limit_pos
  refine ⟨fun c hc => ?_, none, .attempt nofun R.limit_pos, fun v => ?_⟩
  · rw [calls, requests_nil, hasks] at hc
    exact List.mem_singleton.1 hc
  · rw [requests_nil, hasks]
    simp

/-- One exchange keeps it. -/
theorem Kept.next (h : R.Kept es st) (asks : st.step p key = .ask a resume) (answer : a.Answer) :
    R.Kept (es ++ [⟨a, answer⟩]) (resume answer) := by
  obtain ⟨hcalls, v?, hat, hsubmits⟩ := h
  obtain ⟨w?, hat', hiff⟩ := hat.next asks answer
  rw [← results_concat] at hat'
  refine ⟨fun c hc => ?_, w?, hat', fun v => ?_⟩
  · rw [calls, requests_concat asks, List.filterMap_append, List.mem_append] at hc
    refine hc.elim (hcalls c) fun hnow => ?_
    obtain ⟨b, hb, hbc⟩ := List.mem_filterMap.1 hnow
    rw [Ask.eq_call_of_call? hbc] at hb
    exact (hat'.of_call (Option.mem_toList.1 hb)).1
  · rw [requests_concat asks, List.mem_append, hsubmits, Option.mem_toList]
    exact (hiff v).symm

/-- So it holds after every dialogue, however long and with whatever answers. -/
theorem kept (h : Dialogue (step p key) (R.attempt 0) es st) : R.Kept es st :=
  h.keeps R.kept_nil fun hkept asks answer => hkept.next asks answer

/-- **The calls of a search.** -/
theorem tries (h : Dialogue (step p key) (R.attempt 0) es st) :
    Tries R.call R.limit (fun r => (R.find? r).isSome) (step p key) es st := by
  obtain ⟨hcalls, v?, hat, -⟩ := kept h
  have hof (hc : (st.step p key).ask?.any fun a => a.call?.isSome) :
      R.Missed (results es) ∧ (results es).length < R.limit := by
    obtain ⟨b, hb, hcall⟩ := (Option.any_eq_true _ _).1 hc
    obtain ⟨c, hcall⟩ := Option.isSome_iff_exists.1 hcall
    rw [Ask.eq_call_of_call? hcall] at hb
    exact (hat.of_call hb).2
  refine ⟨hcalls, ?_, fun before r after hrs hr => ⟨hat.eq_nil hrs hr, ?_⟩, fun hnone hlt => ?_⟩
  · -- a call that waits for its result is one more than the results, but then there was one left
    rw [length_calls]
    split_ifs with hc
    · exact (hof hc).2
    · exact hat.length_le
  · rw [length_calls, if_neg, Nat.add_zero]
    intro hc
    rw [(hof hc).1 r (hrs ▸ List.mem_append_right before List.mem_cons_self)] at hr
    cases hr
  · refine hat.heads_call (fun r hr => Option.not_isSome_iff_eq_none.1 ?_) hlt
    rw [hnone r hr]
    nofun

/-- **What a search votes for**: the vote for its results, and nothing else. -/
theorem due_iff (h : Dialogue (step p key) (R.attempt 0) es st) (v : Vote) :
    Due (step p key) es st (.submit v) ↔ R.outcome? (results es) = some v := by
  obtain ⟨-, v?, hat, hsubmits⟩ := kept h
  rw [← hat.due_iff, Due, hsubmits]

/-- As long as all calls were in vain and there is one left, any result can come next. -/
theorem exists_result (h : Dialogue (step p key) (R.attempt 0) es st) (hm : R.Missed (results es))
    (hlt : (results es).length < R.limit) (r : External.Result) :
    ∃ es' st', Dialogue (step p key) st es' st' ∧ results es' = [r] := by
  obtain ⟨-, v?, hat, -⟩ := kept h
  obtain ⟨pause, st₁, hpause, hask, hnone⟩ := (hat.heads_call hm hlt).dialogue
  obtain ⟨resume, asks⟩ := Step.ask?_eq_some.1 hask
  refine ⟨_, _, hpause.trans (.single asks r), ?_⟩
  rw [results_append, hnone]
  rfl

/-- So it can still come to a vote. -/
theorem exists_submits (hx : R.find? r = some x) (h : Dialogue (step p key) (R.attempt 0) es st)
    (hm : R.Missed (results es)) (hlt : (results es).length < R.limit) :
    ∃ es' st', Dialogue (step p key) st es' st' ∧
      .submit (R.vote x) ∈ requests (step p key) (es ++ es') st' := by
  obtain ⟨called, st₁, hcalled, hr⟩ := exists_result h hm hlt r
  have hdue : Due (step p key) (es ++ called) st₁ (.submit (R.vote x)) := by
    rw [due_iff (h.trans hcalled), results_append, hr, outcome?_concat hm hx]
  obtain ⟨es', st', hrest, hmem⟩ := hdue.dialogue
  exact ⟨_, st', hcalled.trans hrest, List.append_assoc .. ▸ hmem⟩

/-- **When a search never submits anything**, whatever it is answered from now on: after all of its
calls in vain, if there is no vote for giving up. -/
theorem silent_iff (hx : R.find? r = some x) (h : Dialogue (step p key) (R.attempt 0) es st) :
    (∀ es' st', Dialogue (step p key) st es' st' →
        ∀ v, .submit v ∉ requests (step p key) (es ++ es') st') ↔
      R.fallback = none ∧ (results es).length = R.limit ∧ R.Missed (results es) := by
  constructor
  · intro hsilent
    have houtcome : R.outcome? (results es) = none := by
      rw [Option.eq_none_iff_forall_ne_some]
      intro v hv
      obtain ⟨es', st', hd, hmem⟩ := ((due_iff h v).2 hv).dialogue
      exact hsilent es' st' hd v hmem
    obtain ⟨hfirst, hgaveUp⟩ := Option.or_eq_none_iff.1 houtcome
    have hm : R.Missed (results es) :=
      List.findSome?_eq_none_iff.1 (Option.map_eq_none_iff.1 hfirst)
    have hlen : (results es).length = R.limit := by
      obtain ⟨-, v?, hat, -⟩ := kept h
      refine (Nat.lt_or_eq_of_le hat.length_le).resolve_left fun hlt => ?_
      obtain ⟨es', st', hd, hmem⟩ := exists_submits hx h hm hlt
      exact hsilent es' st' hd _ hmem
    exact ⟨by rwa [if_pos hlen] at hgaveUp, hlen, hm⟩
  · rintro ⟨hfallback, hlen, hm⟩ es' st' hd v hmem
    -- no calls are left, so nothing that comes can be a result
    have hno : results es' = [] := by
      obtain ⟨-, v?, hat, -⟩ := kept (h.trans hd)
      have hle := hat.length_le
      rw [results_append, List.length_append] at hle
      exact List.length_eq_zero_iff.1 (by omega)
    have hdue := (due_iff (h.trans hd) v).1 (.inl hmem)
    rw [results_append, hno, List.append_nil, outcome?_of_missed hm, hfallback, ite_self] at hdue
    cases hdue

/-- **Any results can come in turn**, as many as there are calls, up to the first one that brings
something. -/
theorem exists_dialogue {rs : List External.Result} (hm : R.Missed rs.dropLast)
    (hle : rs.length ≤ R.limit) :
    ∃ es st, Dialogue (step p key) (R.attempt 0) es st ∧ results es = rs := by
  induction rs using List.reverseRecOn with
  | nil => exact ⟨[], _, .nil _, rfl⟩
  | append_singleton rs r ih =>
    rw [List.dropLast_concat] at hm
    rw [List.length_append] at hle
    obtain ⟨es, st, hd, rfl⟩ := ih (fun r' hr' => hm r' (List.dropLast_subset rs hr'))
      (Nat.le_of_succ_le hle)
    obtain ⟨es', st', hd', hr⟩ := exists_result hd hm hle r
    exact ⟨_, st', hd.trans hd', by rw [results_append, hr]⟩

/-! ## The two behaviours -/

theorem queried_eq (p : BehaviourParams) (tx : TxHash) (attempt : Nat) (r : External.Result) :
    queried p tx attempt r = r.receipt?.elim (queryPause tx attempt) fun receipt =>
      voting p (.validate (some (receipt.success && receipt.tx = tx))) := by
  match r with
  | .ok (.receipt (some _)) => rfl
  | .ok (.receipt none) | .ok (.read _) | .ok (.sent _) | .ok (.randomness _) | .error _ => rfl

/-- Looking for the receipt of a transaction. -/
def validation (p : BehaviourParams) (key : SecretKey) (tx : TxHash) :
    Search External.Receipt p key where
  call := .receipt tx
  limit := p.retryAttempts
  find? := External.Result.receipt?
  vote receipt := .validate (some (receipt.success && receipt.tx = tx))
  fallback := some (.validate none)
  attempt k := querying tx (k + 1)
  missed k := queryPause tx k
  limit_pos := p.retryAttempts_pos
  asks k _ := congrArg (Step.ask (.call (.receipt tx))) (funext (queried_eq p tx (k + 1)))
  pauses _ _ hk := ⟨_, _, rfl, rfl, fun _ => if_pos hk⟩
  gives_up := .inr ⟨_, rfl, _, _, rfl, rfl, fun _ => if_neg (Nat.lt_irrefl _)⟩

/-- The beacon failed, and there are so many retries left. -/
def unobserved : Nat → Stage
  | 0 => idle
  | retries + 1 => observePause retries

theorem observed_eq (p : BehaviourParams) (retries : Nat) (r : External.Result) :
    observed p retries r = r.observation?.elim (unobserved retries) fun o =>
      voting p (.randomness o.round o.value) := by
  match r, retries with
  | .ok (.randomness _), _ => rfl
  | .ok (.read _), 0 | .ok (.sent _), 0 | .ok (.receipt _), 0 | .error _, 0 => rfl
  | .ok (.read _), _ + 1 | .ok (.sent _), _ + 1 | .ok (.receipt _), _ + 1 | .error _, _ + 1 => rfl

/-- Looking at the beacon. The first look is not a retry. -/
def observation (p : BehaviourParams) (key : SecretKey) : Search External.Observation p key where
  call := .randomness
  limit := p.retryAttempts + 1
  find? := External.Result.observation?
  vote o := .randomness o.round o.value
  fallback := none
  attempt k := observing (p.retryAttempts - k)
  missed k := unobserved (p.retryAttempts + 1 - k)
  limit_pos := Nat.succ_pos _
  asks k _ := by
    rw [Nat.add_sub_add_right]
    exact congrArg (Step.ask (.call .randomness)) (funext (observed_eq p _))
  pauses _ _ hk := by
    rw [Nat.succ_sub (Nat.le_of_lt_succ hk)]
    exact ⟨_, _, rfl, rfl, fun _ => rfl⟩
  gives_up := .inl ⟨rfl, by rw [Nat.sub_self]; rfl⟩

end Search

/-- **Asking is bounded, and what is voted for is what was answered.** Who validates a transaction
asks for its receipt at most as often as there are attempts, votes for what the first receipt says,
and votes for no result exactly after all attempts in vain. Who looks at the beacon does so once
more than there are retries, votes for the first observation, and submits nothing exactly after all
looks in vain. The answers can be any, and the dialogue can be at any point. -/
theorem bounded_retries_vote_right (p : BehaviourParams) (key : SecretKey) :
    (∀ (s : Snapshot) (tx : TxHash) (es : List Exchange) (st : Stage), s.finalTx = .ok tx →
      Dialogue (step p key) (start p .validateTransaction) (⟨.snapshot, s⟩ :: es) st →
        Tries (.receipt tx) p.retryAttempts (·.receipt?.isSome) (step p key) es st ∧
        (∀ valid, Due (step p key) es st (.submit (.validate (some valid))) ↔
          ∃ receipt, (results es).findSome? External.Result.receipt? = some receipt ∧
            valid = (receipt.success && receipt.tx = tx)) ∧
        (Due (step p key) es st (.submit (.validate none)) ↔
          (results es).length = p.retryAttempts ∧ ∀ r ∈ results es, r.receipt? = none) ∧
        ∀ v, Due (step p key) es st (.submit v) → ∃ verdict, v = .validate verdict) ∧
    ∀ (es : List Exchange) (st : Stage),
      Dialogue (step p key) (start p .randomness) es st →
        Tries .randomness (p.retryAttempts + 1) (·.observation?.isSome) (step p key) es st ∧
        (∀ v, Due (step p key) es st (.submit v) ↔
          ∃ o, (results es).findSome? External.Result.observation? = some o ∧
            v = .randomness o.round o.value) ∧
        ((∀ es' st', Dialogue (step p key) st es' st' →
            ∀ v, .submit v ∉ requests (step p key) (es ++ es') st') ↔
          (results es).length = p.retryAttempts + 1 ∧ ∀ r ∈ results es, r.observation? = none) := by
  constructor
  · intro s tx es st htx h
    have hsearch : Dialogue (step p key) ((Search.validation p key tx).attempt 0) es st := by
      cases h with
      | cons asks _ rest =>
        cases asks
        dsimp only at rest
        rwa [htx] at rest
    have hdue (v : Vote) := (Search.due_iff hsearch v).trans Search.outcome?_eq_some_iff
    refine ⟨Search.tries hsearch, fun valid => ?_, ?_, fun v hv => ?_⟩
    · rw [hdue]
      constructor
      · rintro (⟨receipt, hfirst, hvote⟩ | ⟨-, -, hvote⟩)
        · cases hvote
          exact ⟨receipt, hfirst, rfl⟩
        · cases hvote
      · rintro ⟨receipt, hfirst, rfl⟩
        exact .inl ⟨receipt, hfirst, rfl⟩
    · rw [hdue]
      constructor
      · rintro (⟨receipt, -, hvote⟩ | ⟨hm, hlen, -⟩)
        · cases hvote
        · exact ⟨hlen, hm⟩
      · rintro ⟨hlen, hm⟩
        exact .inr ⟨hm, hlen, rfl⟩
    · rcases (hdue v).1 hv with ⟨receipt, -, hvote⟩ | ⟨-, -, hvote⟩
      · exact ⟨_, hvote⟩
      · exact ⟨none, (Option.some.inj hvote).symm⟩
  · intro es st h
    have hsearch : Dialogue (step p key) ((Search.observation p key).attempt 0) es st := h
    refine ⟨Search.tries hsearch, fun v => ?_, ?_⟩
    · rw [Search.due_iff hsearch, Search.outcome?_eq_some_iff]
      exact or_iff_left fun ⟨_, _, hvote⟩ => nomatch hvote
    · -- any observation will do to see that the search could still come to a vote
      have hfind : (Search.observation p key).find? (.ok (.randomness ⟨0, default⟩)) =
          some ⟨0, default⟩ := rfl
      rw [Search.silent_iff hfind hsearch]
      exact and_iff_right rfl

/-- Two attempts. -/
def twice : BehaviourParams := BehaviourParams.standard.withAttempts 2 1

/-- The transaction that was sent. -/
def awaited : TxHash := Octets.fill 7

/-- Agreed data with that transaction. -/
def finalized : Snapshot :=
  ⟨Counter.zero, SortedMap.empty.insert Snapshot.Key.finalTx (Wire.encode awaited)⟩

/-- No answer in time, and then no receipt. -/
def unanswered : List Exchange :=
  [⟨.call (.receipt awaited), .error .timeout⟩, ⟨.sleep 250, ()⟩,
    ⟨.call (.receipt awaited), .ok (.receipt none)⟩]

/-- The beacon fails, and then it shows something. -/
def recovered : List Exchange :=
  [⟨.call .randomness, .error (.failed "down")⟩, ⟨.pause 250 none, true⟩,
    ⟨.call .randomness, .ok (.randomness ⟨3, Octets.fill 1⟩)⟩]

/-- Two queries in vain are enough for a vote, and so is the first observation. -/
theorem bounded_retries_vote_right_of_twice :
    (Dialogue (step twice Octets.zero) (start twice .validateTransaction)
        (⟨.snapshot, finalized⟩ :: unanswered) (queryPause awaited 2) ∧
      Due (step twice Octets.zero) unanswered (queryPause awaited 2) (.submit (.validate none))) ∧
    Dialogue (step twice Octets.zero) (start twice .randomness) recovered
        (voting twice (.randomness 3 (Octets.fill 1))) ∧
      Due (step twice Octets.zero) recovered (voting twice (.randomness 3 (Octets.fill 1)))
        (.submit (.randomness 3 (Octets.fill 1))) := by
  obtain ⟨hvalidates, hobserves⟩ := bounded_retries_vote_right twice Octets.zero
  have hvalidation : Dialogue (step twice Octets.zero) (start twice .validateTransaction)
      (⟨.snapshot, finalized⟩ :: unanswered) (queryPause awaited 2) :=
    .cons rfl _ (.cons rfl _ (.cons rfl _ (.cons rfl _ (.nil _))))
  have hobservation : Dialogue (step twice Octets.zero) (start twice .randomness) recovered
      (voting twice (.randomness 3 (Octets.fill 1))) :=
    .cons rfl _ (.cons rfl _ (.cons rfl _ (.nil _)))
  obtain ⟨-, -, hnone, -⟩ := hvalidates finalized awaited unanswered _ rfl hvalidation
  obtain ⟨-, hsome, -⟩ := hobserves recovered _ hobservation
  exact ⟨⟨hvalidation, hnone.2 ⟨rfl, by decide⟩⟩, hobservation, (hsome _).2 ⟨_, rfl, rfl⟩⟩

end Stage

end Quorum
