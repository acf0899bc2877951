import Mathlib.Data.List.Induction
import Mathlib.Tactic.SplitIfs
import Quorum.Behaviour.Stage
import Quorum.Proofs.Behaviour.Reading
import Quorum.Proofs.Data.Transcript
import Quorum.Proofs.Wire.Agreed

/-!
# What submitting until the round ends comes to

The work of submitting a vote, step by step. In between, anything can happen in any order: the gateway
answers when it likes and what it likes, and any round information is published. Time passes only
when the work has to wait, as everything that is due at an instant happens before it is over.

* `Effort`, `Happening` : the work with all that it can reach, and what can happen to it;
* `Deed`, `Entry` : what others see of it, and what is put down of everything that happens;
* `happen?` : the work after something that happened;
* `Advances`, `advances_of` : all that a step can be;
* `Signs`, `Paces`, `Returns`, `GoesOn` : what is submitted, how often, when the work returns, and that
  failures do not stop it, each kept by every step (`steady_insists`);
* `insists_until_round_ends` : so all of that holds of everything that can happen;
* `leads_poll`, `poll_ofBehaviour` : tasks, and behaviours that submit a vote, do nothing else.
-/

namespace Quorum

/-! ## After a submission that did not end the round -/

theorem Submitting.phase_again (p : BehaviourParams) (s : Submitting) :
    (s.again p).phase = .send ∨ (s.again p).phase = .rest := by
  unfold Submitting.again
  split_ifs
  · exact .inl rfl
  · exact .inr rfl

theorem Submitting.phase_again_ne_ended (p : BehaviourParams) (s : Submitting) :
    (s.again p).phase ≠ .ended := by
  rcases s.phase_again p with h | h <;> rw [h] <;> nofun

theorem Submitting.vote_again (p : BehaviourParams) (s : Submitting) : (s.again p).vote = s.vote := by
  unfold Submitting.again
  split_ifs <;> rfl

theorem Submitting.attempt_again {p : BehaviourParams} (s : Submitting) (hpos : 0 < s.attempt)
    (hle : s.attempt ≤ p.submitAttempts) :
    0 < (s.again p).attempt ∧ (s.again p).attempt ≤ p.submitAttempts := by
  unfold Submitting.again
  split_ifs with hlt
  · exact ⟨Nat.succ_pos _, hlt⟩
  · exact ⟨hpos, hle⟩

/-- The work of submitting a vote, and all that it can reach. -/
structure Effort where
  actor : Actor
  work : Submitting
  waiting : Option Waiting
  site : Site

namespace Effort

/-! ## Steps -/

/-- What can happen. -/
inductive Happening where
  /-- The work makes its next request, or goes on with what it waited for. -/
  | proceeds
  /-- The gateway answers a submission, and what has become of it. -/
  | answers (r : Except GatewayError Height) (g : Gateway)
  /-- Where the application is gets published. -/
  | publishes (i : RoundInfo)
  /-- The pauses to come are drawn out by another amount. -/
  | drawsOut (jitter : Nat)
  /-- A millisecond passes, and the work could not have gone on before it is over. -/
  | ticks

/-- What the work does for others to see. -/
inductive Deed where
  | submits (s : Submission)
  | rests
  | returns
  deriving DecidableEq

/-- What a request does for others to see. -/
def deed? (actor : Actor) : Ask → Option Deed
  | .submit v => some (.submits (actor.sign v))
  | .sleep _ => some .rests
  | _ => none

/-- Something that happened, and how things are after it. -/
structure Entry where
  happening : Happening
  deed : Option Deed
  now : Instant
  info : RoundInfo
  phase : SubmitPhase

/-- What happened, and how things are now. -/
def entry (e : Effort) (x : Happening) (deed : Option Deed) : Entry :=
  ⟨x, deed, e.site.now, e.site.info, e.work.phase⟩

variable {p : BehaviourParams} {e e' : Effort} {x : Happening} {deed : Option Deed} {es : List Entry}
  {d : Entry}

/-- A request, or the stage after the answer to one. Submissions are answered by the gateway alone. -/
def proceed? (p : BehaviourParams) (e : Effort) : Option (Effort × Option Deed) :=
  match e.work.step p, e.waiting with
  | .done _, _ => none
  | .ask a _, none =>
    let (w, site) := a.begin e.actor e.site
    some ({ e with waiting := some w, site }, deed? e.actor a)
  | .ask (.submit _) _, some _ => none
  | .ask a resume, some w =>
    (a.answer? e.actor w e.site).map fun (answer, site) =>
      ({ e with work := resume answer, waiting := none, site },
        if (resume answer).phase = .ended then some .returns else none)

/-- The stage after an answer of the gateway. -/
def answered? (p : BehaviourParams) (r : Except GatewayError Height) (g : Gateway) (e : Effort) :
    Option Effort :=
  match e.work.step p, e.waiting with
  | .ask (.submit _) resume, some _ =>
    some { e with work := resume r, waiting := none, site := { e.site with gateway := g } }
  | _, _ => none

/-- What something leads to, if it can happen. The work is assumed to be prompt: no time passes while
it can go on. So what is due at an instant still happens at that instant, whenever a task looks at
it; a clock that moves on over a task that could go on is left out. -/
def advance? (p : BehaviourParams) (e : Effort) : Happening → Option (Effort × Option Deed)
  | .proceeds => e.proceed? p
  | .answers r g => (e.answered? p r g).map (·, none)
  | .publishes i => some ({ e with site := { e.site with info := i } }, none)
  | .drawsOut jitter =>
    let work := { e.work with backoff := { e.work.backoff with jitter } }
    if e.waiting = none then some ({ e with work }, none) else none
  | .ticks =>
    let site := { e.site with now := e.site.now + 1 }
    if (e.proceed? p).isSome then none else some ({ e with site }, none)

/-- What something leads to, with the entry that is put down. -/
def happen? (p : BehaviourParams) (e : Effort) (x : Happening) : Option (Effort × Entry) :=
  (e.advance? p x).map fun (e', deed) => (e', e'.entry x deed)

/-- Before anything is done. -/
def start (p : BehaviourParams) (actor : Actor) (vote : Vote) (site : Site) : Effort :=
  ⟨actor, Submitting.start p vote, none, site⟩

/-! ## What a step can be -/

/-- All that can happen, by where the work is. -/
inductive Advances (p : BehaviourParams) (e : Effort) : Happening → Effort → Option Deed → Prop
  | submits (hphase : e.work.phase = .send) (hw : e.waiting = none) :
    Advances p e .proceeds { e with waiting := some ⟨e.site.now, none⟩ }
      (some (.submits (e.actor.sign e.work.vote)))
  | awaits (hphase : e.work.phase = .await) (hw : e.waiting = none) :
    Advances p e .proceeds { e with waiting := some ⟨e.site.now, none⟩ } none
  | rests (hphase : e.work.phase = .rest) (hw : e.waiting = none) :
    Advances p e .proceeds { e with waiting := some ⟨e.site.now, none⟩ } (some .rests)
  | returns (hphase : e.work.phase = .await) {w : Waiting} (hw : e.waiting = some w)
      (hended : Ask.roundEnded e.actor e.site.info = true) :
    Advances p e .proceeds { e with work := { e.work with phase := .ended }, waiting := none }
      (some .returns)
  | timesOut (hphase : e.work.phase = .await) {w : Waiting} (hw : e.waiting = some w) :
    Advances p e .proceeds { e with work := e.work.again p, waiting := none } none
  | wakes (hphase : e.work.phase = .rest) {w : Waiting} (hw : e.waiting = some w) :
    Advances p e .proceeds { e with work := e.work.rested, waiting := none } none
  | accepted (hphase : e.work.phase = .send) {w : Waiting} (hw : e.waiting = some w)
      (height : Height) (g : Gateway) :
    Advances p e (.answers (.ok height) g)
      { e with work := { e.work with phase := .await }, waiting := none,
               site := { e.site with gateway := g } } none
  | refused (hphase : e.work.phase = .send) {w : Waiting} (hw : e.waiting = some w)
      (err : GatewayError) (g : Gateway) :
    Advances p e (.answers (.error err) g)
      { e with work := e.work.again p, waiting := none,
               site := { e.site with gateway := g } } none
  | publishes (i : RoundInfo) :
    Advances p e (.publishes i) { e with site := { e.site with info := i } } none
  | drawsOut (hw : e.waiting = none) (jitter : Nat) :
    Advances p e (.drawsOut jitter)
      { e with work := { e.work with backoff := { e.work.backoff with jitter } } } none
  /-- Who waits for the round to end does so for the inclusion timeout at most. -/
  | ticks (hdue : e.work.phase = .await →
        ∃ w, e.waiting = some w ∧ e.site.now < w.since + p.inclusionTimeout) :
    Advances p e .ticks { e with site := { e.site with now := e.site.now + 1 } } none

theorem proceeds_of (hp : e.proceed? p = some (e', deed)) : Advances p e .proceeds e' deed := by
  obtain ⟨actor, ⟨vote, attempt, backoff, phase⟩, waiting, site⟩ := e
  cases phase with
  | send =>
    cases waiting with
    | none =>
      cases hp
      exact .submits rfl rfl
    | some w => cases hp
  | await =>
    cases waiting with
    | none =>
      cases hp
      exact .awaits rfl rfl
    | some w =>
      obtain ⟨⟨answer, site'⟩, ha, heq⟩ := Option.map_eq_some_iff.1 hp
      obtain ⟨hanswer, rfl⟩ := Ask.eq_of_awaiting ha
      cases answer with
      | true =>
        cases heq
        exact .returns rfl rfl hanswer.symm
      | false =>
        have hphase := Submitting.phase_again_ne_ended p ⟨vote, attempt, backoff, .await⟩
        simp only [Submitting.awaited, Bool.false_eq_true, if_false, if_neg hphase] at heq
        cases heq
        exact .timesOut rfl rfl
  | rest =>
    cases waiting with
    | none =>
      cases hp
      exact .rests rfl rfl
    | some w =>
      obtain ⟨⟨answer, site'⟩, ha, heq⟩ := Option.map_eq_some_iff.1 hp
      have hsite : site' = site := by
        simp only [Ask.answer?] at ha
        split_ifs at ha
        cases ha
        rfl
      cases heq
      cases hsite
      exact .wakes rfl rfl
  | ended => cases hp

/-- A wait for the end of the round that cannot go on has time left. -/
theorem due_of_proceed? (hp : e.proceed? p = none) (hphase : e.work.phase = .await) :
    ∃ w, e.waiting = some w ∧ e.site.now < w.since + p.inclusionTimeout := by
  obtain ⟨actor, ⟨vote, attempt, backoff, phase⟩, waiting, site⟩ := e
  cases hphase
  cases waiting with
  | none => cases hp
  | some w =>
    have ha := Option.map_eq_none_iff.1 hp
    simp only [Ask.answer?, Ask.awaiting] at ha
    split_ifs at ha with hended hexpired
    simp only [Ask.expired, Option.any_some, decide_eq_true_eq] at hexpired
    exact ⟨w, rfl, Nat.lt_of_not_le hexpired⟩

/-- **Nothing else can happen.** -/
theorem advances_of (ha : e.advance? p x = some (e', deed)) : Advances p e x e' deed := by
  cases x with
  | proceeds => exact proceeds_of ha
  | answers r g =>
    obtain ⟨e₁, hr, heq⟩ := Option.map_eq_some_iff.1 ha
    cases heq
    obtain ⟨actor, ⟨vote, attempt, backoff, phase⟩, waiting, site⟩ := e
    cases waiting with
    | none => cases phase <;> cases hr
    | some w =>
      cases phase with
      | send =>
        cases r with
        | ok height =>
          cases hr
          exact .accepted rfl rfl height g
        | error err =>
          cases hr
          exact .refused rfl rfl err g
      | _ => cases hr
  | publishes i =>
    cases ha
    exact .publishes i
  | drawsOut jitter =>
    simp only [advance?] at ha
    split_ifs at ha with hw
    cases ha
    exact .drawsOut hw jitter
  | ticks =>
    simp only [advance?] at ha
    split_ifs at ha with hp
    cases ha
    exact .ticks (due_of_proceed? (Option.not_isSome_iff_eq_none.1 hp))

/-! ## What is submitted -/

/-- The work is still for the same actor and vote, and only that was submitted. -/
structure Signs (actor : Actor) (vote : Vote) (e : Effort) (es : List Entry) : Prop where
  actor_eq : e.actor = actor
  vote_eq : e.work.vote = vote
  signed : ∀ d ∈ es, ∀ s, d.deed = some (.submits s) → s = actor.sign vote

variable {actor : Actor} {vote : Vote}

theorem Signs.advance (hs : Signs actor vote e es) (ha : Advances p e x e' deed) :
    Signs actor vote e' (es ++ [e'.entry x deed]) where
  actor_eq := by cases ha <;> exact hs.actor_eq
  vote_eq := by
    cases ha with
    | timesOut => exact (e.work.vote_again p).trans hs.vote_eq
    | refused => exact (e.work.vote_again p).trans hs.vote_eq
    | _ => exact hs.vote_eq
  signed d hd s hsub := by
    rcases List.mem_append.1 hd with hd | hd
    · exact hs.signed d hd s hsub
    · rw [List.mem_singleton.1 hd] at hsub
      cases ha with
      | submits =>
        cases hsub
        rw [hs.actor_eq, hs.vote_eq]
      | _ => cases hsub

/-! ## How often -/

/-- Whether something was submitted. -/
def Entry.submits (d : Entry) : Bool :=
  match d.deed with
  | some (.submits _) => true
  | _ => false

/-- The submissions since the last pause, with one more entry. -/
def Entry.count (n : Nat) (d : Entry) : Nat :=
  match d.deed with
  | some (.submits _) => n + 1
  | some .rests => 0
  | _ => n

/-- The submissions since the last pause. -/
def recent (es : List Entry) : Nat := es.foldl Entry.count 0

theorem recent_concat (es : List Entry) (d : Entry) : recent (es ++ [d]) = d.count (recent es) := by
  unfold recent
  rw [List.foldl_append]
  rfl

/-- Only a pause makes submissions old. -/
theorem Entry.count_eq (hd : d.deed ≠ some .rests) (n : Nat) :
    d.count n = n + [d].countP Entry.submits := by
  obtain ⟨happening, deed, now, info, phase⟩ := d
  cases deed with
  | none => rfl
  | some deed =>
    cases deed with
    | rests => exact absurd rfl hd
    | _ => rfl

/-- So between two pauses all submissions are recent ones. -/
theorem countP_submits_le (before mid : List Entry) (hmid : ∀ d ∈ mid, d.deed ≠ some .rests) :
    mid.countP Entry.submits ≤ recent (before ++ mid) := by
  induction mid using List.reverseRecOn with
  | nil => exact Nat.zero_le _
  | append_singleton mid d ih =>
    rw [← List.append_assoc, recent_concat, Entry.count_eq (hmid d List.mem_concat_self),
      List.countP_append]
    exact Nat.add_le_add_right (ih fun d hd => hmid d (List.mem_append_left _ hd)) _

/-- The submissions that the work has counted since the last pause. -/
def used (work : Submitting) (waiting : Option Waiting) : Nat :=
  match work.phase, waiting with
  | .send, none => work.attempt - 1
  | .rest, some _ => 0
  | _, _ => work.attempt

theorem used_le (work : Submitting) (waiting : Option Waiting) : used work waiting ≤ work.attempt := by
  unfold used
  split
  · exact Nat.sub_le _ _
  · exact Nat.zero_le _
  · exact Nat.le_refl _

theorem used_again (work : Submitting) : used (work.again p) none = work.attempt := by
  unfold Submitting.again
  split_ifs <;> rfl

theorem Advances.attempt_bounds (ha : Advances p e x e' deed) (hpos : 0 < e.work.attempt)
    (hle : e.work.attempt ≤ p.submitAttempts) :
    0 < e'.work.attempt ∧ e'.work.attempt ≤ p.submitAttempts := by
  cases ha with
  | timesOut | refused => exact e.work.attempt_again hpos hle
  | wakes => exact ⟨Nat.one_pos, p.submitAttempts_pos⟩
  | _ => exact ⟨hpos, hle⟩

/-- The work counts every submission. -/
theorem Advances.count_le_used {n : Nat} (ha : Advances p e x e' deed) (hpos : 0 < e.work.attempt)
    (hn : n ≤ used e.work e.waiting) : (e'.entry x deed).count n ≤ used e'.work e'.waiting := by
  cases ha with
  | submits hphase hw =>
    simp only [used, hphase, hw] at hn ⊢
    show n + 1 ≤ _
    omega
  | awaits hphase hw | returns hphase hw =>
    simp only [used, hphase, hw] at hn ⊢
    exact hn
  | rests => exact Nat.zero_le _
  | timesOut | refused =>
    rw [used_again]
    exact Nat.le_trans hn (used_le ..)
  | wakes hphase hw =>
    simp only [used, hphase, hw] at hn
    exact hn
  | accepted => exact Nat.le_trans hn (used_le ..)
  | publishes | drawsOut | ticks => exact hn

/-- The work counts its submissions, and there are never too many without a pause. -/
structure Paces (p : BehaviourParams) (e : Effort) (es : List Entry) : Prop where
  pos : 0 < e.work.attempt
  le : e.work.attempt ≤ p.submitAttempts
  recent_le : recent es ≤ used e.work e.waiting
  peak : ∀ before, before <+: es → recent before ≤ p.submitAttempts

theorem Paces.advance (hs : Paces p e es) (ha : Advances p e x e' deed) :
    Paces p e' (es ++ [e'.entry x deed]) := by
  obtain ⟨hpos, hle⟩ := ha.attempt_bounds hs.pos hs.le
  have hrecent : recent (es ++ [e'.entry x deed]) ≤ used e'.work e'.waiting := by
    rw [recent_concat]
    exact ha.count_le_used hs.pos hs.recent_le
  refine ⟨hpos, hle, hrecent, fun before hbefore => ?_⟩
  rcases List.prefix_concat_iff.1 hbefore with rfl | hbefore
  · exact Nat.le_trans hrecent (Nat.le_trans (used_le ..) hle)
  · exact hs.peak before hbefore

/-! ## When it returns -/

/-- The last submission was acknowledged, at an instant. -/
def Acknowledged (es : List Entry) (t : Instant) : Prop :=
  ∃ before ack after, es = before ++ ack :: after ∧
    (∃ height g, ack.happening = .answers (.ok height) g) ∧ ack.now = t ∧
      ∀ d ∈ after, d.submits = false

theorem Acknowledged.concat {t : Instant} (hs : Acknowledged es t) (hd : d.submits = false) :
    Acknowledged (es ++ [d]) t := by
  obtain ⟨before, ack, after, rfl, hack, hnow, hafter⟩ := hs
  refine ⟨before, ack, after ++ [d], by simp, hack, hnow, fun d' hd' => ?_⟩
  rcases List.mem_append.1 hd' with hd' | hd'
  · exact hafter d' hd'
  · rw [List.mem_singleton.1 hd']
    exact hd

/-- The work may return: the round has ended, and in the time that is left to the last submission
after it was acknowledged. -/
structure Due (p : BehaviourParams) (actor : Actor) (before : List Entry) (d : Entry) : Prop where
  ended : Ask.roundEnded actor d.info = true
  acknowledged : ∃ t, Acknowledged before t ∧ t ≤ d.now ∧ d.now ≤ t + p.inclusionTimeout

/-- The instant since when the work waits. -/
def since (e : Effort) : Instant := e.waiting.elim e.site.now Waiting.since

/-- The work waits in time for the end of the round, and returns when that is due, for good. -/
structure Returns (p : BehaviourParams) (actor : Actor) (e : Effort) (es : List Entry) : Prop where
  actor_eq : e.actor = actor
  acknowledged : e.work.phase = .await → Acknowledged es e.since ∧ e.since ≤ e.site.now ∧
    e.site.now ≤ e.since + p.inclusionTimeout
  due : ∀ {before d after}, es = before ++ d :: after → d.deed = some .returns →
    Due p actor before d ∧ ∀ d' ∈ after, d'.deed = none
  ended_iff : e.work.phase = .ended ↔ ∃ d ∈ es, d.deed = some .returns

theorem Advances.phase_eq_ended_iff (ha : Advances p e x e' deed) :
    e'.work.phase = .ended ↔ e.work.phase = .ended ∨ deed = some .returns := by
  cases ha with
  | returns => exact iff_of_true rfl (.inr rfl)
  | timesOut hphase | refused hphase =>
    refine iff_of_false (e.work.phase_again_ne_ended p) ?_
    rw [hphase]
    nofun
  | wakes hphase | accepted hphase =>
    refine iff_of_false nofun ?_
    rw [hphase]
    nofun
  | submits hphase | awaits hphase | rests hphase => simp [hphase]
  | publishes | drawsOut | ticks => simp

/-- Nothing more is done after the end. -/
theorem Advances.deed_of_ended (ha : Advances p e x e' deed) (hphase : e.work.phase = .ended) :
    deed = none := by
  cases ha with
  | submits hphase' | awaits hphase' | rests hphase' | returns hphase' =>
    cases hphase.symm.trans hphase'
  | _ => rfl

/-- A wait for the end of the round goes on in time, or starts with an acknowledgement. -/
theorem Returns.acknowledged_advance (hs : Returns p actor e es) (ha : Advances p e x e' deed)
    (hphase' : e'.work.phase = .await) :
    Acknowledged (es ++ [e'.entry x deed]) e'.since ∧ e'.since ≤ e'.site.now ∧
      e'.site.now ≤ e'.since + p.inclusionTimeout := by
  cases ha with
  | submits hphase | rests hphase =>
    rw [show e.work.phase = .await from hphase'] at hphase
    cases hphase
  | returns | wakes => cases hphase'
  | timesOut | refused =>
    rcases e.work.phase_again p with h | h <;> cases h.symm.trans hphase'
  | awaits hphase hw =>
    -- No time has passed since the acknowledgement, as the work could go on.
    obtain ⟨hack, -, -⟩ := hs.acknowledged hphase
    rw [since, hw] at hack
    exact ⟨hack.concat rfl, Nat.le_refl _, Nat.le_add_right _ _⟩
  | accepted hphase hw height g =>
    refine ⟨⟨es, _, [], rfl, ⟨height, g, rfl⟩, rfl, ?_⟩, Nat.le_refl _, Nat.le_add_right _ _⟩
    exact List.forall_mem_nil _
  | publishes | drawsOut =>
    obtain ⟨hack, hbounds⟩ := hs.acknowledged hphase'
    exact ⟨hack.concat rfl, hbounds⟩
  | ticks hdue =>
    -- Time passes while the work waits, and only as long as that is not over.
    obtain ⟨w, hw, hlt⟩ := hdue hphase'
    obtain ⟨hack, hle, -⟩ := hs.acknowledged hphase'
    simp only [since, hw, Option.elim_some] at hack hle ⊢
    exact ⟨hack.concat rfl, Nat.le_succ_of_le hle, hlt⟩

theorem Returns.advance (hs : Returns p actor e es) (ha : Advances p e x e' deed) :
    Returns p actor e' (es ++ [e'.entry x deed]) where
  actor_eq := by cases ha <;> exact hs.actor_eq
  acknowledged := hs.acknowledged_advance ha
  due {before d after} heq hd := by
    rcases concat_eq_append_cons heq with ⟨rfl, rfl, rfl⟩ | ⟨after', rfl, rfl⟩
    · cases ha with
      | returns hphase hw hended =>
        obtain ⟨hack, hbounds⟩ := hs.acknowledged hphase
        rw [hs.actor_eq] at hended
        exact ⟨⟨hended, _, hack, hbounds⟩, List.forall_mem_nil _⟩
      | _ => cases hd
    · obtain ⟨hdue, hafter⟩ := hs.due rfl hd
      refine ⟨hdue, fun d' hd' => ?_⟩
      rcases List.mem_append.1 hd' with hd' | hd'
      · exact hafter d' hd'
      · rw [List.mem_singleton.1 hd']
        exact ha.deed_of_ended (hs.ended_iff.2 ⟨d, by simp, hd⟩)
  ended_iff := by
    rw [ha.phase_eq_ended_iff, hs.ended_iff]
    constructor
    · rintro (⟨d, hd, hreturns⟩ | hreturns)
      · exact ⟨d, List.mem_append_left _ hd, hreturns⟩
      · exact ⟨_, List.mem_concat_self, hreturns⟩
    · rintro ⟨d, hd, hreturns⟩
      rcases List.mem_append.1 hd with hd | hd
      · exact .inl ⟨d, hd, hreturns⟩
      · rw [List.mem_singleton.1 hd] at hreturns
        exact .inr hreturns

/-! ## Failures -/

/-- After a failure of the gateway the work goes on with another submission or a pause. -/
def GoesOn (es : List Entry) : Prop := ∀ d ∈ es, ∀ err g, d.happening = .answers (.error err) g →
  d.deed = none ∧ (d.phase = .send ∨ d.phase = .rest)

theorem GoesOn.advance (hs : GoesOn es) (ha : Advances p e x e' deed) :
    GoesOn (es ++ [e'.entry x deed]) := by
  intro d hd err g hfailed
  rcases List.mem_append.1 hd with hd | hd
  · exact hs d hd err g hfailed
  · obtain rfl := List.mem_singleton.1 hd
    cases ha with
    | refused => exact ⟨rfl, e.work.phase_again p⟩
    | _ => cases hfailed

/-! ## The whole -/

/-- What every step keeps. -/
structure Insists (p : BehaviourParams) (actor : Actor) (vote : Vote) (e : Effort)
    (es : List Entry) : Prop where
  signs : Signs actor vote e es
  paces : Paces p e es
  returns : Returns p actor e es
  goesOn : GoesOn es

theorem steady_insists (p : BehaviourParams) (actor : Actor) (vote : Vote) :
    Steady (happen? p) Entry.happening (Insists p actor vote) where
  request_eq hstep := by
    obtain ⟨⟨e', deed⟩, -, heq⟩ := Option.map_eq_some_iff.1 hstep
    cases heq
    rfl
  keeps hs hstep := by
    obtain ⟨⟨e', deed⟩, ha, heq⟩ := Option.map_eq_some_iff.1 hstep
    cases heq
    have ha := advances_of ha
    exact ⟨hs.signs.advance ha, hs.paces.advance ha, hs.returns.advance ha, hs.goesOn.advance ha⟩

theorem insists_start (p : BehaviourParams) (actor : Actor) (vote : Vote) (site : Site) :
    Insists p actor vote (start p actor vote site) [] where
  signs := ⟨rfl, rfl, List.forall_mem_nil _⟩
  paces := by
    refine ⟨Nat.one_pos, p.submitAttempts_pos, Nat.zero_le _, fun before hbefore => ?_⟩
    rw [List.prefix_nil.1 hbefore]
    exact Nat.zero_le _
  returns := by
    refine ⟨rfl, fun h => ?_, fun {before d after} heq => ?_, iff_of_false (fun h => ?_) ?_⟩
    · cases h
    · cases before <;> cases heq
    · cases h
    · rintro ⟨d, hd, -⟩
      cases hd
  goesOn _ hd := absurd hd List.not_mem_nil

/-- What is submitted reads as the vote in the round that the work was started at. -/
theorem decodeWhole_sign (actor : Actor) (vote : Vote) :
    Wire.decodeWhole Payload (actor.sign vote).payload =
      .ok ⟨actor.key.publicKey, actor.roundCount, vote⟩ :=
  Wire.Metered.faithful.reads_back _ (Nat.le_trans (need_payload_le _) (by decide))

/-- **Submitting until the round ends.** Whatever happens, and in whatever order, as long as the work is
prompt, that is, no time passes while it can go on (see `advance?`): everything that is submitted is
the vote, signed, in the round that the work was started at. Without a pause in between there are
never more submissions than allowed. The work returns only at a moment when the published round has
ended, and that is between the acknowledgement of its last submission and the end of the time that
this one is given; then it is over. After a failure of the gateway it goes on.

Being prompt matters for that end of the time only. The clock of a local run keeps to it
(`LocalRun.leads_next`). -/
theorem insists_until_round_ends {p : BehaviourParams} {actor : Actor} {vote : Vote} {site : Site}
    {xs : List Happening} {e : Effort} {es : List Entry}
    (h : transcript? (happen? p) (start p actor vote site) xs = some (e, es)) :
    (∀ d ∈ es, ∀ s, d.deed = some (.submits s) →
      s = (⟨actor.key.publicKey, actor.roundCount, vote⟩ : Payload).sign actor.key ∧
        Wire.decodeWhole Payload s.payload =
          .ok ⟨actor.key.publicKey, actor.roundCount, vote⟩) ∧
    (∀ before mid after, es = before ++ mid ++ after → (∀ d ∈ mid, d.deed ≠ some .rests) →
      mid.countP Entry.submits ≤ p.submitAttempts) ∧
    (∀ before d after, es = before ++ d :: after → d.deed = some .returns →
      (d.info.roundCount ≠ actor.roundCount ∨ d.info.finished = true) ∧
      (∃ earlier ack since, before = earlier ++ ack :: since ∧
        (∃ height g, ack.happening = .answers (.ok height) g) ∧
        (∀ d' ∈ since, d'.submits = false) ∧
        ack.now ≤ d.now ∧ d.now ≤ ack.now + p.inclusionTimeout) ∧
      ∀ d' ∈ after, d'.deed = none) ∧
    (e.work.phase = .ended ↔ ∃ d ∈ es, d.deed = some .returns) ∧
    ∀ d ∈ es, ∀ err g, d.happening = .answers (.error err) g →
      d.deed = none ∧ (d.phase = .send ∨ d.phase = .rest) := by
  have hall : Insists p actor vote e es :=
    (steady_insists p actor vote).transcript (insists_start p actor vote site) h
  refine ⟨fun d hd s hs => ?_, fun before mid after heq hmid => ?_, fun before d after heq hd => ?_,
    hall.returns.ended_iff, hall.goesOn⟩
  · obtain rfl := hall.signs.signed d hd s hs
    exact ⟨rfl, decodeWhole_sign actor vote⟩
  · refine Nat.le_trans (countP_submits_le before mid hmid) (hall.paces.peak _ ?_)
    rw [heq]
    exact List.prefix_append ..
  · obtain ⟨⟨hended, t, ⟨earlier, ack, since, hbefore, hack, rfl, hsince⟩, hle, hlt⟩, hafter⟩ :=
      hall.returns.due heq hd
    refine ⟨?_, ⟨earlier, ack, since, hbefore, hack, hsince, hle, hlt⟩, hafter⟩
    simpa [Ask.roundEnded] using hended

/-! ## Tasks -/

/-- The same as a task at its site. -/
def ofTask (t : Task Submitting) (s : Site) : Effort := ⟨t.actor, t.stage, t.waiting, s⟩

/-- Something that can happen leads from one to the other. -/
def Leads (p : BehaviourParams) (e e' : Effort) : Prop :=
  ∃ xs es, transcript? (happen? p) e xs = some (e', es)

theorem Leads.refl (p : BehaviourParams) (e : Effort) : Leads p e e := ⟨[], [], rfl⟩

theorem Leads.head {e₁ : Effort} (x : Happening) (ha : (e.advance? p x).map Prod.fst = some e₁)
    (hl : Leads p e₁ e') : Leads p e e' := by
  obtain ⟨⟨e₁, deed⟩, hadvance, rfl⟩ := Option.map_eq_some_iff.1 ha
  obtain ⟨xs, es, hrest⟩ := hl
  have hstep : happen? p e x = some (e₁, e₁.entry x deed) := by
    unfold happen?
    rw [hadvance]
    rfl
  refine ⟨x :: xs, e₁.entry x deed :: es, ?_⟩
  unfold transcript?
  rw [hstep, Option.bind_some, hrest]
  rfl

/-- A task makes its request. -/
theorem leads_of_requested {t : Task Submitting} {s s₁ : Site} {a : Ask}
    {resume : a.Answer → Submitting} {w : Waiting} (hstep : t.stage.step p = .ask a resume)
    (hw : t.requested a s = (w, s₁)) (hl : Leads p ⟨t.actor, t.stage, some w, s₁⟩ e') :
    Leads p (ofTask t s) e' := by
  obtain ⟨actor, stage, waiting, status⟩ := t
  cases waiting with
  | some v =>
    cases hw
    exact hl
  | none =>
    refine .head .proceeds ?_ hl
    change a.begin actor s = (w, s₁) at hw
    simp only [advance?, proceed?, ofTask, hstep, hw, Option.map_some]

/-- A task goes on with the answer, that of the gateway at hand if it submitted. -/
theorem leads_of_answered {work : Submitting} {s s₁ : Site} {a : Ask}
    {resume : a.Answer → Submitting} {w : Waiting} {answer : a.Answer} {actor : Actor}
    (hstep : work.step p = .ask a resume) (hanswer : a.answer? actor w s = some (answer, s₁))
    (hl : Leads p ⟨actor, resume answer, none, s₁⟩ e') : Leads p ⟨actor, work, some w, s⟩ e' := by
  obtain ⟨vote, attempt, backoff, phase⟩ := work
  cases phase with
  | send =>
    cases hstep
    cases hanswer
    exact .head (.answers _ _) rfl hl
  | await =>
    cases hstep
    refine .head .proceeds ?_ hl
    show ((Ask.answer? actor w s (.roundEnd _)).map _).map _ = _
    rw [hanswer]
    rfl
  | rest =>
    cases hstep
    refine .head .proceeds ?_ hl
    show ((Ask.answer? actor w s (.sleep _)).map _).map _ = _
    rw [hanswer]
    rfl
  | ended => cases hstep

/-- **A task that goes on does nothing else.** All that it does at an instant are steps of the work
and answers of the gateway at hand; it is over only in the last phase. -/
theorem leads_poll (p : BehaviourParams) (fuel : Nat) (t : Task Submitting) (s : Site) :
    Leads p (ofTask t s) (ofTask (Task.poll (Submitting.step p) fuel t s).1
        (Task.poll (Submitting.step p) fuel t s).2.1) ∧
      ((Task.poll (Submitting.step p) fuel t s).2.2.isSome →
        (Task.poll (Submitting.step p) fuel t s).1.stage.phase = .ended) := by
  induction fuel generalizing t s with
  | zero => exact ⟨.refl p _, nofun⟩
  | succ fuel ih =>
    cases hstep : t.stage.step p with
    | done result =>
      unfold Task.poll
      rw [hstep]
      refine ⟨.refl p _, fun _ => ?_⟩
      obtain ⟨actor, ⟨vote, attempt, backoff, phase⟩, waiting, status⟩ := t
      cases phase with
      | ended => rfl
      | _ => cases hstep
    | ask a resume =>
      obtain ⟨w, s₁, status, hw, ⟨-, hpoll⟩ | ⟨answer, s₂, hanswer, hpoll⟩⟩ :=
        Task.poll_of_asks hstep fuel s
      · rw [hpoll]
        refine ⟨leads_of_requested hstep hw (.refl p _), fun hr => ?_⟩
        cases hr
      · rw [hpoll]
        obtain ⟨hl, hended⟩ := ih { t with stage := resume answer, waiting := none, status } s₂
        exact ⟨leads_of_requested hstep hw (leads_of_answered hstep hanswer hl), hended⟩

/-- A task of a behaviour that submits a vote. -/
def ofBehaviour (t : Task Submitting) : Task Stage :=
  ⟨t.actor, .submitting t.stage, t.waiting, t.status⟩

/-- **A behaviour that submits a vote does just that**, and nothing after it. -/
theorem poll_ofBehaviour (p : BehaviourParams) (key : SecretKey) (fuel : Nat) (t : Task Submitting)
    (s : Site) : Task.poll (Stage.step p key) fuel (ofBehaviour t) s =
      (ofBehaviour (Task.poll (Submitting.step p) fuel t s).1,
        (Task.poll (Submitting.step p) fuel t s).2.1,
        (Task.poll (Submitting.step p) fuel t s).2.2.map .ok) := by
  induction fuel generalizing t s with
  | zero => rfl
  | succ fuel ih =>
    obtain ⟨actor, stage, waiting, status⟩ := t
    unfold Task.poll ofBehaviour
    simp only [Stage.step_submitting]
    cases stage.step p with
    | done result => rfl
    | ask a resume =>
      cases waiting with
      | none =>
        dsimp only
        cases a.answer? actor (a.begin actor s).1 (a.begin actor s).2 with
        | none => rfl
        | some r => exact ih ⟨actor, resume r.1, none, _⟩ r.2
      | some w =>
        dsimp only
        cases a.answer? actor w s with
        | none => rfl
        | some r => exact ih ⟨actor, resume r.1, none, _⟩ r.2

/-! ## A submission that fails, and one that does not -/

/-- One submission before a pause, and two milliseconds for it. -/
def hurried : BehaviourParams :=
  ({ BehaviourParams.standard with sleep := 1, inclusionTimeout := 2 } :
    BehaviourParams).withAttempts 1 1

def registrar : Actor where
  key := Octets.zero
  params := hurried
  instanceId := Counter.zero
  roundCount := Counter.zero

def beginning : RoundInfo := ⟨.registrationStartup, Counter.zero, Counter.zero, Counter.zero, false⟩

def outset : Site where
  now := 0
  gateway := Gateway.start Counter.zero
  world := { beacon := { seed := Octets.zero } }
  dispatcher := {}
  info := beginning
  snapshot := Snapshot.empty

/-- The gateway fails, then it acknowledges, and the round ends after a millisecond. -/
def failingOnce : List Happening :=
  [.proceeds, .answers (.error .shutdown) (Gateway.start Counter.zero), .proceeds, .ticks, .proceeds,
    .proceeds, .answers (.ok Counter.zero) (Gateway.start Counter.zero), .proceeds, .ticks,
    .publishes { beginning with roundCount := Counter.ofNat 1 }, .proceeds]

/-- The work submits again after a pause, and returns within the two milliseconds. -/
theorem insists_until_round_ends_of_failingOnce : ∃ e es,
    transcript? (happen? hurried) (start hurried registrar .registration outset) failingOnce =
      some (e, es) ∧
    es.countP Entry.submits = 2 ∧
    (∀ d ∈ es, ∀ s, d.deed = some (.submits s) → s = registrar.sign .registration) ∧
    ∃ before d after, es = before ++ d :: after ∧ d.deed = some .returns ∧
      (d.info.roundCount ≠ registrar.roundCount ∨ d.info.finished = true) ∧
      ∃ ack ∈ before, ack.now ≤ d.now ∧ d.now ≤ ack.now + 2 := by
  obtain ⟨e, es, h⟩ : ∃ e es, transcript? (happen? hurried)
      (start hurried registrar .registration outset) failingOnce = some (e, es) := ⟨_, _, rfl⟩
  obtain ⟨hsigned, -, hreturns, hended, -⟩ := insists_until_round_ends h
  have hphase : e.work.phase = .ended := by
    cases h
    rfl
  have hcount : es.countP Entry.submits = 2 := by
    cases h
    rfl
  obtain ⟨d, hd, hdeed⟩ := hended.1 hphase
  obtain ⟨before, after, heq⟩ := List.append_of_mem hd
  obtain ⟨hround, ⟨earlier, ack, since, rfl, -, -, hle, hlt⟩, -⟩ := hreturns before d after heq hdeed
  exact ⟨e, es, h, hcount, fun d hd s hs => (hsigned d hd s hs).1, _, d, after, heq, hdeed, hround,
    ack, by simp, hle, hlt⟩

end Effort

end Quorum
