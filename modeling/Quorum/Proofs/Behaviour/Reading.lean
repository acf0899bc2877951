import Quorum.Behaviour.Stage
import Quorum.Proofs.Behaviour.Requests

/-!
# What behaviours read

* `Snapshot.Supplies` : the agreed data decodes all that the behaviour of a kind of round reads;
* `Stage.reads?` : the round for whose behaviour a stage reads data that it cannot do without. Such
  a stage goes on if the data supply it (`quiet_of_reads`), and leads to none that reads once more;
* `Stage.Reached` : the stages that a behaviour can come to, whatever it is answered, as long as
  what it gets for the agreed data has been published;
* `Reached.not_failed` : a behaviour that is supplied never fails to read;
* `Site.Alike` : no time passes while a request is made and answered, and nothing is published;
* `Reached.poll` : a task is always in such a stage.
-/

namespace Quorum

/-- The agreed data decodes all that the behaviour of a kind of round reads. -/
def Snapshot.Supplies (s : Snapshot) : RoundKind → Prop
  | .selectKeeper => (∃ peers, s.participants = .ok peers) ∧ (∃ value, s.randomness = .ok value) ∧
      ∃ previous, s.previousKeeper = .ok previous
  | .collectSignature => ∃ t, SafeTx.ofSnapshot s = .ok t
  | .finalization => (∃ pk, s.keeper = .ok pk) ∧ (∃ t, SafeTx.ofSnapshot s = .ok t) ∧
      ∃ sigs, s.signatures = .ok sigs
  | .validateTransaction => ∃ tx, s.finalTx = .ok tx
  | _ => True

namespace Stage

/-- The round whose behaviour reads data in this stage that it cannot do without. -/
def reads? : Stage → Option RoundKind
  | choosing => some .selectKeeper
  | signing => some .collectSignature
  | finalizing => some .finalization
  | validating => some .validateTransaction
  | _ => none

/-- The stage reads nothing that it cannot do without, and has not failed to. -/
structure Quiet (st : Stage) : Prop where
  reads : st.reads? = none
  not_failed : ∀ e, st ≠ ended (.error (.snapshot e))

variable {p : BehaviourParams} {key : SecretKey} {s : Snapshot} {st : Stage} {r : RoundKind}

/-- A stage that reads asks for the agreed data. -/
theorem asks_of_reads (p : BehaviourParams) (key : SecretKey) (hst : st.reads? = some r) :
    ∃ resume, st.step p key = .ask .snapshot resume := by
  cases st with
  | choosing | signing | finalizing | validating => exact ⟨_, rfl⟩
  | _ => cases hst

/-- It goes on to one that does not read, if the data supply it. -/
theorem quiet_of_reads {resume : Snapshot → Stage} (hst : st.reads? = some r) (hs : s.Supplies r)
    (hstep : st.step p key = .ask .snapshot resume) : (resume s).Quiet := by
  cases st with
  | choosing =>
    cases hst
    cases hstep
    obtain ⟨⟨peers, hpeers⟩, ⟨value, hvalue⟩, ⟨previous, hprevious⟩⟩ := hs
    unfold choose
    rw [hpeers, hvalue, hprevious]
    unfold reading
    dsimp only
    cases Quorum.selectKeeper peers value previous <;> exact ⟨rfl, nofun⟩
  | signing =>
    cases hst
    cases hstep
    obtain ⟨t, ht⟩ := hs
    dsimp only
    rw [ht]
    exact ⟨rfl, nofun⟩
  | finalizing =>
    cases hst
    cases hstep
    obtain ⟨⟨keeper, hkeeper⟩, ⟨t, ht⟩, ⟨sigs, hsigs⟩⟩ := hs
    unfold finalizeFrom
    rw [hkeeper, ht, hsigs]
    unfold reading
    dsimp only
    split <;> exact ⟨rfl, nofun⟩
  | validating =>
    cases hst
    cases hstep
    obtain ⟨tx, htx⟩ := hs
    dsimp only
    rw [htx]
    exact ⟨rfl, nofun⟩
  | _ => cases hst

theorem step_submitting (sub : Submitting) : (submitting sub).step p key =
    match sub.step p with
    | .done () => .done (.ok ())
    | .ask a resume => .ask a fun answer => submitting (resume answer) := rfl

/-- Any other stage goes on to one that does not read, whatever it is answered. -/
theorem quiet_of_answer {a : Ask} {resume : a.Answer → Stage} (hst : st.reads? = none)
    (hstep : st.step p key = .ask a resume) (answer : a.Answer) : (resume answer).Quiet := by
  cases st with
  | choosing | signing | finalizing | validating => cases hst
  | submitting sub =>
    rw [step_submitting] at hstep
    cases hsub : sub.step p with
    | done result =>
      rw [hsub] at hstep
      cases hstep
    | ask b go =>
      rw [hsub] at hstep
      cases hstep
      exact ⟨rfl, nofun⟩
  | ended result => cases hstep
  | checkup | checkupFrom | observePause | sending | signalPause | votingToEnd | idle =>
    cases hstep
    exact ⟨rfl, nofun⟩
  | checking | watching =>
    cases hstep
    dsimp only
    split <;> exact ⟨rfl, nofun⟩
  | checkPause | awaitingEnd =>
    cases hstep
    cases answer <;> exact ⟨rfl, nofun⟩
  | observing retries =>
    cases hstep
    unfold observed
    split <;> exact ⟨rfl, nofun⟩
  | querying tx attempt =>
    cases hstep
    unfold queried
    split <;> exact ⟨rfl, nofun⟩
  | queryPause tx attempt =>
    cases hstep
    unfold requery
    split <;> exact ⟨rfl, nofun⟩
  | readingSignal =>
    cases hstep
    dsimp only
    split <;> exact ⟨rfl, nofun⟩

/-! ## Stages that a behaviour can come to -/

/-- The stages that a behaviour can come to. What it gets for the agreed data has been published;
any other answer is arbitrary. -/
inductive Reached (p : BehaviourParams) (key : SecretKey) (published : Snapshot → Prop)
    (k : BehaviourKind) : Stage → Prop
  | start : Reached p key published k (start p k)
  | read {st : Stage} {resume : Snapshot → Stage} {s : Snapshot}
    (before : Reached p key published k st) (asks : st.step p key = .ask .snapshot resume)
    (hs : published s) : Reached p key published k (resume s)
  | answered {st : Stage} {a : Ask} {resume : a.Answer → Stage}
    (before : Reached p key published k st) (asks : st.step p key = .ask a resume)
    (other : a ≠ .snapshot) (answer : a.Answer) : Reached p key published k (resume answer)

variable {published : Snapshot → Prop} {k : BehaviourKind}

/-- A behaviour reads what it cannot do without in its first stage only. -/
theorem Reached.quiet_or_reads (h : Reached p key published k st) (hk : k.round? = some r)
    (hp : ∀ s, published s → s.Supplies r) : st.Quiet ∨ st.reads? = some r := by
  induction h with
  | start =>
    cases k with
    | healthcheck => cases hk
    | registration | randomness | termination => exact .inl ⟨rfl, nofun⟩
    | selectKeeper | signature | finalize | validateTransaction => exact .inr hk
  | @read st resume s _ asks hs ih =>
    rcases ih with hq | hr
    · exact .inl (quiet_of_answer hq.reads asks s)
    · exact .inl (quiet_of_reads hr (hp s hs) asks)
  | @answered st a resume _ asks other answer ih =>
    rcases ih with hq | hr
    · exact .inl (quiet_of_answer hq.reads asks answer)
    · obtain ⟨_, hstep⟩ := asks_of_reads p key hr
      cases asks.symm.trans hstep
      exact absurd rfl other

/-- **A behaviour that is supplied never fails to read.** -/
theorem Reached.not_failed (h : Reached p key published k st) (hk : k.round? = some r)
    (hp : ∀ s, published s → s.Supplies r) (e : SnapshotError) :
    st.step p key ≠ .done (.error (.snapshot e)) := by
  intro hstep
  rcases h.quiet_or_reads hk hp with hq | hr
  · cases st with
    | ended result =>
      cases hstep
      exact hq.not_failed e rfl
    | submitting sub =>
      rw [step_submitting] at hstep
      cases hsub : sub.step p <;> rw [hsub] at hstep <;> cases hstep
    | _ => cases hstep
  · obtain ⟨_, hasks⟩ := asks_of_reads p key hr
    cases hstep.symm.trans hasks

end Stage

/-! ## Tasks -/

/-- It is the same instant, and the same has been published. -/
structure Site.Alike (s s' : Site) : Prop where
  now : s'.now = s.now
  info : s'.info = s.info
  snapshot : s'.snapshot = s.snapshot

theorem Site.Alike.refl (s : Site) : s.Alike s := ⟨rfl, rfl, rfl⟩

theorem Site.Alike.trans {s s' s'' : Site} (h : s.Alike s') (h' : s'.Alike s'') : s.Alike s'' :=
  ⟨h'.now.trans h.now, h'.info.trans h.info, h'.snapshot.trans h.snapshot⟩

namespace Ask

theorem alike_begin (a : Ask) (actor : Actor) (s : Site) : s.Alike (a.begin actor s).2 := by
  cases a with
  | call c =>
    unfold begin
    dsimp only
    cases s.dispatcher.register? actor.instanceId <;> exact ⟨rfl, rfl, rfl⟩
  | _ => exact .refl s

theorem alike_answer {a : Ask} {actor : Actor} {w : Waiting} {s s' : Site} {answer : a.Answer}
    (h : a.answer? actor w s = some (answer, s')) : s.Alike s' := by
  cases a with
  | snapshot | info | clock | submit | status =>
    cases h
    exact ⟨rfl, rfl, rfl⟩
  | call c =>
    unfold answer? received at h
    dsimp only at h
    split at h
    · cases h
      exact ⟨rfl, rfl, rfl⟩
    · split at h <;> cases h
      exact ⟨rfl, rfl, rfl⟩
  | sleep d =>
    unfold answer? at h
    dsimp only at h
    split at h <;> cases h
    exact .refl s
  | pause d limit =>
    unfold answer? at h
    dsimp only at h
    split at h
    · cases h
      exact .refl s
    · split at h <;> cases h
      exact .refl s
  | roundEnd timeout | condition c timeout =>
    rw [(eq_of_awaiting h).2]
    exact .refl s

end Ask

namespace Task

variable {σ ρ : Type} {m : Machine σ ρ}

/-- What a task that asks waits for, and where, once the request has been made. -/
def requested (t : Task σ) (a : Ask) (s : Site) : Waiting × Site :=
  t.waiting.elim (a.begin t.actor s) (·, s)

theorem alike_requested (t : Task σ) (a : Ask) (s : Site) : s.Alike (t.requested a s).2 := by
  unfold requested
  cases t.waiting with
  | some w => exact .refl s
  | none => exact a.alike_begin t.actor s

/-- A task that asks waits at its stage, or goes on with the answer. -/
theorem poll_of_asks {t : Task σ} {a : Ask} {resume : a.Answer → σ}
    (h : m t.stage = .ask a resume) (fuel : Nat) (s : Site) :
    ∃ w s₁ status, t.requested a s = (w, s₁) ∧
      (a.answer? t.actor w s₁ = none ∧
          poll m (fuel + 1) t s = ({ t with waiting := some w, status }, s₁, none) ∨
        ∃ answer s₂, a.answer? t.actor w s₁ = some (answer, s₂) ∧ poll m (fuel + 1) t s =
          poll m fuel { t with stage := resume answer, waiting := none, status } s₂) := by
  obtain ⟨w, s₁, hw⟩ : ∃ w s₁, t.requested a s = (w, s₁) := ⟨_, _, rfl⟩
  obtain ⟨actor, stage, waiting, status⟩ := t
  cases hanswer : a.answer? actor w s₁ with
  | none =>
    refine ⟨w, s₁, (a.suspension? w).elim status .suspended, hw, .inl ⟨hanswer, ?_⟩⟩
    cases waiting with
    | some v =>
      cases hw
      simp only [poll, h, hanswer]
    | none =>
      change a.begin actor s = (w, s₁) at hw
      simp only [poll, h, hw, hanswer]
  | some r =>
    refine ⟨w, s₁, ((a.suspension? w).elim status .suspended).resumed, hw,
      .inr ⟨r.1, r.2, hanswer, ?_⟩⟩
    cases waiting with
    | some v =>
      cases hw
      simp only [poll, h, hanswer]
    | none =>
      change a.begin actor s = (w, s₁) at hw
      simp only [poll, h, hw, hanswer]

end Task

namespace Stage

/-- A task that goes on where some data have been published is in a stage that its behaviour can
come to, and so is one that is over. -/
theorem Reached.poll {p : BehaviourParams} {key : SecretKey} {published : Snapshot → Prop}
    {k : BehaviourKind} {t : Task Stage} {s : Site} (h : Reached p key published k t.stage)
    (hs : published s.snapshot) (fuel : Nat) :
    Reached p key published k (Task.poll (step p key) fuel t s).1.stage ∧
      ∀ result, (Task.poll (step p key) fuel t s).2.2 = some result →
        ∃ st, Reached p key published k st ∧ st.step p key = .done result := by
  induction fuel generalizing t s with
  | zero => exact ⟨h, nofun⟩
  | succ fuel ih =>
    cases hstep : t.stage.step p key with
    | done result =>
      unfold Task.poll
      rw [hstep]
      refine ⟨h, fun result' hr => ⟨t.stage, h, ?_⟩⟩
      cases hr
      exact hstep
    | ask a resume =>
      obtain ⟨w, s₁, status, hw, ⟨-, hpoll⟩ | ⟨answer, s₂, hanswer, hpoll⟩⟩ :=
        Task.poll_of_asks hstep fuel s
      · rw [hpoll]
        refine ⟨h, fun result hr => ?_⟩
        cases hr
      · rw [hpoll]
        have halike := (t.alike_requested a s).snapshot
        rw [← halike, hw, ← (Ask.alike_answer hanswer).snapshot] at hs
        refine ih ?_ hs
        by_cases ha : a = .snapshot
        · subst ha
          cases hanswer
          exact h.read hstep hs
        · exact h.answered hstep ha answer

end Stage

end Quorum
