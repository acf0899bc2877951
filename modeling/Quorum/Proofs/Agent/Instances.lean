import Quorum.Proofs.Agent.Chronicle

/-!
# What an agent starts and lets go of

* `Agent.engageBoth_eq_ok` : the behaviours of the rounds start as the next instances, for the round
  that is published;
* `Agent.Keeps` : the numbers of an agent, and what it has published, are those of its application;
* `Agent.Matched` : the behaviour of the round is one for the current round;
* `Keeps.applyBlock` : a block changes neither;
* `Agent.Turnover` : what a transition makes of the behaviours and their requests, and
  `Agent.applyBlock_turnover` : when a block does.
-/

namespace Quorum

open External (Dispatcher)

namespace Agent

/-! ## Starting behaviours -/

variable {a a' : Agent} {b : Block}

/-- The numbers of the instances of duties. -/
def numbers (duties : List Duty) : List Nat := duties.map fun d => d.instanceId.toNat

/-- The duty is the behaviour of the current round, started at the current round count. -/
def Matches (a : Agent) (duty : Duty) : Prop :=
  BehaviourKind.ofRound? a.app.current.kind = some duty.kind ∧
    duty.task.actor.roundCount = a.app.roundCount

/-- A behaviour that starts takes the next number. -/
theorem range_next {next i : InstanceId} {duty : Duty} (hnext : next.toNat = i.toNat + 1)
    (hi : duty.instanceId = i) :
    List.range next.toNat = List.range i.toNat ++ numbers [duty] := by
  rw [hnext, List.range_succ, ← hi]
  rfl

theorem engageForeground_eq_ok (h : a.engageForeground = .ok a') :
    ∃ next foreground, a' = { a with nextInstance := next, foreground } ∧
      List.range next.toNat =
        List.range a.nextInstance.toNat ++ numbers foreground.toList ∧
      ∀ duty, foreground = some duty →
        BehaviourKind.ofRound? a.app.current.kind = some duty.kind ∧
          duty.task.actor.roundCount = a.info.roundCount := by
  unfold engageForeground at h
  split at h
  · cases h
    exact ⟨a.nextInstance, none, rfl, (List.append_nil _).symm, fun _ hd => by cases hd⟩
  · rename_i kind hkind
    obtain ⟨⟨a₁, duty⟩, hengage, h⟩ := bind_eq_ok.1 h
    cases h
    obtain ⟨next, hnext, rfl, hi, rfl, hcount⟩ := engage_eq_ok hengage
    refine ⟨next, some duty, rfl, range_next hnext hi, fun duty' hd => ?_⟩
    cases hd
    exact ⟨hkind, hcount⟩

theorem engageBackground_eq_ok (h : a.engageBackground = .ok a') :
    ∃ next background, a' = { a with nextInstance := next, background } ∧
      List.range next.toNat = List.range a.nextInstance.toNat ++
        numbers (if a.background.isSome then [] else background.toList) ∧
      (a.background.isSome = true → background = a.background) := by
  unfold engageBackground at h
  split_ifs at h with hsome
  · cases h
    exact ⟨a.nextInstance, a.background, rfl, by rw [if_pos hsome]; exact (List.append_nil _).symm,
      fun _ => rfl⟩
  split at h
  · cases h
    refine ⟨a.nextInstance, a.background, rfl, ?_, fun _ => rfl⟩
    rw [if_neg hsome, Option.not_isSome_iff_eq_none.1 hsome]
    exact (List.append_nil _).symm
  · obtain ⟨⟨a₁, duty⟩, hengage, h⟩ := bind_eq_ok.1 h
    cases h
    obtain ⟨next, hnext, rfl, hi, -⟩ := engage_eq_ok hengage
    exact ⟨next, some duty, rfl, by rw [if_neg hsome]; exact range_next hnext hi,
      fun hs => absurd hs hsome⟩

/-- **The behaviours of the rounds start as the next instances**, that of the round for the round
that is published. -/
theorem engageBoth_eq_ok (h : a.engageForeground.bind engageBackground = .ok a') :
    ∃ next foreground background,
      a' = { a with nextInstance := next, foreground, background } ∧
      List.range next.toNat = List.range a.nextInstance.toNat ++ numbers (foreground.toList ++
        if a.background.isSome then [] else background.toList) ∧
      (a.background.isSome = true → background = a.background) ∧
      ∀ duty, foreground = some duty →
        BehaviourKind.ofRound? a.app.current.kind = some duty.kind ∧
          duty.task.actor.roundCount = a.info.roundCount := by
  obtain ⟨a₁, hforeground, hbackground⟩ := bind_eq_ok.1 h
  obtain ⟨next₁, foreground, rfl, hrange₁, hmatched⟩ := engageForeground_eq_ok hforeground
  obtain ⟨next, background, rfl, hrange, hkept⟩ := engageBackground_eq_ok hbackground
  refine ⟨next, foreground, background, rfl, ?_, hkept, hmatched⟩
  rw [hrange, hrange₁, List.append_assoc]
  unfold numbers
  rw [List.map_append]

/-! ## Numbers and what is published -/

/-- The numbers of an agent, and what it has published, are those of its application, which was `x`
when the agent started. -/
structure Keeps (x : Application) (a : Agent) : Prop where
  nextHeight : a.nextHeight.toNat = a.app.height.toNat + 1
  info : a.info = {
    round := a.app.current.kind
    roundCount := a.app.roundCount
    version := a.app.data.version
    height := a.app.height
    finished := a.app.isFinished }
  snapshot : a.snapshot = a.app.data
  blocks : x.height.toNat + a.blocks = a.app.height.toNat
  transitions : x.roundCount.toNat + a.transitions.length = a.app.roundCount.toNat

/-- If a behaviour of the round runs, it is one for the current round. -/
def Matched (a : Agent) : Prop := ∀ duty, a.foreground = some duty → a.Matches duty

variable {x : Application}

theorem Keeps.retains (h : a.Keeps x) (hr : a.Retains a') : a'.Keeps x where
  nextHeight := by rw [hr.nextHeight, hr.app]; exact h.nextHeight
  info := by rw [hr.info, hr.app]; exact h.info
  snapshot := by rw [hr.snapshot, hr.app]; exact h.snapshot
  blocks := by rw [hr.blocks, hr.app]; exact h.blocks
  transitions := by rw [hr.transitions, hr.app]; exact h.transitions

theorem Keeps.fail (h : a.Keeps x) (e : AgentError) : (a.fail e).Keeps x :=
  ⟨h.nextHeight, h.info, h.snapshot, h.blocks, h.transitions⟩

theorem snapshot_withBlock {app : Application} {nextHeight : Height}
    (h : a.snapshot.version = app.data.version → a.snapshot = app.data) :
    (a.withBlock app nextHeight).snapshot = app.data := by
  unfold withBlock publish
  simp only
  split_ifs with hv
  · exact h hv
  · rfl

/-- **A block that is applied keeps the numbers and what is published in step with the application**,
and the behaviour of the round with the round. -/
theorem Keeps.applyBlock (h : a.Keeps x) (hm : a.Matched) (hb : a.applyBlock b = .ok a') :
    a'.Keeps x ∧ a'.Matched := by
  obtain ⟨app, o, nextHeight, hproc, hnext, hcases⟩ := applyBlock_cases hb
  obtain ⟨hadvance, hheight⟩ := Application.processBlock_advances hproc
  have hheight : app.height.toNat = a.app.height.toNat + 1 := by
    rw [hheight]
    exact Application.height_of_processBlock hproc
  have hnextHeight : nextHeight.toNat = app.height.toNat + 1 := by
    rw [hnext, h.nextHeight, hheight]
  have hblocks : x.height.toNat + (a.blocks + 1) = app.height.toNat := by
    have := h.blocks
    omega
  rcases hcases with ⟨hnone, rfl⟩ | ⟨t, hsome, hfollow⟩
  · rw [hnone] at hadvance
    cases hadvance with
    | stays same =>
      refine ⟨⟨hnextHeight, rfl, snapshot_withBlock fun _ => ?_, hblocks, ?_⟩, fun duty hd => ?_⟩
      · rw [h.snapshot, same.data]
      · exact h.transitions.trans (congrArg Counter.toNat same.roundCount.symm)
      · obtain ⟨hkind, hcount⟩ := hm duty hd
        exact ⟨same.kind ▸ hkind, hcount.trans same.roundCount.symm⟩
  · rw [hsome] at hadvance
    cases hadvance with
    | moves moves =>
      have hcounts : app.roundCount.toNat = a.app.roundCount.toNat + 1 :=
        moves.roundCount ▸ Counter.next?_eq_some.1 moves.counts
      constructor
      · refine Keeps.retains ?_ (retains_of_followTransition hfollow)
        refine ⟨hnextHeight, rfl, snapshot_withBlock fun hv => ?_, hblocks, ?_⟩
        · -- a transition takes the version further, so the data are published anew
          have hversion := moves.revises.version
          rw [← hv, h.snapshot] at hversion
          omega
        · have := h.transitions
          show x.roundCount.toNat + (a.transitions.length + 1) = app.roundCount.toNat
          omega
      · rcases followTransition_cases hfollow with ⟨-, rfl⟩ | hengage
        · exact fun _ hd => by cases hd
        · obtain ⟨next, foreground, background, rfl, -, -, hmatched⟩ := engageBoth_eq_ok hengage
          exact hmatched

theorem afterDuty_cases (a : Agent) (kind : BehaviourKind) (r : Except BehaviourError Unit) :
    a.afterDuty kind r = a ∨ ∃ e, a.afterDuty kind r = a.fail e := by
  unfold afterDuty
  split
  · exact .inl rfl
  · split_ifs
    · exact .inr ⟨_, rfl⟩
    · exact .inl rfl

theorem afterCheck_cases (a : Agent) (r : Except BehaviourError Unit) :
    (∃ e, a.afterCheck r = a.fail e) ∨ a.afterCheck r = { a with phase := .serving } ∨
      ({ a with phase := .serving } : Agent).engageForeground.bind engageBackground =
        .ok (a.afterCheck r) := by
  unfold afterCheck
  split
  · exact .inl ⟨_, rfl⟩
  · simp only
    split_ifs
    · exact .inr (.inl rfl)
    · split
      · exact .inr (.inr ‹_›)
      · exact .inl ⟨_, rfl⟩

/-! ## Instances and their requests -/

open External.Dispatcher

theorem owner?_dismiss {duty : Option Duty} {d : Dispatcher} {n : RequestNonce} {i : InstanceId}
    (h : (dismiss duty d).owner? n = some i) :
    d.owner? n = some i ∧ ∀ ended, duty = some ended → ended.instanceId ≠ i := by
  cases duty with
  | none => exact ⟨h, fun _ hd => by cases hd⟩
  | some ended =>
    obtain ⟨ho, hi⟩ := owner?_release.1 h
    refine ⟨?_, fun _ hd => ?_⟩
    · unfold Task.abort at ho
      cases hn : ended.task.waiting.bind Waiting.nonce with
      | none =>
        rw [hn] at ho
        exact ho
      | some k =>
        rw [hn] at ho
        exact owner?_abandon d k n ▸ ho
    · cases hd
      exact Ne.symm hi

theorem continues_dismiss {P : InstanceId → Prop} (duty : Option Duty) (d : Dispatcher) :
    d.Continues P (dismiss duty d) := by
  cases duty with
  | none => exact .refl d
  | some ended =>
    refine Continues.trans ?_ (continues_release _ _)
    unfold Task.abort
    cases ended.task.waiting.bind Waiting.nonce with
    | none => exact .refl _
    | some n => exact continues_abandon _ n

/-- What a transition makes of the behaviours: that of the round is torn down and the next one
starts, that of the background round may be torn down too, and starts if it does not run. -/
structure Turnover (a a' : Agent) : Prop where
  phase : a'.phase = a.phase
  kept : a.background.isSome = true → ∀ duty, a'.background = some duty → a.background = some duty
  started : List.range a'.nextInstance.toNat = List.range a.nextInstance.toNat ++
    numbers (a'.foreground.toList ++ if a.background.isSome then [] else a'.background.toList)
  requests : ∀ P, a.dispatcher.Continues P a'.dispatcher
  released : ∀ {n i}, a'.dispatcher.owner? n = some i →
    (∀ duty, a.foreground = some duty → duty.instanceId ≠ i) ∧
      ∀ duty, a.background = some duty → duty.instanceId = i → a'.background = some duty

theorem turnover_of_followTransition (h : a.followTransition = .ok a') : a.Turnover a' := by
  rcases followTransition_cases h with ⟨-, rfl⟩ | hengage
  · refine ⟨rfl, fun _ _ hd => (by cases hd), ?_,
      fun P => (continues_dismiss _ _).trans (continues_dismiss _ _), fun ho => ?_⟩
    · show List.range a.nextInstance.toNat =
        List.range a.nextInstance.toNat ++ numbers ([] ++ if a.background.isSome then [] else [])
      rw [ite_self]
      exact (List.append_nil _).symm
    · obtain ⟨ho, hbackground⟩ := owner?_dismiss ho
      obtain ⟨ho, hforeground⟩ := owner?_dismiss ho
      exact ⟨hforeground, fun duty hd hi => absurd hi (hbackground duty hd)⟩
  · obtain ⟨next, foreground, background, rfl, hrange, hkept, -⟩ := engageBoth_eq_ok hengage
    refine ⟨rfl, fun hsome _ hd => (hkept hsome).symm.trans hd, hrange,
      fun P => continues_dismiss _ _, fun ho => ?_⟩
    obtain ⟨ho, hforeground⟩ := owner?_dismiss ho
    exact ⟨hforeground, fun duty hd _ => (hkept (by
      show a.background.isSome = true
      rw [hd]
      rfl)).trans hd⟩

/-- A block changes behaviours exactly if it ends with a transition. -/
theorem applyBlock_turnover (h : a.applyBlock b = .ok a') :
    (a'.transitions.length = a.transitions.length ∧ a'.phase = a.phase ∧
        a'.foreground = a.foreground ∧ a'.background = a.background ∧
        a'.dispatcher = a.dispatcher ∧ a'.nextInstance = a.nextInstance) ∨
      a'.transitions.length ≠ a.transitions.length ∧ a.Turnover a' := by
  obtain ⟨app, o, nextHeight, -, -, hcases⟩ := applyBlock_cases h
  rcases hcases with ⟨-, rfl⟩ | ⟨t, -, hfollow⟩
  · exact .inl ⟨rfl, rfl, rfl, rfl, rfl, rfl⟩
  · have hlength : a'.transitions.length = a.transitions.length + 1 := by
      rw [(retains_of_followTransition hfollow).transitions]
      rfl
    obtain ⟨hphase, hkept, hstarted, hrequests, hreleased⟩ := turnover_of_followTransition hfollow
    exact .inr ⟨by omega, hphase, hkept, hstarted, hrequests, hreleased⟩

theorem afterDuty_dispatcher (a : Agent) (kind : BehaviourKind) (r : Except BehaviourError Unit) :
    (a.afterDuty kind r).dispatcher = a.dispatcher := by
  rcases a.afterDuty_cases kind r with h | ⟨e, h⟩
  · rw [h]
  · rw [h]
    rfl

theorem afterCheck_dispatcher (a : Agent) (r : Except BehaviourError Unit) :
    (a.afterCheck r).dispatcher = a.dispatcher := by
  rcases a.afterCheck_cases r with ⟨e, h⟩ | h | hengage
  · rw [h]
    rfl
  · rw [h]
  · obtain ⟨next, foreground, background, h, -⟩ := engageBoth_eq_ok hengage
    rw [h]

/-- After the health check the agent has started what it goes on with. -/
theorem afterCheck_started (hforeground : a.foreground = none) (hbackground : a.background = none)
    (r : Except BehaviourError Unit) :
    (∀ duty, (a.afterCheck r).phase ≠ .starting duty) ∧
      List.range (a.afterCheck r).nextInstance.toNat =
        List.range a.nextInstance.toNat ++ numbers (a.afterCheck r).duties := by
  have quiet (phase : AgentPhase) (hp : ∀ duty, phase ≠ .starting duty) :
      numbers ({ a with phase } : Agent).duties = [] := by
    unfold duties
    rw [show ({ a with phase } : Agent).foreground = none from hforeground,
      show ({ a with phase } : Agent).background = none from hbackground]
    cases phase with
    | starting duty => exact absurd rfl (hp duty)
    | _ => rfl
  rcases a.afterCheck_cases r with ⟨e, h⟩ | h | hengage
  · rw [h]
    have hquiet := quiet (.stopped (.error e)) fun _ hp => by cases hp
    refine ⟨fun _ hp => (by cases hp), ?_⟩
    unfold fail
    rw [hquiet, List.append_nil]
  · rw [h]
    have hquiet := quiet .serving fun _ hp => by cases hp
    refine ⟨fun _ hp => (by cases hp), ?_⟩
    rw [hquiet, List.append_nil]
  · obtain ⟨next, foreground, background, h, hrange, -, -⟩ := engageBoth_eq_ok hengage
    rw [h]
    refine ⟨fun _ hp => (by cases hp), hrange.trans ?_⟩
    simp only [hbackground]
    rfl

end Agent

end Quorum
