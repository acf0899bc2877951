import Quorum.Agent.Fleet
import Quorum.Proofs.Application.Errors
import Quorum.Proofs.Behaviour.Requests

/-!
# What the steps of an agent come to

A behaviour reads what its agent has published, hands in submissions and waits. It cannot touch the
application, and of the gateway it changes only what is pending.

* `Task.poll_gateway`, `Agent.step_gateway` : what every submission keeps of a gateway, every step of
  an agent keeps;
* `Agent.Retains` : the application of an agent, and what belongs to it, are as before;
* `Agent.Turn` : a step leaves the application as it is, or applies the block at the next height, or
  ends with the reason why it cannot be applied;
* `Agent.step_turn` : there is no other step.
-/

namespace Quorum

/-! ## Submissions -/

section
variable {P : Gateway → Prop} (hP : ∀ g s, P g → P (g.submit s).1)

theorem Ask.begin_gateway (ask : Ask) (actor : Actor) (s : Site) :
    (ask.begin actor s).2.gateway = s.gateway := by
  cases ask with
  | call c =>
    unfold Ask.begin
    cases s.dispatcher.register? actor.instanceId <;> rfl
  | _ => rfl

theorem Ask.received_gateway {actor : Actor} {w : Waiting} {s s' : Site} {r : External.Result}
    (h : received actor w s = some (r, s')) : s'.gateway = s.gateway := by
  unfold received at h
  split at h
  · cases h
    rfl
  · split_ifs at h
    cases h
    rfl

include hP

theorem Ask.answer?_gateway {actor : Actor} {w : Waiting} {s s' : Site} (ask : Ask)
    {answer : ask.Answer} (h : ask.answer? actor w s = some (answer, s')) (hs : P s.gateway) :
    P s'.gateway := by
  cases ask with
  | submit v =>
    cases h
    exact hP _ _ hs
  | call c => exact received_gateway h ▸ hs
  | roundEnd timeout | condition c timeout =>
    rw [(eq_of_awaiting h).2]
    exact hs
  | sleep d =>
    simp only [Ask.answer?] at h
    split_ifs at h
    cases h
    exact hs
  | pause d limit =>
    simp only [Ask.answer?] at h
    split_ifs at h <;> cases h <;> exact hs
  | _ =>
    cases h
    exact hs

/-- **A task changes the gateway by submissions only.** -/
theorem Task.poll_gateway {σ ρ : Type} (m : Machine σ ρ) (fuel : Nat) (t : Task σ) (s : Site)
    (hs : P s.gateway) : P (t.poll m fuel s).2.1.gateway := by
  induction fuel generalizing t s with
  | zero => exact hs
  | succ fuel ih =>
    unfold Task.poll
    split
    · exact hs
    · rename_i ask resume _
      -- a request that has not been made yet is made first, which leaves the gateway as it is
      have hbegun : P (ask.begin t.actor s).2.gateway := (ask.begin_gateway t.actor s).symm ▸ hs
      cases t.waiting with
      | some w =>
        simp only
        split
        · exact hs
        · exact ih _ _ (ask.answer?_gateway hP ‹_› hs)
      | none =>
        simp only
        split
        · exact hbegun
        · exact ih _ _ (ask.answer?_gateway hP ‹_› hbegun)

namespace Agent

theorem pollDuty_gateway (a : Agent) (s : Scene) (duty : Duty) (hs : P s.gateway) :
    P (a.pollDuty s duty).2.1.gateway :=
  duty.task.poll_gateway hP _ Task.stepLimit (a.site s) hs

theorem stepBackground_gateway (a : Agent) (s : Scene) (hs : P s.gateway) :
    P (a.stepBackground s).2.1.gateway := by
  unfold stepBackground
  split
  · split <;> exact hs
  rename_i duty _
  have hpoll := a.pollDuty_gateway hP s duty hs
  split
  · rename_i hduty
    rw [hduty] at hpoll
    simp only
    split <;> exact hpoll
  · rename_i hduty
    rw [hduty] at hpoll
    exact hpoll

theorem stepForeground_gateway (a : Agent) (s : Scene) (hs : P s.gateway) :
    P (a.stepForeground s).2.1.gateway := by
  unfold stepForeground
  split
  · exact a.stepBackground_gateway hP s hs
  rename_i duty _
  have hpoll := a.pollDuty_gateway hP s duty hs
  split
  · rename_i hduty
    rw [hduty] at hpoll
    exact stepBackground_gateway hP _ _ hpoll
  · rename_i hduty
    rw [hduty] at hpoll
    exact hpoll

/-- **So does a step of an agent.** -/
theorem step_gateway (a : Agent) (s : Scene) (hs : P s.gateway) : P (a.step s).2.1.gateway := by
  unfold step
  split
  · exact hs
  · unfold stepServing
    split_ifs
    · exact hs
    split
    · exact a.stepForeground_gateway hP s hs
    · exact a.stepForeground_gateway hP s hs
    · exact hs
    · split <;> exact hs
  · rename_i check _
    have hpoll := a.pollDuty_gateway hP s check hs
    split
    all_goals
      rename_i hduty
      rw [hduty] at hpoll
      exact hpoll

end Agent

end

/-! ## The application -/

/-- The instance that a duty is. -/
def Duty.instanceId (d : Duty) : InstanceId := d.task.actor.instanceId

namespace Agent

/-- The agent has not failed because a block was out of order. -/
def InStep (a : Agent) : Prop :=
  ∀ expected received, a.phase ≠ .stopped (.error (.fatal (.blockOutOfOrder expected received)))

/-- The application, and what belongs to it, are as before. -/
structure Retains (a a' : Agent) : Prop where
  config : a'.config = a.config
  app : a'.app = a.app
  nextHeight : a'.nextHeight = a.nextHeight
  blocks : a'.blocks = a.blocks
  transitions : a'.transitions = a.transitions
  store : a'.store = a.store
  info : a'.info = a.info
  snapshot : a'.snapshot = a.snapshot
  inStep : a.InStep → a'.InStep

variable {a a' a'' : Agent} {b : Block}

theorem Retains.refl (a : Agent) : a.Retains a := ⟨rfl, rfl, rfl, rfl, rfl, rfl, rfl, rfl, id⟩

theorem Retains.trans (h : a.Retains a') (h' : a'.Retains a'') : a.Retains a'' where
  config := h'.config.trans h.config
  app := h'.app.trans h.app
  nextHeight := h'.nextHeight.trans h.nextHeight
  blocks := h'.blocks.trans h.blocks
  transitions := h'.transitions.trans h.transitions
  store := h'.store.trans h.store
  info := h'.info.trans h.info
  snapshot := h'.snapshot.trans h.snapshot
  inStep := h'.inStep ∘ h.inStep

/-- Behaviours come and go, and the dispatcher and the instances change with them. -/
theorem retains_of_duties (a : Agent) (foreground background : Option Duty)
    (dispatcher : External.Dispatcher) (nextInstance : InstanceId) :
    a.Retains { a with foreground, background, dispatcher, nextInstance } :=
  ⟨rfl, rfl, rfl, rfl, rfl, rfl, rfl, rfl, id⟩

/-- An agent may change to any phase but one. -/
theorem retains_phase (a : Agent) {phase : AgentPhase}
    (h : ∀ expected received,
      phase ≠ .stopped (.error (.fatal (.blockOutOfOrder expected received)))) :
    a.Retains { a with phase } :=
  ⟨rfl, rfl, rfl, rfl, rfl, rfl, rfl, rfl, fun _ => h⟩

theorem retains_pollDuty (a : Agent) (s : Scene) (duty : Duty) :
    a.Retains (a.pollDuty s duty).1 := a.retains_of_duties _ _ _ _

theorem retains_afterDuty (a : Agent) (kind : BehaviourKind) (r : Except BehaviourError Unit) :
    a.Retains (a.afterDuty kind r) := by
  unfold afterDuty
  split
  · exact .refl a
  · split_ifs
    · exact a.retains_phase nofun
    · exact .refl a

theorem retains_stop (a : Agent) : a.Retains a.stop :=
  (a.retains_of_duties none none _ _).trans (retains_phase _ nofun)

theorem engage_cases (a : Agent) (kind : BehaviourKind) :
    a.engage kind = .error .outOfNumbers ∨
      ∃ next duty, a.engage kind = .ok ({ a with nextInstance := next }, duty) := by
  unfold engage
  cases a.nextInstance.next? with
  | none => exact .inl rfl
  | some next => exact .inr ⟨next, _, rfl⟩

theorem engage_eq_ok {kind : BehaviourKind} {duty : Duty} (h : a.engage kind = .ok (a', duty)) :
    ∃ next, next.toNat = a.nextInstance.toNat + 1 ∧ a' = { a with nextInstance := next } ∧
      duty.instanceId = a.nextInstance ∧ duty.kind = kind ∧
      duty.task.actor.roundCount = a.info.roundCount := by
  unfold engage at h
  split at h
  · cases h
  · rename_i next hnext
    cases h
    exact ⟨next, Counter.next?_eq_some.1 hnext, rfl, rfl, rfl, rfl⟩

theorem engageForeground_cases (a : Agent) : a.engageForeground = .error .outOfNumbers ∨
    ∃ a', a.engageForeground = .ok a' ∧ a.Retains a' := by
  unfold engageForeground
  split
  · exact .inr ⟨_, rfl, a.retains_of_duties _ _ _ _⟩
  · rename_i kind _
    rcases a.engage_cases kind with h | ⟨next, duty, h⟩ <;> rw [h]
    · exact .inl rfl
    · exact .inr ⟨_, rfl, a.retains_of_duties _ _ _ _⟩

theorem engageBackground_cases (a : Agent) : a.engageBackground = .error .outOfNumbers ∨
    ∃ a', a.engageBackground = .ok a' ∧ a.Retains a' := by
  unfold engageBackground
  split_ifs
  · exact .inr ⟨_, rfl, .refl a⟩
  split
  · exact .inr ⟨_, rfl, .refl a⟩
  · rename_i kind _
    rcases a.engage_cases kind with h | ⟨next, duty, h⟩ <;> rw [h]
    · exact .inl rfl
    · exact .inr ⟨_, rfl, a.retains_of_duties _ _ _ _⟩

theorem engageBoth_cases (a : Agent) :
    a.engageForeground.bind engageBackground = .error .outOfNumbers ∨
      ∃ a', a.engageForeground.bind engageBackground = .ok a' ∧ a.Retains a' := by
  rcases a.engageForeground_cases with h | ⟨a₁, h, h₁⟩ <;> rw [h]
  · exact .inl rfl
  · rcases a₁.engageBackground_cases with h' | ⟨a₂, h', h₂⟩
    · exact .inl h'
    · exact .inr ⟨a₂, h', h₁.trans h₂⟩

theorem retains_afterCheck (a : Agent) (r : Except BehaviourError Unit) :
    a.Retains (a.afterCheck r) := by
  unfold afterCheck
  split
  · exact a.retains_phase nofun
  have hserving : a.Retains { a with phase := .serving } := a.retains_phase nofun
  simp only
  split_ifs
  · exact hserving
  · rcases ({ a with phase := .serving } : Agent).engageBoth_cases with h | ⟨a', h, ha'⟩ <;> rw [h]
    · exact a.retains_phase nofun
    · exact hserving.trans ha'

theorem retains_stepBackground (a : Agent) (s : Scene) : a.Retains (a.stepBackground s).1 := by
  have stops {x : Agent} (h : a.Retains x) (s : Scene) : a.Retains
      (if x.stopRequested then (x.stop, s, Progress.idle) else (x, s, .idle)).1 := by
    split_ifs
    · exact h.trans x.retains_stop
    · exact h
  unfold stepBackground
  split
  · exact stops (.refl a) s
  rename_i duty _
  have hpoll := a.retains_pollDuty s duty
  split
  all_goals
    rename_i hduty
    rw [hduty] at hpoll
  · exact stops (hpoll.trans (retains_of_duties _ _ _ _ _)) _
  · exact (hpoll.trans (retains_of_duties _ _ _ _ _)).trans (retains_afterDuty _ _ _)

theorem retains_stepForeground (a : Agent) (s : Scene) : a.Retains (a.stepForeground s).1 := by
  unfold stepForeground
  split
  · exact a.retains_stepBackground s
  rename_i duty _
  have hpoll := a.retains_pollDuty s duty
  split
  all_goals
    rename_i hduty
    rw [hduty] at hpoll
  · exact (hpoll.trans (retains_of_duties _ _ _ _ _)).trans (retains_stepBackground _ _)
  · exact (hpoll.trans (retains_of_duties _ _ _ _ _)).trans (retains_afterDuty _ _ _)

/-! ## Blocks -/

theorem orderly_followTransition (a : Agent) : Orderly a.followTransition := by
  unfold followTransition
  simp only
  split_ifs
  · exact avoids_ok _
  · rcases a.dismissForeground.engageForeground_cases with h | ⟨a₁, h, -⟩ <;> rw [h]
    · exact avoids_error nofun
    · rw [ok_bind]
      rcases a₁.engageBackground_cases with h' | ⟨a₂, h', -⟩ <;> rw [h']
      · exact avoids_error nofun
      · exact avoids_ok _

theorem orderly_applyBlock (hb : b.height.toNat = a.app.height.toNat + 1) :
    Orderly (a.applyBlock b) := by
  unfold applyBlock
  refine (Application.orderly_processBlock hb).bind fun o => ?_
  refine Avoids.bind ?_ fun nextHeight => ?_
  · cases a.nextHeight.next? with
    | none => exact avoids_error nofun
    | some h => exact avoids_ok h
  · cases o.transition with
    | none => exact avoids_ok _
    | some t => exact orderly_followTransition _

theorem followTransition_cases (h : a.followTransition = .ok a') :
    (a.app.isFinished = true ∧ a' = a.dismissForeground.dismissBackground) ∨
      a.dismissForeground.engageForeground.bind engageBackground = .ok a' := by
  unfold followTransition at h
  simp only at h
  split_ifs at h with hfinished
  · cases h
    exact .inl ⟨hfinished, rfl⟩
  · exact .inr h

/-- An agent with another application, one block later. -/
def withBlock (a : Agent) (app : Application) (nextHeight : Height) : Agent :=
  ({ a with app, nextHeight, blocks := a.blocks + 1 } : Agent).publish

theorem applyBlock_cases (h : a.applyBlock b = .ok a') :
    ∃ app o nextHeight, a.app.processBlock b = (app, .ok o) ∧
      nextHeight.toNat = a.nextHeight.toNat + 1 ∧
      ((o.transition = none ∧ a' = a.withBlock app nextHeight) ∨
        ∃ t, o.transition = some t ∧ ({ a.withBlock app nextHeight with
          transitions := t :: a.transitions } : Agent).saveCheckpoint.followTransition = .ok a') := by
  unfold applyBlock at h
  cases hproc : a.app.processBlock b with
  | mk app r =>
    rw [hproc] at h
    obtain ⟨o, ho, h⟩ := bind_eq_ok.1 h
    obtain ⟨nextHeight, hnext, h⟩ := bind_eq_ok.1 h
    have hnext : nextHeight.toNat = a.nextHeight.toNat + 1 := by
      cases hn : a.nextHeight.next? <;> rw [hn] at hnext <;> cases hnext
      exact Counter.next?_eq_some.1 hn
    refine ⟨app, o, nextHeight, by rw [ho], hnext, ?_⟩
    cases ht : o.transition with
    | none =>
      rw [ht] at h
      cases h
      exact .inl ⟨rfl, rfl⟩
    | some t =>
      rw [ht] at h
      exact .inr ⟨t, rfl, h⟩

theorem retains_of_followTransition (h : a.followTransition = .ok a') : a.Retains a' := by
  rcases followTransition_cases h with ⟨-, rfl⟩ | hengage
  · exact a.retains_of_duties _ _ _ _
  · have hdismissed : a.Retains a.dismissForeground := a.retains_of_duties _ _ _ _
    rcases a.dismissForeground.engageBoth_cases with h | ⟨a₁, h, hr⟩ <;> rw [h] at hengage <;>
      cases hengage
    exact hdismissed.trans hr

theorem of_applyBlock_eq_ok (h : a.applyBlock b = .ok a') :
    ∃ o, a.app.processBlock b = (a'.app, .ok o) ∧
      a'.nextHeight.toNat = a.nextHeight.toNat + 1 ∧ (a.InStep → a'.InStep) := by
  obtain ⟨app, o, nextHeight, hproc, hnext, ⟨-, rfl⟩ | ⟨t, -, hfollow⟩⟩ := applyBlock_cases h
  · exact ⟨o, hproc, hnext, id⟩
  · have hr := retains_of_followTransition hfollow
    exact ⟨o, by rw [hr.app]; exact hproc, by rw [hr.nextHeight]; exact hnext, hr.inStep⟩

/-! ## Steps -/

/-- What a step of an agent comes to. -/
inductive Turn (a : Agent) (g : Gateway) : Agent → Prop
  /-- A behaviour goes on, or the agent stops for a reason that has nothing to do with blocks. -/
  | retains {a' : Agent} (same : a.Retains a') : Turn a g a'
  /-- The block at the next height is applied. -/
  | applies {b : Block} {a' : Agent} (serving : a.phase = .serving)
    (block : g.block? a.nextHeight = .ok (some b)) (applied : a.applyBlock b = .ok a') : Turn a g a'
  /-- The block at the next height cannot be applied. -/
  | fails {b : Block} {e : FatalError} (serving : a.phase = .serving)
    (block : g.block? a.nextHeight = .ok (some b)) (failed : a.applyBlock b = .error e) :
    Turn a g (a.fail (.fatal e))
  /-- There is no block at the next height any more. -/
  | refused {e : GatewayError} (serving : a.phase = .serving)
    (block : g.block? a.nextHeight = .error e) : Turn a g (a.fail (.gateway e))

/-- **A step leaves the application as it is, or deals with the block at the next height.** -/
theorem step_turn (a : Agent) (s : Scene) : a.Turn s.gateway (a.step s).1 := by
  unfold step
  split
  · exact .retains (.refl a)
  · rename_i hserving
    unfold stepServing
    split_ifs
    · exact .retains a.retains_stop
    split
    · exact .retains (a.retains_stepForeground s)
    · exact .retains (a.retains_stepForeground s)
    · exact .refused hserving ‹_›
    · split
      · exact .applies hserving ‹_› ‹_›
      · exact .fails hserving ‹_› ‹_›
  · rename_i check _
    have hpoll := a.retains_pollDuty s check
    split
    all_goals
      rename_i hduty
      rw [hduty] at hpoll
    · exact .retains (hpoll.trans (retains_phase _ nofun))
    · exact .retains (hpoll.trans (retains_afterCheck _ _))

end Agent

end Quorum
