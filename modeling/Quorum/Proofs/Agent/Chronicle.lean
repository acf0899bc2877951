import Quorum.Proofs.Agent.Moves
import Quorum.Proofs.Behaviour.Requests

/-!
# What an agent is given, one thing after the other

An agent waits for several things at once: a block, a response, the end of one of its behaviours, a
request to stop. Whichever of them comes first is dealt with, and the agent waits again.

* `Cue` : what can come next;
* `Chronicle` : an agent with the instances that it has started and those that ended by themselves;
* `Chronicle.turn`, `Chronicle.follow` : what the agent makes of a cue, and of one after the other;
* `Chronicle.TornDown` : an instance was ended before it was over;
* `Chronicle.Change` : what a cue can come to, and nothing else (`change_turn`);
* `Chronicle.exists_follow_acts` : whatever an agent does comes to some cues.
-/

namespace Quorum

/-! ## Cues -/

/-- What an agent is given next. The clock, the gateway and the world outside may be any when a
behaviour goes on. -/
inductive Cue where
  /-- The health check goes on. -/
  | checks (s : Scene)
  | block (b : Block)
  /-- No block came in time. -/
  | noBlock
  | gatewayFails (e : GatewayError)
  | responses (rs : List (RequestNonce × External.Result))
  /-- The behaviour of the round goes on. -/
  | foreground (s : Scene)
  /-- The behaviour of the background round goes on. -/
  | background (s : Scene)
  /-- Someone asks the agent to stop. -/
  | asksToStop
  /-- No one can ask the agent to stop any more. -/
  | detaches
  /-- The agent stops if it was asked to, or if there is nothing left to do. -/
  | stops

namespace Agent

/-- The duties that an agent goes on with. -/
def duties (a : Agent) : List Duty :=
  (match a.phase with
    | .starting check => [check]
    | _ => []) ++ a.foreground.toList ++ a.background.toList

/-- Whether the agent waits for what comes next. -/
def waits (a : Agent) : Bool :=
  match a.phase with
  | .serving => !a.app.isFinished
  | _ => false

/-- Whether the agent is about to stop. -/
def leaves (a : Agent) : Bool :=
  match a.phase with
  | .serving => a.app.isFinished || a.stopRequested
  | _ => false

end Agent

/-- An agent, with every instance that it has started and those that ended by themselves. -/
structure Chronicle where
  agent : Agent
  started : List InstanceId
  ended : List InstanceId

namespace Chronicle

/-- An agent that has started nothing but what it goes on with. -/
def begin (a : Agent) : Chronicle := ⟨a, a.duties.map Duty.instanceId, []⟩

/-- The health check goes on. Once it is over the behaviours of the rounds start. -/
def check (c : Chronicle) (s : Scene) : Chronicle :=
  match c.agent.phase with
  | .starting duty =>
    match c.agent.pollDuty s duty with
    | (a, _, duty, none) => { c with agent := { a with phase := .starting duty } }
    | (a, _, _, some r) =>
      { agent := a.afterCheck r
        started := c.started ++ (a.afterCheck r).duties.map Duty.instanceId
        ended := c.ended ++ [duty.instanceId] }
  | _ => c

/-- After a block was applied: with a transition the behaviour of the new round has started, and that
of the background round unless it ran. -/
def applied (c : Chronicle) (a : Agent) : Chronicle :=
  if a.transitions.length = c.agent.transitions.length then { c with agent := a }
  else
    let duties := a.foreground.toList ++
      if c.agent.background.isSome then [] else a.background.toList
    { c with agent := a, started := c.started ++ duties.map Duty.instanceId }

theorem agent_applied (c : Chronicle) (a : Agent) : (c.applied a).agent = a := by
  unfold applied
  split_ifs <;> rfl

/-- The next block comes. -/
def apply (c : Chronicle) (b : Block) : Chronicle :=
  match c.agent.applyBlock b with
  | .error e => { c with agent := c.agent.fail (.fatal e) }
  | .ok a => c.applied a

/-- The behaviour of the round goes on. -/
def goOn (c : Chronicle) (s : Scene) : Chronicle :=
  match c.agent.foreground with
  | none => c
  | some duty =>
    match c.agent.pollDuty s duty with
    | (a, _, duty, none) => { c with agent := { a with foreground := some duty } }
    | (a, _, _, some r) =>
      { c with
        agent := ({ a with foreground := none } : Agent).afterDuty duty.kind r
        ended := c.ended ++ [duty.instanceId] }

/-- The behaviour of the background round goes on. -/
def goOnBehind (c : Chronicle) (s : Scene) : Chronicle :=
  match c.agent.background with
  | none => c
  | some duty =>
    match c.agent.pollDuty s duty with
    | (a, _, duty, none) => { c with agent := { a with background := some duty } }
    | (a, _, _, some r) =>
      { c with
        agent := ({ a with background := none } : Agent).afterDuty duty.kind r
        ended := c.ended ++ [duty.instanceId] }

/-- What an agent makes of a cue. -/
def turn (c : Chronicle) : Cue → Chronicle
  | .checks s => c.check s
  | .block b => if c.agent.waits then c.apply b else c
  | .noBlock => c
  | .gatewayFails e => if c.agent.waits then { c with agent := c.agent.fail (.gateway e) } else c
  | .responses rs =>
    { c with agent :=
      { c.agent with dispatcher := ({ c.agent.dispatcher with queue := rs }).deliverAll.1 } }
  | .foreground s => if c.agent.waits then c.goOn s else c
  | .background s => if c.agent.waits then c.goOnBehind s else c
  | .asksToStop => { c with agent := c.agent.requestStop }
  | .detaches => { c with agent := c.agent.detach }
  | .stops => if c.agent.leaves then { c with agent := c.agent.stop } else c

/-- What an agent makes of cues. -/
def follow (c : Chronicle) (cues : List Cue) : Chronicle := cues.foldl turn c

theorem follow_append (c : Chronicle) (cues cues' : List Cue) :
    c.follow (cues ++ cues') = (c.follow cues).follow cues' := List.foldl_append

/-- An instance still goes on, or ended by itself. -/
def Spared (c : Chronicle) (i : InstanceId) : Prop :=
  i ∈ c.ended ∨ i ∈ c.agent.duties.map Duty.instanceId

/-- An instance was started, and was ended before it was over. -/
def TornDown (c : Chronicle) (i : InstanceId) : Prop := i ∈ c.started ∧ ¬ c.Spared i

instance (c : Chronicle) (i : InstanceId) : Decidable (c.Spared i) :=
  inferInstanceAs (Decidable (_ ∨ _))

instance (c : Chronicle) (i : InstanceId) : Decidable (c.TornDown i) :=
  inferInstanceAs (Decidable (_ ∧ _))

end Chronicle

/-! ## What a cue comes to -/

namespace Agent

/-- What is left of an agent after a behaviour went on: another dispatcher. -/
theorem pollDuty_eq (a : Agent) (s : Scene) (duty : Duty) :
    ∃ d s' task r, a.pollDuty s duty = ({ a with dispatcher := d }, s', ⟨duty.kind, task⟩, r) ∧
      task.actor = duty.task.actor ∧ a.dispatcher.Continues (· = duty.instanceId) d := by
  obtain ⟨hactor, hrequests⟩ :=
    duty.task.poll_requests (Stage.step a.config.behaviour a.config.key) Task.stepLimit (a.site s)
  exact ⟨_, _, _, _, rfl, hactor, hrequests⟩

end Agent

namespace Chronicle

/-- What a cue comes to. -/
inductive Change (c : Chronicle) : Chronicle → Prop
  /-- Nothing happens, but that someone asks the agent to stop or that no one can any more. -/
  | heeds (stopRequested stoppable : Bool) :
    Change c { c with agent := { c.agent with stopRequested, stoppable } }
  /-- Responses are offered. -/
  | hears {d : External.Dispatcher} (requests : ∀ P, c.agent.dispatcher.Continues P d) :
    Change c { c with agent := { c.agent with dispatcher := d } }
  | stops (serving : c.agent.phase = .serving) : Change c { c with agent := c.agent.stop }
  | fails (serving : c.agent.phase = .serving) (e : AgentError) :
    Change c { c with agent := c.agent.fail e }
  | checks {duty : Duty} {task : Task Stage} {d : External.Dispatcher}
    (starting : c.agent.phase = .starting duty) (same : task.actor = duty.task.actor)
    (requests : c.agent.dispatcher.Continues (· = duty.instanceId) d) :
    Change c { c with
      agent := { c.agent with dispatcher := d, phase := .starting ⟨duty.kind, task⟩ } }
  | checked {duty : Duty} {d : External.Dispatcher} (starting : c.agent.phase = .starting duty)
    (requests : c.agent.dispatcher.Continues (· = duty.instanceId) d)
    (r : Except BehaviourError Unit) :
    Change c {
      agent := ({ c.agent with dispatcher := d } : Agent).afterCheck r
      started := c.started ++ (({ c.agent with dispatcher := d } : Agent).afterCheck r).duties.map
        Duty.instanceId
      ended := c.ended ++ [duty.instanceId] }
  | goesOn {duty : Duty} {task : Task Stage} {d : External.Dispatcher}
    (serving : c.agent.phase = .serving) (runs : c.agent.foreground = some duty)
    (same : task.actor = duty.task.actor)
    (requests : c.agent.dispatcher.Continues (· = duty.instanceId) d) :
    Change c { c with
      agent := { c.agent with dispatcher := d, foreground := some ⟨duty.kind, task⟩ } }
  | ends {duty : Duty} {d : External.Dispatcher}
    (serving : c.agent.phase = .serving) (runs : c.agent.foreground = some duty)
    (requests : c.agent.dispatcher.Continues (· = duty.instanceId) d)
    (r : Except BehaviourError Unit) :
    Change c { c with
      agent := ({ c.agent with dispatcher := d, foreground := none } : Agent).afterDuty duty.kind r
      ended := c.ended ++ [duty.instanceId] }
  | goesOnBehind {duty : Duty} {task : Task Stage} {d : External.Dispatcher}
    (serving : c.agent.phase = .serving) (runs : c.agent.background = some duty)
    (same : task.actor = duty.task.actor)
    (requests : c.agent.dispatcher.Continues (· = duty.instanceId) d) :
    Change c { c with
      agent := { c.agent with dispatcher := d, background := some ⟨duty.kind, task⟩ } }
  | endsBehind {duty : Duty} {d : External.Dispatcher}
    (serving : c.agent.phase = .serving) (runs : c.agent.background = some duty)
    (requests : c.agent.dispatcher.Continues (· = duty.instanceId) d)
    (r : Except BehaviourError Unit) :
    Change c { c with
      agent := ({ c.agent with dispatcher := d, background := none } : Agent).afterDuty duty.kind r
      ended := c.ended ++ [duty.instanceId] }
  | applies {b : Block} {a : Agent} (serving : c.agent.phase = .serving)
    (applied : c.agent.applyBlock b = .ok a) : Change c (c.applied a)

theorem phase_of_waits {a : Agent} (h : a.waits = true) : a.phase = .serving := by
  unfold Agent.waits at h
  cases hp : a.phase with
  | serving => rfl
  | _ =>
    rw [hp] at h
    cases h

theorem phase_of_leaves {a : Agent} (h : a.leaves = true) : a.phase = .serving := by
  unfold Agent.leaves at h
  cases hp : a.phase with
  | serving => rfl
  | _ =>
    rw [hp] at h
    cases h

theorem change_refl (c : Chronicle) : c.Change c := .heeds c.agent.stopRequested c.agent.stoppable

theorem change_check (c : Chronicle) (s : Scene) : c.Change (c.check s) := by
  unfold check
  split
  · rename_i duty hstarting
    obtain ⟨d, s', task, r, hpoll, hsame, hrequests⟩ := c.agent.pollDuty_eq s duty
    rw [hpoll]
    cases r with
    | none => exact .checks hstarting hsame hrequests
    | some r => exact .checked hstarting hrequests r
  · exact c.change_refl

theorem change_goOn (c : Chronicle) (s : Scene) (h : c.agent.phase = .serving) :
    c.Change (c.goOn s) := by
  unfold goOn
  split
  · exact c.change_refl
  · rename_i duty hruns
    obtain ⟨d, s', task, r, hpoll, hsame, hrequests⟩ := c.agent.pollDuty_eq s duty
    rw [hpoll]
    cases r with
    | none => exact .goesOn h hruns hsame hrequests
    | some r => exact .ends h hruns hrequests r

theorem change_goOnBehind (c : Chronicle) (s : Scene) (h : c.agent.phase = .serving) :
    c.Change (c.goOnBehind s) := by
  unfold goOnBehind
  split
  · exact c.change_refl
  · rename_i duty hruns
    obtain ⟨d, s', task, r, hpoll, hsame, hrequests⟩ := c.agent.pollDuty_eq s duty
    rw [hpoll]
    cases r with
    | none => exact .goesOnBehind h hruns hsame hrequests
    | some r => exact .endsBehind h hruns hrequests r

/-- **There is nothing else that a cue can come to.** -/
theorem change_turn (c : Chronicle) (cue : Cue) : c.Change (c.turn cue) := by
  -- a cue that an agent does not wait for is lost on it
  have guarded {p : Bool} {c' : Chronicle} (h : p = true → c.Change c') :
      c.Change (if p = true then c' else c) := by
    split_ifs with hp
    · exact h hp
    · exact c.change_refl
  cases cue with
  | checks s => exact c.change_check s
  | noBlock => exact c.change_refl
  | responses rs =>
    have hqueued (P : InstanceId → Prop) :
        c.agent.dispatcher.Continues P { c.agent.dispatcher with queue := rs } := .of_owner? rfl id
    exact .hears fun P => (hqueued P).trans (External.Dispatcher.continues_deliverAll _)
  | detaches => exact .heeds c.agent.stopRequested false
  | gatewayFails e => exact guarded fun h => .fails (phase_of_waits h) _
  | foreground s => exact guarded fun h => c.change_goOn s (phase_of_waits h)
  | background s => exact guarded fun h => c.change_goOnBehind s (phase_of_waits h)
  | stops => exact guarded fun h => .stops (phase_of_leaves h)
  | asksToStop =>
    show c.Change { c with agent := c.agent.requestStop }
    unfold Agent.requestStop
    split_ifs
    · exact .heeds true c.agent.stoppable
    · exact c.change_refl
  | block b =>
    refine guarded fun h => ?_
    unfold apply
    cases ha : c.agent.applyBlock b with
    | error e => exact .fails (phase_of_waits h) _
    | ok a => exact .applies (phase_of_waits h) ha

end Chronicle

/-! ## What an agent does comes to cues -/

namespace Chronicle

theorem exists_follow_stop (c : Chronicle) (h : c.agent.phase = .serving) :
    ∃ cues, (c.follow cues).agent = if c.agent.stopRequested then c.agent.stop else c.agent := by
  split_ifs with hstop
  · have hleaves : c.agent.leaves = true := by
      unfold Agent.leaves
      rw [h, hstop]
      exact Bool.or_true _
    exact ⟨[.stops], congrArg Chronicle.agent (if_pos hleaves)⟩
  · exact ⟨[], rfl⟩

theorem exists_follow_background (c : Chronicle) (s : Scene) (h : c.agent.phase = .serving)
    (hrunning : c.agent.app.isFinished = false) :
    ∃ cues, (c.follow cues).agent = (c.agent.stepBackground s).1 := by
  have hwaits : c.agent.waits = true := by
    unfold Agent.waits
    rw [h, hrunning]
    rfl
  have hturn : c.turn (.background s) = c.goOnBehind s := if_pos hwaits
  unfold Agent.stepBackground
  cases hb : c.agent.background with
  | none =>
    obtain ⟨cues, hcues⟩ := c.exists_follow_stop h
    refine ⟨cues, hcues.trans ?_⟩
    simp only
    split_ifs <;> rfl
  | some duty =>
    unfold goOnBehind at hturn
    obtain ⟨d, s', task, r, hpoll, -⟩ := c.agent.pollDuty_eq s duty
    rw [hb] at hturn
    simp only [hpoll] at hturn ⊢
    cases r with
    | none =>
      obtain ⟨cues, hcues⟩ := (c.turn (.background s)).exists_follow_stop (by rw [hturn]; exact h)
      refine ⟨.background s :: cues, hcues.trans ?_⟩
      rw [hturn]
      simp only
      split_ifs <;> rfl
    | some r => exact ⟨[.background s], congrArg Chronicle.agent hturn⟩

theorem exists_follow_foreground (c : Chronicle) (s : Scene) (h : c.agent.phase = .serving)
    (hrunning : c.agent.app.isFinished = false) :
    ∃ cues, (c.follow cues).agent = (c.agent.stepForeground s).1 := by
  have hwaits : c.agent.waits = true := by
    unfold Agent.waits
    rw [h, hrunning]
    rfl
  have hturn : c.turn (.foreground s) = c.goOn s := if_pos hwaits
  unfold Agent.stepForeground
  cases hf : c.agent.foreground with
  | none => exact c.exists_follow_background s h hrunning
  | some duty =>
    unfold goOn at hturn
    obtain ⟨d, s', task, r, hpoll, -⟩ := c.agent.pollDuty_eq s duty
    rw [hf] at hturn
    simp only [hpoll] at hturn ⊢
    cases r with
    | none =>
      obtain ⟨cues, hcues⟩ := (c.turn (.foreground s)).exists_follow_background s'
        (by rw [hturn]; exact h) (by rw [hturn]; exact hrunning)
      refine ⟨.foreground s :: cues, hcues.trans ?_⟩
      rw [hturn]
    | some r => exact ⟨[.foreground s], congrArg Chronicle.agent hturn⟩

theorem exists_follow_step (c : Chronicle) (s : Scene) :
    ∃ cues, (c.follow cues).agent = (c.agent.step s).1 := by
  unfold Agent.step
  cases h : c.agent.phase with
  | stopped r => exact ⟨[], rfl⟩
  | starting duty =>
    have hturn : c.turn (.checks s) = c.check s := rfl
    unfold check at hturn
    obtain ⟨d, s', task, r, hpoll, -⟩ := c.agent.pollDuty_eq s duty
    rw [h] at hturn
    simp only [hpoll] at hturn ⊢
    cases r with
    | none => exact ⟨[.checks s], congrArg Chronicle.agent hturn⟩
    | some r => exact ⟨[.checks s], congrArg Chronicle.agent hturn⟩
  | serving =>
    simp only
    unfold Agent.stepServing
    cases hrunning : c.agent.app.isFinished with
    | true =>
      have hleaves : c.agent.leaves = true := by
        unfold Agent.leaves
        rw [h, hrunning]
        rfl
      exact ⟨[.stops], congrArg Chronicle.agent (if_pos hleaves)⟩
    | false =>
      have hwaits : c.agent.waits = true := by
        unfold Agent.waits
        rw [h, hrunning]
        rfl
      simp only [Bool.false_eq_true, if_false]
      split
      · exact c.exists_follow_foreground s h hrunning
      · exact c.exists_follow_foreground s h hrunning
      · rename_i e _ _
        exact ⟨[.gatewayFails e], congrArg Chronicle.agent (if_pos hwaits)⟩
      · rename_i b _
        have hturn : c.turn (.block b) = c.apply b := if_pos hwaits
        unfold apply at hturn
        refine ⟨[.block b], (congrArg Chronicle.agent hturn).trans ?_⟩
        cases c.agent.applyBlock b with
        | error e => rfl
        | ok a => exact c.agent_applied a

/-- **Whatever an agent does comes to cues.** -/
theorem exists_follow_act (c : Chronicle) (s : Scene) (act : Act) :
    ∃ cues, (c.follow cues).agent = (c.agent.act s act).1 := by
  cases act with
  | steps => exact c.exists_follow_step s
  | hears => exact ⟨[.responses c.agent.dispatcher.queue], rfl⟩
  | stops => exact ⟨[.asksToStop], rfl⟩
  | lingers background =>
    unfold Agent.act Agent.linger
    cases h : c.agent.phase with
    | starting duty => exact ⟨[], rfl⟩
    | stopped r => exact ⟨[], rfl⟩
    | serving =>
      simp only
      split_ifs with hfinished hbackground
      · exact ⟨[], rfl⟩
      · exact c.exists_follow_background s h (by simpa using hfinished)
      · exact c.exists_follow_foreground s h (by simpa using hfinished)

/-- So does whatever it does one after the other, each in a scene of its own. -/
theorem exists_follow_acts (c : Chronicle) (acts : List (Scene × Act)) :
    ∃ cues, (c.follow cues).agent = acts.foldl (fun a act => (a.act act.1 act.2).1) c.agent := by
  induction acts generalizing c with
  | nil => exact ⟨[], rfl⟩
  | cons act acts ih =>
    obtain ⟨cues, hcues⟩ := c.exists_follow_act act.1 act.2
    obtain ⟨cues', hcues'⟩ := ih (c.follow cues)
    exact ⟨cues ++ cues', by rw [follow_append, hcues', hcues, List.foldl_cons]⟩

end Chronicle

end Quorum
