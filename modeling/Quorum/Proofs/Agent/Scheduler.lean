import Quorum.Proofs.Agent.Agreement
import Quorum.Proofs.Agent.Instances

/-!
# What an agent keeps to, whatever comes next

* `Chronicle.Accounted` : every instance has a number of its own, and every open request is for an
  instance that was not torn down;
* `Change.keeps`, `Change.accounted` : no cue changes this, nor what an agent keeps;
* `Chronicle.Orderly`, `Chronicle.DropsLate` : so it holds at each moment of a run
  (`scheduler_invariant`).
-/

namespace Quorum

open External (Dispatcher)

namespace Chronicle

variable {c c' : Chronicle} {x : Application}

/-! ## Every cue keeps the numbers -/

/-- **Every cue keeps the numbers and what is published in step with the application**, and the
behaviour of the round with the round. -/
theorem Change.keeps (h : c.Change c') (hk : c.agent.Keeps x) (hm : c.agent.Matched) :
    c'.agent.Keeps x ∧ c'.agent.Matched := by
  have polled (a : Agent) (foreground background : Option Duty) (d : Dispatcher) :
      a.Retains { a with foreground, background, dispatcher := d } := a.retains_of_duties _ _ _ _
  cases h with
  | heeds stopRequested stoppable =>
    exact ⟨⟨hk.nextHeight, hk.info, hk.snapshot, hk.blocks, hk.transitions⟩, hm⟩
  | hears requests => exact ⟨hk.retains (polled _ _ _ _), hm⟩
  | stops serving => exact ⟨hk.retains c.agent.retains_stop, fun _ hd => by cases hd⟩
  | fails serving e => exact ⟨hk.fail e, hm⟩
  | @checks duty task d starting same requests =>
    have hchecks : ({ c.agent with dispatcher := d } : Agent).Retains
        { c.agent with dispatcher := d, phase := .starting ⟨duty.kind, task⟩ } :=
      Agent.retains_phase _ fun _ _ hp => by cases hp
    exact ⟨hk.retains ((polled _ _ _ _).trans hchecks), hm⟩
  | checked starting requests r =>
    refine ⟨hk.retains ((polled _ _ _ _).trans (Agent.retains_afterCheck _ r)), ?_⟩
    rcases Agent.afterCheck_cases _ r with ⟨e, h⟩ | h | hengage
    · rw [h]
      exact hm
    · rw [h]
      exact hm
    · obtain ⟨next, foreground, background, h, -, -, hmatched⟩ := Agent.engageBoth_eq_ok hengage
      rw [h]
      intro duty hd
      obtain ⟨hkind, hcount⟩ := hmatched duty hd
      exact ⟨hkind, hcount.trans (congrArg RoundInfo.roundCount hk.info)⟩
  | @goesOn duty task d serving runs same requests =>
    refine ⟨hk.retains (polled _ _ _ _), fun duty' hd => ?_⟩
    cases hd
    obtain ⟨hkind, hcount⟩ := hm duty runs
    exact ⟨hkind, same ▸ hcount⟩
  | @ends duty d serving runs requests r =>
    refine ⟨hk.retains ((polled _ _ _ _).trans (Agent.retains_afterDuty _ _ r)), ?_⟩
    rcases Agent.afterDuty_cases _ duty.kind r with h | ⟨e, h⟩ <;> rw [h] <;>
      exact fun _ hd => by cases hd
  | goesOnBehind serving runs same requests => exact ⟨hk.retains (polled _ _ _ _), hm⟩
  | @endsBehind duty d serving runs requests r =>
    refine ⟨hk.retains ((polled _ _ _ _).trans (Agent.retains_afterDuty _ _ r)), ?_⟩
    rcases Agent.afterDuty_cases _ duty.kind r with h | ⟨e, h⟩ <;> rw [h] <;> exact hm
  | applies serving applied =>
    rw [agent_applied]
    exact hk.applyBlock hm applied

/-! ## Every cue accounts for the instances -/

/-- Every instance that was started has the next number, and every open request is for an instance
that still goes on or ended by itself. -/
structure Accounted (c : Chronicle) : Prop where
  idle : ∀ duty, c.agent.phase = .starting duty →
    c.agent.foreground = none ∧ c.agent.background = none
  started : c.started.map Counter.toNat = List.range c.agent.nextInstance.toNat
  known : ∀ {i}, c.Spared i → i ∈ c.started
  numbered : c.agent.dispatcher.Numbered
  spared : ∀ {n i}, c.agent.dispatcher.owner? n = some i → c.Spared i

section
variable {i : InstanceId}

theorem spared_iff : c.Spared i ↔ i ∈ c.ended ∨
    (∃ duty, c.agent.phase = .starting duty ∧ duty.instanceId = i) ∨
      (∃ duty, c.agent.foreground = some duty ∧ duty.instanceId = i) ∨
        ∃ duty, c.agent.background = some duty ∧ duty.instanceId = i := by
  unfold Spared Agent.duties
  cases c.agent.phase <;> simp [eq_comm]

/-- The health check is over. -/
theorem spared_iff_of_ready (ready : ∀ duty, c.agent.phase ≠ .starting duty) :
    c.Spared i ↔ i ∈ c.ended ∨ (∃ duty, c.agent.foreground = some duty ∧ duty.instanceId = i) ∨
      ∃ duty, c.agent.background = some duty ∧ duty.instanceId = i := by
  rw [spared_iff]
  simp [ready]

theorem spared_congr (ready : ∀ duty, c.agent.phase ≠ .starting duty)
    (ready' : ∀ duty, c'.agent.phase ≠ .starting duty) (ended : c'.ended = c.ended)
    (foreground : c'.agent.foreground = c.agent.foreground)
    (background : c'.agent.background = c.agent.background) : c'.Spared i ↔ c.Spared i := by
  rw [spared_iff_of_ready ready, spared_iff_of_ready ready', ended, foreground, background]

theorem ready_of_serving {a : Agent} (serving : a.phase = .serving) (duty : Duty) :
    a.phase ≠ .starting duty := fun h => by cases serving.symm.trans h

end

theorem Change.requests (h : c.Change c') :
    c.agent.dispatcher.Continues (fun _ => True) c'.agent.dispatcher := by
  cases h with
  | heeds stopRequested stoppable => exact .refl _
  | hears requests => exact requests _
  | stops serving => exact (Agent.continues_dismiss _ _).trans (Agent.continues_dismiss _ _)
  | fails serving e => exact .refl _
  | checks starting same requests => exact requests.mono fun _ _ => trivial
  | checked starting requests r =>
    rw [Agent.afterCheck_dispatcher]
    exact requests.mono fun _ _ => trivial
  | goesOn serving runs same requests => exact requests.mono fun _ _ => trivial
  | ends serving runs requests r =>
    rw [Agent.afterDuty_dispatcher]
    exact requests.mono fun _ _ => trivial
  | goesOnBehind serving runs same requests => exact requests.mono fun _ _ => trivial
  | endsBehind serving runs requests r =>
    rw [Agent.afterDuty_dispatcher]
    exact requests.mono fun _ _ => trivial
  | applies serving applied =>
    rw [agent_applied]
    rcases Agent.applyBlock_turnover applied with ⟨-, -, -, -, hd, -⟩ | ⟨-, hturnover⟩
    · rw [hd]
      exact .refl _
    · exact hturnover.requests _

/-- What a change must show: that it numbers what it starts, and spares the instances of the requests
that are left. -/
theorem Accounted.of_continues {P : InstanceId → Prop} (ha : c.Accounted)
    (hidle : ∀ duty, c'.agent.phase = .starting duty →
      c'.agent.foreground = none ∧ c'.agent.background = none)
    (hstarted : c'.started.map Counter.toNat = List.range c'.agent.nextInstance.toNat)
    (hknown : ∀ {i}, c'.Spared i → i ∈ c'.started)
    (hd : c.agent.dispatcher.Continues P c'.agent.dispatcher) (hP : ∀ i, P i → c'.Spared i)
    (hs : ∀ n i, c'.agent.dispatcher.owner? n = some i → c.Spared i → c'.Spared i) :
    c'.Accounted where
  idle := hidle
  started := hstarted
  known := hknown
  numbered := hd.numbered ha.numbered
  spared {n i} ho := by
    rcases hd.opened ho with ho' | ⟨-, hi⟩
    · exact hs n i ho (ha.spared ho')
    · exact hP i hi

/-- If the same instances are spared and none is started, requests may be made for those. -/
theorem Accounted.of_spared_iff {P : InstanceId → Prop} (ha : c.Accounted)
    (hidle : ∀ duty, c'.agent.phase = .starting duty →
      c'.agent.foreground = none ∧ c'.agent.background = none)
    (hstarted : c'.started = c.started)
    (hnext : c'.agent.nextInstance = c.agent.nextInstance)
    (hd : c.agent.dispatcher.Continues P c'.agent.dispatcher) (hP : ∀ i, P i → c.Spared i)
    (hs : ∀ i, c'.Spared i ↔ c.Spared i) : c'.Accounted :=
  ha.of_continues hidle (by rw [hstarted, hnext]; exact ha.started)
    (fun h => hstarted ▸ ha.known ((hs _).1 h)) hd (fun i hi => (hs i).2 (hP i hi))
    fun _ i _ h => (hs i).2 h

/-- When a behaviour is over, its instance has ended by itself. -/
theorem Accounted.of_afterDuty {duty : Duty} {d : Dispatcher} {foreground background : Option Duty}
    (ha : c.Accounted) (serving : c.agent.phase = .serving)
    (requests : c.agent.dispatcher.Continues (· = duty.instanceId) d)
    (finished : (foreground = none ∧ c.agent.foreground = some duty) ∧
        background = c.agent.background ∨
      foreground = c.agent.foreground ∧ background = none ∧ c.agent.background = some duty)
    (r : Except BehaviourError Unit) :
    Accounted { c with
      agent := ({ c.agent with dispatcher := d, foreground, background } : Agent).afterDuty
        duty.kind r
      ended := c.ended ++ [duty.instanceId] } := by
  have ready := ready_of_serving serving
  have hruns : c.Spared duty.instanceId := by
    rw [spared_iff_of_ready ready]
    rcases finished with ⟨⟨-, h⟩, -⟩ | ⟨-, -, h⟩
    · exact .inr (.inl ⟨duty, h, rfl⟩)
    · exact .inr (.inr ⟨duty, h, rfl⟩)
  -- the instance was one of those that go on, and is one of those that ended now
  have hmoved {phase : AgentPhase} (ready' : ∀ other, phase ≠ .starting other) (i : InstanceId) :
      Spared { c with
        agent := { c.agent with dispatcher := d, foreground, background, phase }
        ended := c.ended ++ [duty.instanceId] } i ↔ c.Spared i := by
    rw [spared_iff_of_ready ready, spared_iff_of_ready ready']
    rcases finished with ⟨⟨rfl, h⟩, rfl⟩ | ⟨rfl, rfl, h⟩ <;> simp [h, or_assoc, or_comm, eq_comm]
  rcases Agent.afterDuty_cases _ duty.kind r with h | ⟨e, h⟩ <;> rw [h]
  · exact ha.of_spared_iff (fun _ hp => absurd hp (ready _)) rfl rfl requests
      (fun _ hi => hi ▸ hruns) (hmoved ready)
  · exact ha.of_spared_iff (fun _ hp => by cases hp) rfl rfl requests (fun _ hi => hi ▸ hruns)
      (hmoved fun _ hp => by cases hp)

/-- After a transition the behaviours that the agent goes on with have started now or before. -/
theorem Accounted.of_turnover {a : Agent} (ha : c.Accounted) (serving : c.agent.phase = .serving)
    (h : c.agent.Turnover a) : Accounted { c with
      agent := a
      started := c.started ++ (a.foreground.toList ++
        if c.agent.background.isSome then [] else a.background.toList).map Duty.instanceId } := by
  have ready := ready_of_serving serving
  have ready' := ready_of_serving (h.phase.trans serving)
  refine ha.of_continues (fun _ hp => absurd hp (ready' _)) ?_ (fun {i} hs => ?_)
    (h.requests fun _ => False) (fun _ hi => False.elim hi) fun n i ho hs => ?_
  · rw [h.started, List.map_append, ha.started, List.map_map]
    rfl
  · rcases (spared_iff_of_ready ready').1 hs with he | ⟨duty, hd, rfl⟩ | ⟨duty, hd, rfl⟩
    · exact List.mem_append_left _ (ha.known (.inl he))
    · refine List.mem_append_right _ (List.mem_map_of_mem (List.mem_append_left _ ?_))
      exact Option.mem_toList.2 hd
    · by_cases hsome : c.agent.background.isSome = true
      · refine List.mem_append_left _ (ha.known ((spared_iff_of_ready ready).2 ?_))
        exact .inr (.inr ⟨duty, h.kept hsome duty hd, rfl⟩)
      · refine List.mem_append_right _ (List.mem_map_of_mem (List.mem_append_right _ ?_))
        rw [if_neg hsome]
        exact Option.mem_toList.2 hd
  · obtain ⟨hforeground, hbackground⟩ := h.released ho
    refine (spared_iff_of_ready ready').2 ?_
    rcases (spared_iff_of_ready ready).1 hs with he | ⟨duty, hd, hi⟩ | ⟨duty, hd, hi⟩
    · exact .inl he
    · exact absurd hi (hforeground duty hd)
    · exact .inr (.inr ⟨duty, hbackground duty hd hi, hi⟩)

/-- When the health check is over, the behaviours that the agent goes on with have just started. -/
theorem Accounted.of_afterCheck {duty : Duty} {d : Dispatcher} (ha : c.Accounted)
    (starting : c.agent.phase = .starting duty)
    (requests : c.agent.dispatcher.Continues (· = duty.instanceId) d)
    (r : Except BehaviourError Unit) : Accounted {
      agent := ({ c.agent with dispatcher := d } : Agent).afterCheck r
      started := c.started ++ (({ c.agent with dispatcher := d } : Agent).afterCheck r).duties.map
        Duty.instanceId
      ended := c.ended ++ [duty.instanceId] } := by
  obtain ⟨hforeground, hbackground⟩ := ha.idle duty starting
  obtain ⟨hphase, hstarted⟩ := Agent.afterCheck_started (a := { c.agent with dispatcher := d })
    hforeground hbackground r
  have hchecking : c.Spared duty.instanceId := spared_iff.2 (.inr (.inl ⟨duty, starting, rfl⟩))
  have hended : duty.instanceId ∈ c.ended ++ [duty.instanceId] :=
    List.mem_append_right _ List.mem_cons_self
  have hrequests := requests
  rw [show d = _ from (Agent.afterCheck_dispatcher { c.agent with dispatcher := d } r).symm]
    at hrequests
  refine ha.of_continues (fun other ho => absurd ho (hphase other)) ?_ (fun {i} hs => ?_) hrequests
    (fun i hi => .inl (hi ▸ hended)) fun n i _ hs => ?_
  · rw [hstarted, List.map_append, ha.started, List.map_map]
    rfl
  · rcases hs with he | hd
    · rcases List.mem_append.1 he with he | hi
      · exact List.mem_append_left _ (ha.known (.inl he))
      · rw [List.mem_singleton.1 hi]
        exact List.mem_append_left _ (ha.known hchecking)
    · exact List.mem_append_right _ hd
  · rcases spared_iff.1 hs with he | ⟨other, ho, rfl⟩ | ⟨other, ho, -⟩ | ⟨other, ho, -⟩
    · exact .inl (List.mem_append_left _ he)
    · cases starting.symm.trans ho
      exact .inl hended
    · cases hforeground.symm.trans ho
    · cases hbackground.symm.trans ho

/-- **Every cue accounts for the instances**: those it starts get the next numbers, and whatever
request it leaves open is for an instance that it spares. -/
theorem Change.accounted (h : c.Change c') (ha : c.Accounted) : c'.Accounted := by
  cases h with
  | heeds stopRequested stoppable =>
    exact ⟨ha.idle, ha.started, ha.known, ha.numbered, ha.spared⟩
  | hears requests =>
    exact ha.of_spared_iff ha.idle rfl rfl (requests fun _ => False) (fun _ hi => False.elim hi)
      fun _ => Iff.rfl
  | fails serving e =>
    exact ha.of_spared_iff (fun _ hp => by cases hp) rfl rfl (.refl (P := fun _ => False) _)
      (fun _ hi => False.elim hi) fun _ => spared_congr (ready_of_serving serving)
        (fun _ hp => by cases hp) rfl rfl rfl
  | stops serving =>
    refine ha.of_continues (fun _ hp => by cases hp) ha.started (fun {i} hs => ?_)
      ((Agent.continues_dismiss (P := fun _ => False) _ _).trans (Agent.continues_dismiss _ _))
      (fun _ hi => False.elim hi) fun n i ho hs => ?_
    · rcases spared_iff.1 hs with he | ⟨_, h, -⟩ | ⟨_, h, -⟩ | ⟨_, h, -⟩
      · exact ha.known (.inl he)
      all_goals cases h
    · obtain ⟨ho, hbackground⟩ := Agent.owner?_dismiss ho
      obtain ⟨-, hforeground⟩ := Agent.owner?_dismiss ho
      rcases (spared_iff_of_ready (ready_of_serving serving)).1 hs with
        he | ⟨duty, hd, hi⟩ | ⟨duty, hd, hi⟩
      · exact .inl he
      · exact absurd hi (hforeground duty hd)
      · exact absurd hi (hbackground duty hd)
  | @checks duty task d starting same requests =>
    have hsame : task.actor.instanceId = duty.instanceId := congrArg Actor.instanceId same
    refine ha.of_spared_iff (fun _ _ => ha.idle duty starting) rfl rfl requests
      (fun i hi => spared_iff.2 (.inr (.inl ⟨duty, starting, hi.symm⟩))) fun i => ?_
    rw [spared_iff, spared_iff]
    simp [starting, Duty.instanceId, hsame]
  | checked starting requests r => exact ha.of_afterCheck starting requests r
  | @goesOn duty task d serving runs same requests =>
    have hsame : task.actor.instanceId = duty.instanceId := congrArg Actor.instanceId same
    refine ha.of_spared_iff (fun _ hp => absurd hp (ready_of_serving serving _)) rfl rfl requests
      (fun i hi => spared_iff.2 (.inr (.inr (.inl ⟨duty, runs, hi.symm⟩)))) fun i => ?_
    rw [spared_iff, spared_iff]
    simp [runs, Duty.instanceId, hsame]
  | @goesOnBehind duty task d serving runs same requests =>
    have hsame : task.actor.instanceId = duty.instanceId := congrArg Actor.instanceId same
    refine ha.of_spared_iff (fun _ hp => absurd hp (ready_of_serving serving _)) rfl rfl requests
      (fun i hi => spared_iff.2 (.inr (.inr (.inr ⟨duty, runs, hi.symm⟩)))) fun i => ?_
    rw [spared_iff, spared_iff]
    simp [runs, Duty.instanceId, hsame]
  | ends serving runs requests r =>
    exact ha.of_afterDuty serving requests (.inl ⟨⟨rfl, runs⟩, rfl⟩) r
  | endsBehind serving runs requests r =>
    exact ha.of_afterDuty serving requests (.inr ⟨rfl, rfl, runs⟩) r
  | @applies b a serving applied =>
    unfold Chronicle.applied
    rcases Agent.applyBlock_turnover applied with
      ⟨hlength, hphase, hforeground, hbackground, hdispatcher, hnext⟩ | ⟨hlength, hturnover⟩
    · rw [if_pos hlength]
      have ready' := ready_of_serving (hphase.trans serving)
      exact ha.of_spared_iff (fun _ hp => absurd hp (ready' _)) rfl hnext
        (hdispatcher ▸ .refl (P := fun _ => False) _) (fun _ hi => False.elim hi) fun _ =>
          spared_congr (ready_of_serving serving) ready' rfl hforeground hbackground
    · rw [if_neg hlength]
      exact ha.of_turnover serving hturnover

/-! ## A whole run -/

/-- What holds of an agent that started from `x`, and of the instances that it has started. -/
structure Orderly (x : Application) (c : Chronicle) : Prop where
  nextHeight : c.agent.nextHeight.toNat = c.agent.app.height.toNat + 1
  info : c.agent.info = {
    round := c.agent.app.current.kind
    roundCount := c.agent.app.roundCount
    version := c.agent.app.data.version
    height := c.agent.app.height
    finished := c.agent.app.isFinished }
  snapshot : c.agent.snapshot = c.agent.app.data
  foreground : ∀ duty, c.agent.foreground = some duty → c.agent.Matches duty
  known : ∀ duty ∈ c.agent.duties, duty.instanceId ∈ c.started
  distinct : c.started.Nodup
  released : ∀ i, c.TornDown i → ∀ n, c.agent.dispatcher.owner? n ≠ some i
  blocks : x.height.toNat + c.agent.blocks = c.agent.app.height.toNat
  transitions : x.roundCount.toNat + c.agent.transitions.length = c.agent.app.roundCount.toNat

theorem Accounted.orderly (ha : c.Accounted) (hk : c.agent.Keeps x) (hm : c.agent.Matched) :
    c.Orderly x where
  nextHeight := hk.nextHeight
  info := hk.info
  snapshot := hk.snapshot
  foreground := hm
  known _ hd := ha.known (.inr (List.mem_map_of_mem hd))
  distinct := List.Pairwise.of_map Counter.toNat (fun _ _ hne h => hne (congrArg _ h))
    (ha.started ▸ List.nodup_range)
  released _ hi _ ho := hi.2 (ha.spared ho)
  blocks := hk.blocks
  transitions := hk.transitions

theorem accounted_follow (ha : c.Accounted) (cues : List Cue) : (c.follow cues).Accounted := by
  induction cues using List.reverseRecOn with
  | nil => exact ha
  | append_singleton cues cue ih =>
    rw [follow_append]
    exact (change_turn _ cue).accounted ih

theorem keeps_follow (hk : c.agent.Keeps x) (hm : c.agent.Matched) (cues : List Cue) :
    (c.follow cues).agent.Keeps x ∧ (c.follow cues).agent.Matched := by
  induction cues using List.reverseRecOn with
  | nil => exact ⟨hk, hm⟩
  | append_singleton cues cue ih =>
    rw [follow_append]
    exact (change_turn _ cue).keeps ih.1 ih.2

theorem requests_follow (c : Chronicle) (cues : List Cue) :
    c.agent.dispatcher.Continues (fun _ => True) (c.follow cues).agent.dispatcher := by
  induction cues using List.reverseRecOn with
  | nil => exact .refl _
  | append_singleton cues cue ih =>
    rw [follow_append]
    exact ih.trans (change_turn _ cue).requests

/-- Once an instance is torn down, a response to any request that it had open now is counted and
changes nothing else. -/
def DropsLate (c : Chronicle) : Prop :=
  ∀ n i later, c.agent.dispatcher.owner? n = some i → (c.follow later).TornDown i → ∀ r,
    (c.follow later).agent.dispatcher.deliver n r =
      ({ (c.follow later).agent.dispatcher with
        dropped := (c.follow later).agent.dispatcher.dropped + 1 }, .dropped)

theorem Accounted.dropsLate (ha : c.Accounted) : c.DropsLate := fun n i later ho htorn r =>
  External.Dispatcher.deliver_of_closed (Option.eq_none_iff_forall_ne_some.2 fun j hj => by
    -- the number is not given twice, so it would be open for the instance that was torn down
    obtain rfl : j = i := (c.requests_follow later).owner?_eq ha.numbered ho hj
    exact htorn.2 ((accounted_follow ha later).spared hj)) r

section
variable {config : AgentConfig} {from? : Option Checkpoint} {a₀ : Agent}

theorem keeps_of_create (h : Agent.create config from? = .ok a₀) : a₀.Keeps a₀.app ∧ a₀.Matched := by
  obtain ⟨x, nextHeight, next, check, -, hnext, -, -, rfl⟩ := Agent.create_eq_ok h
  exact ⟨⟨hnext, rfl, rfl, rfl, rfl⟩, fun _ hd => by cases hd⟩

theorem accounted_begin (h : Agent.create config from? = .ok a₀) (store : Option CheckpointStore)
    (stoppable : Bool) : (begin { a₀ with store, stoppable }).Accounted := by
  obtain ⟨x, nextHeight, next, check, -, -, hcount, hcheck, rfl⟩ := Agent.create_eq_ok h
  refine ⟨fun _ _ => ⟨rfl, rfl⟩, ?_, fun hs => hs.resolve_left List.not_mem_nil,
    fun ho => (by cases ho), fun ho => (by cases ho)⟩
  show [check.instanceId.toNat] = List.range next.toNat
  rw [hcount, hcheck]
  rfl

/-- **The scheduler of a peer.** Whatever an agent is given, fresh or resumed, and in whatever order
(blocks or none, failures of the gateway, responses, requests to stop, its behaviours going on or
ending), it is orderly after each cue, and drops what comes too late. Whatever the agent does, in
whatever scenes, comes to such cues. -/
theorem scheduler_invariant (h : Agent.create config from? = .ok a₀)
    (store : Option CheckpointStore) (stoppable : Bool) :
    (∀ cues, ((begin { a₀ with store, stoppable }).follow cues).Orderly a₀.app ∧
      ((begin { a₀ with store, stoppable }).follow cues).DropsLate) ∧
    ∀ acts : List (Scene × Act), ∃ cues, ((begin { a₀ with store, stoppable }).follow cues).agent =
      acts.foldl (fun a act => (a.act act.1 act.2).1) { a₀ with store, stoppable } := by
  obtain ⟨hk, hm⟩ := keeps_of_create h
  refine ⟨fun cues => ?_, exists_follow_acts _⟩
  have ha := accounted_follow (accounted_begin h store stoppable) cues
  obtain ⟨hk, hm⟩ := keeps_follow (c := begin { a₀ with store, stoppable })
    ⟨hk.nextHeight, hk.info, hk.snapshot, hk.blocks, hk.transitions⟩ hm cues
  exact ⟨ha.orderly hk hm, ha.dropsLate⟩

end

/-! ## A peer that leaves -/

/-- A peer that starts afresh, one of a pair. -/
def secondOfPair : AgentConfig where
  key := ⟨Bytes.ofNatBE 32 2, Bytes.length_ofNatBE 32 2⟩
  app := Application.pairParams

/-- The chain is healthy, a block comes, and the behaviour of the background round makes a request. -/
def asking : List Cue :=
  [.checks Fleet.pair.scene, .block (Block.first []), .background Fleet.pair.scene]

/-- The peer stops because it is asked to. -/
def leaving : List Cue := [.asksToStop, .stops]

/-- The request is open when the peer stops, and a response to it is dropped. -/
theorem scheduler_invariant_of_pair : ∃ a₀ c, Agent.create secondOfPair none = .ok a₀ ∧
    (begin a₀).follow (asking ++ leaving) = c ∧ c.agent.app.height.toNat = 1 ∧
    c.started.Nodup ∧ c.TornDown (Counter.ofNat 2) ∧
    ∀ r, (c.agent.dispatcher.deliver Counter.zero r).2 = .dropped := by
  obtain ⟨a₀, ha⟩ : ∃ a₀, Agent.create secondOfPair none = .ok a₀ := ⟨_, rfl⟩
  obtain ⟨hruns, -⟩ := scheduler_invariant ha a₀.store a₀.stoppable
  have htorn : ((begin a₀).follow (asking ++ leaving)).TornDown (Counter.ofNat 2) := by
    cases ha
    decide +kernel
  refine ⟨a₀, _, ha, rfl, ?_, (hruns (asking ++ leaving)).1.distinct, htorn, fun r => ?_⟩
  · cases ha
    rfl
  · have hopen : ((begin a₀).follow asking).agent.dispatcher.owner? Counter.zero =
        some (Counter.ofNat 2) := by
      cases ha
      rfl
    rw [follow_append] at htorn ⊢
    exact congrArg Prod.snd ((hruns asking).2 _ _ leaving hopen htorn r)

end Chronicle

end Quorum
