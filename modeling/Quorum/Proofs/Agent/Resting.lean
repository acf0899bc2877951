import Quorum.Proofs.Agent.Instances
import Quorum.Proofs.Behaviour.Waiting
import Quorum.Proofs.Gateway.Chain

/-!
# An agent that has done all that it can

The steps that an agent takes at an instant come to an end: each of them applies a block that is
there, or goes on with behaviours until they are over or wait. After the last one everything that the
agent goes on with waits for something that is not due yet.

* `Agent.AtWork`, `Agent.Rests` : what an agent goes on with, and that it waits;
* `Agent.due?_le`, `Agent.exists_of_due?` : an agent goes on by itself when the first of it is due;
* `Agent.budget` : how many steps there may be;
* `Agent.settles_step` : a step leads to rest, or leaves less to do;
* `Agent.settles_steps`, `Agent.rests_pass` : so an agent rests once it has done all that it can.
-/

namespace Quorum

/-! ## Blocks to come -/

namespace Gateway

variable {g g' : Gateway} {height height' : Height}

/-- How many blocks of a chain, the last one first, are at a height or after it, going by the height
of the oldest. -/
def ahead (blocks : List Block) (height : Height) : Nat :=
  blocks.getLast?.elim 0 fun oldest => blocks.length - (height.toNat - oldest.height.toNat)

theorem ahead_le (blocks : List Block) (height : Height) : ahead blocks height ≤ blocks.length := by
  unfold ahead
  cases blocks.getLast? with
  | none => exact Nat.zero_le _
  | some oldest => exact Nat.sub_le _ _

/-- A block that is there is behind once it was applied. -/
theorem ahead_lt {b : Block} (hb : g.block? height = .ok (some b))
    (hnext : height'.toNat = height.toNat + 1) :
    ahead g.blocks height' < ahead g.blocks height := by
  unfold block? at hb
  unfold ahead
  cases hlast : g.blocks.getLast? with
  | none =>
    rw [hlast] at hb
    simp only at hb
    split_ifs at hb
    cases hb
  | some oldest =>
    rw [hlast] at hb
    simp only at hb
    split_ifs at hb with hold
    have hle : oldest.height.toNat ≤ height.toNat :=
      Nat.le_of_not_lt fun h => hold (Counter.lt_iff_toNat_lt.2 h)
    have hlt := (List.getElem?_eq_some_iff.1 (Except.ok.inj hb)).1
    rw [List.length_reverse, Counter.toNat_distance] at hlt
    show g.blocks.length - _ < g.blocks.length - _
    omega

theorem blocks_submit (g : Gateway) (s : Submission) : (g.submit s).1.blocks = g.blocks := by
  unfold submit
  split <;> rfl

theorem length_blocks_of_produce? {b : Block} (h : g.produce? = some (g', b)) :
    g'.blocks.length ≤ maxKept := by
  obtain ⟨b, -, heq⟩ := Option.map_eq_some_iff.1 h
  cases heq
  exact List.length_take_le _ _

end Gateway

/-! ## Agents -/

namespace Agent

variable {a a' : Agent} {s : Scene} {now : Instant}

/-- What an agent goes on with by itself. -/
inductive AtWork (a : Agent) : Duty → Prop
  | check {duty : Duty} (starting : a.phase = .starting duty) : AtWork a duty
  | foreground {duty : Duty} (serving : a.phase = .serving) (runs : a.foreground = some duty) :
    AtWork a duty
  | background {duty : Duty} (serving : a.phase = .serving) (runs : a.background = some duty) :
    AtWork a duty

/-- What an agent goes on with waits for something that is not due. -/
def Rests (a : Agent) (now : Instant) : Prop :=
  ∀ duty, a.AtWork duty →
    duty.task.Rests (Stage.step a.config.behaviour a.config.key) now a.info

/-- The instant at which an agent goes on by itself is the first one of its work. -/
theorem due?_eq_min? (a : Agent) : ∃ ds : List Instant, a.due? = ds.min? ∧ ∀ d, d ∈ ds ↔
    ∃ duty, a.AtWork duty ∧
      duty.task.due? (Stage.step a.config.behaviour a.config.key) = some d := by
  refine ⟨_, rfl, fun d => List.mem_filterMap.trans (exists_congr fun duty => and_congr_left' ?_)⟩
  constructor
  · intro hmem
    cases hp : a.phase with
    | starting check =>
      rw [hp] at hmem
      cases List.mem_singleton.1 hmem
      exact .check hp
    | serving =>
      rw [hp] at hmem
      rcases List.mem_append.1 hmem with hd | hd
      · exact .foreground hp (Option.mem_toList.1 hd)
      · exact .background hp (Option.mem_toList.1 hd)
    | stopped r =>
      rw [hp] at hmem
      cases hmem
  · rintro (starting | ⟨serving, runs⟩ | ⟨serving, runs⟩)
    · rw [starting]
      exact List.mem_singleton_self _
    · rw [serving]
      exact List.mem_append_left _ (Option.mem_toList.2 runs)
    · rw [serving]
      exact List.mem_append_right _ (Option.mem_toList.2 runs)

theorem exists_of_due? {d : Instant} (h : a.due? = some d) : ∃ duty, a.AtWork duty ∧
    duty.task.due? (Stage.step a.config.behaviour a.config.key) = some d := by
  obtain ⟨ds, heq, hmem⟩ := a.due?_eq_min?
  exact (hmem d).1 (List.min?_mem (heq ▸ h))

theorem due?_le {duty : Duty} {d : Instant} (hwork : a.AtWork duty)
    (hd : duty.task.due? (Stage.step a.config.behaviour a.config.key) = some d) :
    ∃ d', a.due? = some d' ∧ d' ≤ d := by
  obtain ⟨ds, heq, hmem⟩ := a.due?_eq_min?
  have hin : d ∈ ds := (hmem d).2 ⟨duty, hwork, hd⟩
  obtain ⟨d', hd'⟩ := Option.isSome_iff_exists.1 (List.isSome_min?_of_mem hin)
  exact ⟨d', heq.trans hd', (List.min?_eq_some_iff.1 hd').2 d hin⟩

theorem rests_of_stopped {r : Except AgentError Report} (h : a.phase = .stopped r) (now : Instant) :
    a.Rests now := by
  intro duty hwork
  cases hwork with
  | check starting => cases h.symm.trans starting
  | foreground serving | background serving => cases h.symm.trans serving

theorem rests_of_serving (h : a.phase = .serving)
    (hforeground : ∀ duty, a.foreground = some duty →
      duty.task.Rests (Stage.step a.config.behaviour a.config.key) now a.info)
    (hbackground : ∀ duty, a.background = some duty →
      duty.task.Rests (Stage.step a.config.behaviour a.config.key) now a.info) :
    a.Rests now := by
  intro duty hwork
  cases hwork with
  | check starting => cases h.symm.trans starting
  | foreground _ runs => exact hforeground duty runs
  | background _ runs => exact hbackground duty runs

/-! ### Steps -/

/-- At least as many steps as an agent takes before it rests: three for a block, as both behaviours
may be over before the next one. -/
def budget (a : Agent) (blocks : List Block) : Nat :=
  3 * Gateway.ahead blocks a.nextHeight +
    match a.phase with
    | .starting _ => 3
    | .serving => a.foreground.isSome.toNat + a.background.isSome.toNat
    | .stopped _ => 0

variable {bs : List Block}

theorem budget_of_serving (h : a.phase = .serving) (bs : List Block) : a.budget bs =
    3 * Gateway.ahead bs a.nextHeight +
      (a.foreground.isSome.toNat + a.background.isSome.toNat) := by
  unfold budget
  rw [h]

theorem budget_le_of_serving (h : a.phase = .serving) (bs : List Block) :
    a.budget bs ≤ 3 * Gateway.ahead bs a.nextHeight + 2 := by
  rw [budget_of_serving h]
  have hforeground := Bool.toNat_le a.foreground.isSome
  have hbackground := Bool.toNat_le a.background.isSome
  omega

theorem budget_le (a : Agent) (bs : List Block) : a.budget bs ≤ 3 * bs.length + 3 := by
  have hahead := Gateway.ahead_le bs a.nextHeight
  cases hp : a.phase with
  | serving =>
    have := budget_le_of_serving hp bs
    omega
  | _ =>
    unfold budget
    rw [hp]
    simp only
    omega

theorem budget_fail (a : Agent) (e : AgentError) (bs : List Block) :
    (a.fail e).budget bs = 3 * Gateway.ahead bs a.nextHeight := rfl

/-- A behaviour that is over leaves less to do. -/
theorem budget_afterDuty_lt (a' : Agent) (kind : BehaviourKind) (r : Except BehaviourError Unit)
    (hserving : a.phase = .serving) (hserving' : a'.phase = .serving)
    (hnext : a'.nextHeight = a.nextHeight)
    (hover : a'.foreground.isSome.toNat + a'.background.isSome.toNat <
      a.foreground.isSome.toNat + a.background.isSome.toNat) :
    (a'.afterDuty kind r).budget bs < a.budget bs := by
  rw [budget_of_serving hserving, ← hnext]
  rcases a'.afterDuty_cases kind r with h | ⟨e, h⟩ <;> rw [h]
  · rw [budget_of_serving hserving']
    exact Nat.add_lt_add_left hover _
  · rw [budget_fail]
    omega

theorem budget_afterCheck_le (a : Agent) (r : Except BehaviourError Unit) (bs : List Block) :
    (a.afterCheck r).budget bs ≤ 3 * Gateway.ahead bs a.nextHeight + 2 := by
  rcases a.afterCheck_cases r with ⟨e, h⟩ | h | hengage
  · rw [h]
    exact Nat.le_add_right _ _
  · rw [h]
    exact budget_le_of_serving rfl bs
  · obtain ⟨next, foreground, background, h, -⟩ := engageBoth_eq_ok hengage
    rw [h]
    exact budget_le_of_serving rfl bs

theorem budget_applyBlock_lt {b : Block} {g : Gateway} (hserving : a.phase = .serving)
    (hb : g.block? a.nextHeight = .ok (some b)) (h : a.applyBlock b = .ok a') :
    a'.budget g.blocks < a.budget g.blocks := by
  obtain ⟨-, -, hnext, -⟩ := of_applyBlock_eq_ok h
  have hphase : a'.phase = .serving := by
    rcases applyBlock_turnover h with ⟨-, hphase, -⟩ | ⟨-, hturnover⟩
    · exact hphase.trans hserving
    · exact hturnover.phase.trans hserving
  have hahead := Gateway.ahead_lt hb hnext
  have hafter := budget_le_of_serving hphase g.blocks
  rw [budget_of_serving hserving]
  omega

/-- What an agent comes to that started with a budget in a scene. -/
structure Settles (s : Scene) (budget : Nat) (r : Agent × Scene × Progress) : Prop where
  now : r.2.1.now = s.now
  blocks : r.2.1.gateway.blocks = s.gateway.blocks
  rests : r.2.2 = .idle → r.1.Rests s.now
  less : r.2.2 = .more → r.1.budget s.gateway.blocks < budget

/-- A behaviour that has gone on rests, unless it is over. -/
theorem rests_pollDuty (a : Agent) (s : Scene) (duty : Duty) : ∃ d s' task r,
    a.pollDuty s duty = ({ a with dispatcher := d }, s', ⟨duty.kind, task⟩, r) ∧
      s'.now = s.now ∧ s'.gateway.blocks = s.gateway.blocks ∧
      (r = none → task.Rests (Stage.step a.config.behaviour a.config.key) s.now a.info) := by
  have hblocks := Task.poll_gateway (P := fun g => g.blocks = s.gateway.blocks)
    (fun g sub => (g.blocks_submit sub).trans) (Stage.step a.config.behaviour a.config.key)
    Task.stepLimit duty.task (a.site s) rfl
  unfold pollDuty
  generalize hpoll : duty.task.poll (Stage.step a.config.behaviour a.config.key) Task.stepLimit
    (a.site s) = polled at hblocks
  obtain ⟨task, site, r⟩ := polled
  refine ⟨site.dispatcher, _, task, r, rfl, rfl, hblocks, ?_⟩
  rintro rfl
  exact Task.rests_poll hpoll (.inl (Nat.succ_pos _))

theorem settles_stepBackground (hserving : a.phase = .serving)
    (hforeground : ∀ duty, a.foreground = some duty →
      duty.task.Rests (Stage.step a.config.behaviour a.config.key) s.now a.info) :
    Settles s (a.budget s.gateway.blocks) (a.stepBackground s) := by
  have idle {x : Agent} {s' : Scene} {n : Nat} (hnow : s'.now = s.now)
      (hblocks : s'.gateway.blocks = s.gateway.blocks) (hx : x.Rests s.now) :
      Settles s n (if x.stopRequested then (x.stop, s', Progress.idle) else (x, s', .idle)) := by
    split_ifs
    · exact ⟨hnow, hblocks, fun _ => rests_of_stopped rfl _, nofun⟩
    · exact ⟨hnow, hblocks, fun _ => hx, nofun⟩
  unfold stepBackground
  split
  · rename_i hnone
    refine idle rfl rfl (rests_of_serving hserving hforeground fun duty hd => ?_)
    cases hnone.symm.trans hd
  · rename_i duty hduty
    obtain ⟨d, s', task, r, hpoll, hnow, hblocks, hrests⟩ := a.rests_pollDuty s duty
    simp only [hpoll]
    cases r with
    | none =>
      let x : Agent := { a with dispatcher := d, background := some ⟨duty.kind, task⟩ }
      refine idle (x := x) hnow hblocks (rests_of_serving hserving hforeground fun duty hd => ?_)
      cases hd
      exact hrests rfl
    | some r =>
      refine ⟨hnow, hblocks, nofun, fun _ => ?_⟩
      refine budget_afterDuty_lt { a with dispatcher := d, background := none } duty.kind r
        hserving hserving rfl ?_
      rw [hduty]
      exact Nat.lt_succ_self _

theorem settles_stepForeground (hserving : a.phase = .serving) :
    Settles s (a.budget s.gateway.blocks) (a.stepForeground s) := by
  unfold stepForeground
  split
  · rename_i hnone
    refine settles_stepBackground hserving fun duty hd => ?_
    cases hnone.symm.trans hd
  · rename_i duty hduty
    obtain ⟨d, s', task, r, hpoll, hnow, hblocks, hrests⟩ := a.rests_pollDuty s duty
    simp only [hpoll]
    cases r with
    | none =>
      let x : Agent := { a with dispatcher := d, foreground := some ⟨duty.kind, task⟩ }
      have hbehind := settles_stepBackground (a := x) (s := s') hserving fun duty hd => by
        cases hd
        exact hnow ▸ hrests rfl
      obtain ⟨hnow', hblocks', hidle, hmore⟩ := hbehind
      rw [hnow] at hnow' hidle
      rw [hblocks] at hblocks' hmore
      refine ⟨hnow', hblocks', hidle, fun h => Nat.lt_of_lt_of_eq (hmore h) ?_⟩
      rw [budget_of_serving (a := a) hserving, hduty]
      exact budget_of_serving (a := x) hserving _
    | some r =>
      refine ⟨hnow, hblocks, nofun, fun _ => ?_⟩
      refine budget_afterDuty_lt { a with dispatcher := d, foreground := none } duty.kind r
        hserving hserving rfl ?_
      rw [hduty]
      exact Nat.add_lt_add_right Nat.one_pos _

theorem settles_stepServing (hserving : a.phase = .serving) :
    Settles s (a.budget s.gateway.blocks) (a.stepServing s) := by
  unfold stepServing
  split_ifs
  · exact ⟨rfl, rfl, fun _ => rests_of_stopped rfl _, nofun⟩
  split
  · exact settles_stepForeground hserving
  · exact settles_stepForeground hserving
  · exact ⟨rfl, rfl, fun _ => rests_of_stopped rfl _, nofun⟩
  · rename_i b hb
    cases happly : a.applyBlock b with
    | error e => exact ⟨rfl, rfl, fun _ => rests_of_stopped rfl _, nofun⟩
    | ok a' => exact ⟨rfl, rfl, nofun, fun _ => budget_applyBlock_lt hserving hb happly⟩

/-- **A step leads to rest, or leaves less to do.** -/
theorem settles_step (a : Agent) (s : Scene) :
    Settles s (a.budget s.gateway.blocks) (a.step s) := by
  unfold step
  split
  · exact ⟨rfl, rfl, fun _ => rests_of_stopped ‹_› _, nofun⟩
  · exact settles_stepServing ‹_›
  · rename_i check hcheck
    obtain ⟨d, s', task, r, hpoll, hnow, hblocks, hrests⟩ := a.rests_pollDuty s check
    simp only [hpoll]
    cases r with
    | none =>
      refine ⟨hnow, hblocks, fun _ duty hwork => ?_, nofun⟩
      cases hwork with
      | check starting =>
        cases starting
        exact hrests rfl
      | foreground serving | background serving => cases serving
    | some r =>
      refine ⟨hnow, hblocks, nofun, fun _ => Nat.lt_of_le_of_lt (budget_afterCheck_le _ _ _) ?_⟩
      unfold budget
      rw [hcheck]
      exact Nat.lt_succ_self _

/-- So does whatever an agent does at an instant, as long as it may take enough steps. -/
theorem settles_steps {fuel : Nat} (h : a.budget s.gateway.blocks < fuel) :
    (a.steps fuel s).1.Rests s.now ∧ (a.steps fuel s).2.now = s.now ∧
      (a.steps fuel s).2.gateway.blocks = s.gateway.blocks := by
  induction fuel generalizing a s with
  | zero => exact absurd h (Nat.not_lt_zero _)
  | succ fuel ih =>
    obtain ⟨hnow, hblocks, hrests, hless⟩ := a.settles_step s
    unfold steps
    split
    · rename_i heq
      rw [heq] at hnow hblocks hrests
      exact ⟨hrests rfl, hnow, hblocks⟩
    · rename_i a' s' heq
      rw [heq] at hnow hblocks hless
      have hlt : a'.budget s'.gateway.blocks < fuel := by
        rw [show s'.gateway.blocks = s.gateway.blocks from hblocks]
        exact Nat.lt_of_lt_of_le (hless rfl) (Nat.le_of_lt_succ h)
      obtain ⟨hrests', hnow', hblocks'⟩ := ih hlt
      exact ⟨hnow ▸ hrests', hnow'.trans hnow, hblocks'.trans hblocks⟩

/-- **An agent that has done all that it can rests.** -/
theorem rests_pass (a : Agent) (h : s.gateway.blocks.length ≤ Gateway.maxKept) :
    (a.pass s).1.Rests s.now ∧ (a.pass s).2.now = s.now ∧
      (a.pass s).2.gateway.blocks = s.gateway.blocks := by
  refine settles_steps (Nat.lt_of_le_of_lt (budget_le _ _) ?_)
  unfold Gateway.maxKept at h
  unfold stepLimit
  omega

end Agent

end Quorum
