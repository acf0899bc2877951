import Quorum.Local.Run
import Quorum.Proofs.Agent.Resting

/-!
# The clock of a local run

A local run moves its clock on only after every peer has done all that it can, and never past an
instant at which one of them goes on by itself. So no time passes for the work of a peer while it
can go on.

* `Fleet.Quiet` : all agents rest, and `Fleet.quiet_settle` : so they do once they have settled;
* `Quiet.leads` : until one of them goes on by itself only time passes for work that submits a vote,
  and `Quiet.leads_tick` : a tick of one millisecond is never too long for that;
* `LocalRun.Timely` : so it is between the instants of a local run (`Timely.run`), and the next one
  is later (`Timely.lt_next?`);
* `LocalRun.leads_next` : so only time passes until then.
-/

namespace Quorum

/-! ## Fleets -/

namespace Fleet

variable {f f' : Fleet}

/-- All agents rest, and none of them is lost. -/
structure Quiet (f : Fleet) : Prop where
  lost : f.lost = []
  kept : f.scene.gateway.blocks.length ≤ Gateway.maxKept
  rests : ∀ a ∈ f.agents, a.Rests f.scene.now

theorem rests_passList {s : Scene} (h : s.gateway.blocks.length ≤ Gateway.maxKept) (i : Nat)
    (as : List Agent) :
    (∀ a ∈ (passList [] i as s).1, a.Rests s.now) ∧ (passList [] i as s).2.now = s.now ∧
      (passList [] i as s).2.gateway.blocks = s.gateway.blocks := by
  induction as generalizing i s with
  | nil => exact ⟨fun x hx => absurd hx List.not_mem_nil, rfl, rfl⟩
  | cons a as ih =>
    have hpass := a.rests_pass h
    unfold passList
    simp only [List.contains_nil, Bool.false_eq_true, if_false]
    generalize a.pass s = passed at hpass ⊢
    obtain ⟨hrests, hnow, hblocks⟩ := hpass
    obtain ⟨hrests', hnow', hblocks'⟩ := ih (s := passed.2) (hblocks ▸ h) (i + 1)
    refine ⟨fun x hx => ?_, hnow'.trans hnow, hblocks'.trans hblocks⟩
    rcases List.mem_cons.1 hx with rfl | hx
    · exact hrests
    · exact hnow ▸ hrests' x hx

theorem quiet_pass (hlost : f.lost = []) (hkept : f.scene.gateway.blocks.length ≤ Gateway.maxKept) :
    f.pass.Quiet ∧ f.pass.scene.now = f.scene.now := by
  have hpass := rests_passList hkept 0 f.agents
  rw [← hlost] at hpass
  obtain ⟨hrests, hnow, hblocks⟩ := hpass
  refine ⟨⟨hlost, ?_, fun a ha => ?_⟩, hnow⟩
  · exact Nat.le_trans (Nat.le_of_eq (congrArg List.length hblocks)) hkept
  · exact hnow ▸ hrests a ha

theorem quiet_settleIn (fuel : Nat) (hlost : f.lost = [])
    (hkept : f.scene.gateway.blocks.length ≤ Gateway.maxKept) :
    (settleIn (fuel + 1) f).Quiet ∧ (settleIn (fuel + 1) f).scene.now = f.scene.now := by
  induction fuel generalizing f with
  | zero =>
    have hpass := quiet_pass hlost hkept
    unfold settleIn
    simp only
    split_ifs <;> exact hpass
  | succ fuel ih =>
    obtain ⟨hquiet, hnow⟩ := quiet_pass hlost hkept
    unfold settleIn
    simp only
    split_ifs
    · obtain ⟨hquiet', hnow'⟩ := ih hquiet.lost hquiet.kept
      exact ⟨hquiet', hnow'.trans hnow⟩
    · exact ⟨hquiet, hnow⟩

/-- **Once the agents have settled all of them rest**, at the same instant. -/
theorem quiet_settle (hlost : f.lost = [])
    (hkept : f.scene.gateway.blocks.length ≤ Gateway.maxKept) :
    f.settle.Quiet ∧ f.settle.scene.now = f.scene.now := quiet_settleIn 99999 hlost hkept

theorem Quiet.produce? (h : f.Quiet) (hp : f.produce? = some f') :
    f'.Quiet ∧ f'.scene.now = f.scene.now := by
  obtain ⟨⟨g, b⟩, hg, rfl⟩ := Option.map_eq_some_iff.1 hp
  exact quiet_settle h.lost (Gateway.length_blocks_of_produce? hg)

/-- The world outside may change meanwhile. -/
theorem Quiet.world (h : f.Quiet) (world : External.World) :
    ({ f with scene := { f.scene with world } } : Fleet).Quiet := ⟨h.lost, h.kept, h.rests⟩

/-- After any number of ticks of any length the agents rest again. -/
theorem Quiet.advance (h : f.Quiet) (tick ticks duration : Nat) :
    (advance tick ticks duration f).Quiet := by
  induction ticks generalizing duration f with
  | zero => exact h
  | succ ticks ih =>
    unfold Fleet.advance
    split_ifs
    · exact h
    · have hmoved := quiet_settle (f := f.moveTo (f.scene.now + min tick duration)) h.lost h.kept
      exact ih hmoved.1 _

/-! ### Behaviours that submit a vote -/

variable {now : Instant} {a : Agent} {kind : BehaviourKind} {t : Task Submitting}

/-- **Up to the first instant at which an agent goes on by itself only time passes** for a behaviour
that submits a vote and waits: what it waits for is not there before. -/
theorem Quiet.leads (h : f.Quiet) (hle : f.scene.now ≤ now)
    (hdue : ∀ a ∈ f.agents, ∀ d, a.due? = some d → now ≤ d) (ha : a ∈ f.agents)
    (hwork : a.AtWork ⟨kind, Effort.ofBehaviour t⟩) (hw : t.waiting.isSome) :
    Effort.Leads a.config.behaviour (Effort.ofTask t (a.site f.scene))
      (Effort.ofTask t (a.site (f.moveTo now).scene)) := by
  have hrests := Effort.rests_of_ofBehaviour (h.rests a ha _ hwork)
  refine Effort.leads_clock hrests hw hle fun d hd => ?_
  rw [← Effort.due?_ofBehaviour _ a.config.key] at hd
  obtain ⟨d', hd', hle'⟩ := Agent.due?_le hwork hd
  exact Nat.le_trans (hdue a ha d' hd') hle'

/-- A tick of one millisecond is never too long, as what agents wait for is due later. -/
theorem Quiet.leads_tick (h : f.Quiet) (ha : a ∈ f.agents)
    (hwork : a.AtWork ⟨kind, Effort.ofBehaviour t⟩) (hw : t.waiting.isSome) :
    Effort.Leads a.config.behaviour (Effort.ofTask t (a.site f.scene))
      (Effort.ofTask t (a.site (f.moveTo (f.scene.now + 1)).scene)) := by
  refine h.leads (Nat.le_succ _) (fun b hb d hd => ?_) ha hwork hw
  obtain ⟨duty, hwork', hd'⟩ := Agent.exists_of_due? hd
  exact (h.rests b hb duty hwork').due d hd'

end Fleet

/-! ## Local runs -/

namespace LocalRun

variable {r r' : LocalRun} {now : Instant}

/-- All agents rest, and the next block and the next value of the beacon come later. -/
structure Timely (r : LocalRun) : Prop where
  quiet : r.fleet.Quiet
  block : ∀ t, r.nextBlock = some t → r.fleet.scene.now < t
  beacon : ∀ t, r.nextBeacon = some t → r.fleet.scene.now < t

theorem lt_of_after {interval : UInt64} {t : Instant} (h : after now interval = some t) :
    now < t := by
  unfold after at h
  split_ifs at h with hzero
  cases h
  refine Nat.lt_add_of_pos_right (Nat.pos_of_ne_zero fun h => hzero ?_)
  exact UInt64.toNat_inj.1 h

theorem le_next? (h : r.next? = some now) : (∀ t, r.nextBlock = some t → now ≤ t) ∧
    (∀ t, r.nextBeacon = some t → now ≤ t) ∧
      ∀ a ∈ r.fleet.agents, ∀ d, a.due? = some d → now ≤ d := by
  obtain ⟨-, hle⟩ := List.min?_eq_some_iff.1 h
  refine ⟨fun t ht => hle t ?_, fun t ht => hle t ?_, fun a ha d hd => hle d ?_⟩
  · exact List.mem_append_left _ (List.mem_append_left _ (Option.mem_toList.2 ht))
  · exact List.mem_append_left _ (List.mem_append_right _ (Option.mem_toList.2 ht))
  · exact List.mem_append_right _ (List.mem_filterMap.2 ⟨a, ha, hd⟩)

/-- **The next instant is a later one.** -/
theorem Timely.lt_next? (h : r.Timely) (hnext : r.next? = some now) : r.fleet.scene.now < now := by
  rcases List.mem_append.1 (List.min?_mem hnext) with hmem | hmem
  · rcases List.mem_append.1 hmem with hmem | hmem
    · exact h.block now (Option.mem_toList.1 hmem)
    · exact h.beacon now (Option.mem_toList.1 hmem)
  · obtain ⟨a, ha, hdue⟩ := List.mem_filterMap.1 hmem
    obtain ⟨duty, hwork, hd⟩ := Agent.exists_of_due? hdue
    exact (h.quiet.rests a ha duty hwork).due now hd

theorem signalEnd_eq (r : LocalRun) : ∃ world,
    r.signalEnd = { r with fleet := { r.fleet with scene := { r.fleet.scene with world } } } := by
  unfold signalEnd
  simp only
  split_ifs
  · exact ⟨_, rfl⟩
  · exact ⟨_, rfl⟩

theorem Timely.signalEnd (h : r.Timely) : r.signalEnd.Timely := by
  obtain ⟨world, heq⟩ := r.signalEnd_eq
  rw [heq]
  exact ⟨h.quiet.world world, h.block, h.beacon⟩

/-- A run whose agents have settled, before the beacon and the gateway go on. -/
theorem quiet_settle (hlost : r.fleet.lost = [])
    (hkept : r.fleet.scene.gateway.blocks.length ≤ Gateway.maxKept) :
    r.settle.fleet.Quiet ∧ r.settle.fleet.scene.now = r.fleet.scene.now ∧
      r.settle.nextBlock = r.nextBlock ∧ r.settle.nextBeacon = r.nextBeacon := by
  obtain ⟨hquiet, hnow⟩ := Fleet.quiet_settle hlost hkept
  obtain ⟨world, heq⟩ := signalEnd_eq { r with fleet := r.fleet.settle }
  unfold settle
  rw [heq]
  exact ⟨hquiet.world world, hnow, rfl, rfl⟩

theorem timely_settle_signalEnd (hlost : r.fleet.lost = [])
    (hkept : r.fleet.scene.gateway.blocks.length ≤ Gateway.maxKept)
    (hblock : ∀ t, r.nextBlock = some t → r.fleet.scene.now < t)
    (hbeacon : ∀ t, r.nextBeacon = some t → r.fleet.scene.now < t) :
    r.signalEnd.settle.Timely := by
  obtain ⟨world, heq⟩ := r.signalEnd_eq
  rw [heq]
  obtain ⟨hquiet, hnow, hblock', hbeacon'⟩ := quiet_settle
    (r := { r with fleet := { r.fleet with scene := { r.fleet.scene with world } } }) hlost hkept
  refine ⟨hquiet, fun t ht => ?_, fun t ht => ?_⟩
  · exact hnow ▸ hblock t (hblock' ▸ ht)
  · exact hnow ▸ hbeacon t (hbeacon' ▸ ht)

theorem timely_start {o : Console.RunOptions} {dir : Option DataDir} {fresh : List SecretKey}
    (h : start o dir fresh = .ok r) : r.Timely := by
  obtain ⟨-, -, h⟩ := bind_eq_ok.1 h
  obtain ⟨keys, -, h⟩ := bind_eq_ok.1 h
  obtain ⟨agents, -, h⟩ := bind_eq_ok.1 h
  cases h
  exact timely_settle_signalEnd rfl (Nat.zero_le _) (fun _ => lt_of_after) fun _ => lt_of_after

theorem Timely.tickBlock (hquiet : r.fleet.Quiet)
    (hblock : ∀ t, r.nextBlock = some t → r.fleet.scene.now ≤ t)
    (hbeacon : ∀ t, r.nextBeacon = some t → r.fleet.scene.now < t) : r.tickBlock.Timely := by
  unfold LocalRun.tickBlock
  split_ifs with hdue
  · split
    · rename_i f hf
      obtain ⟨hquiet', hnow⟩ := hquiet.produce? hf
      exact Timely.signalEnd ⟨hquiet', fun t ht => lt_of_after ht, fun t ht => hnow ▸ hbeacon t ht⟩
    · exact ⟨hquiet, nofun, hbeacon⟩
  · exact ⟨hquiet, fun t ht => Nat.lt_of_le_of_ne (hblock t ht) fun h => hdue (h ▸ ht), hbeacon⟩

theorem tickBeacon_eq (r : LocalRun) (h : ∀ t, r.nextBeacon = some t → r.fleet.scene.now ≤ t) :
    ∃ world nextBeacon, r.tickBeacon = { r with
      fleet := { r.fleet with scene := { r.fleet.scene with world } }, nextBeacon } ∧
      ∀ t, nextBeacon = some t → r.fleet.scene.now < t := by
  unfold tickBeacon
  simp only
  split_ifs with hdue
  · exact ⟨_, _, rfl, fun t ht => lt_of_after ht⟩
  · exact ⟨_, _, rfl, fun t ht => Nat.lt_of_le_of_ne (h t ht) fun h => hdue (h ▸ ht)⟩

theorem Timely.step? (h : r.Timely) (hs : r.step? = some r') : r'.Timely := by
  obtain ⟨now, hnext, rfl⟩ := Option.map_eq_some_iff.1 hs
  obtain ⟨hle, hle', -⟩ := le_next? hnext
  obtain ⟨hquiet, hnow, hblock, hbeacon⟩ :=
    quiet_settle (r := { r with fleet := r.fleet.moveTo now }) h.quiet.lost h.quiet.kept
  generalize LocalRun.settle _ = settled at hquiet hnow hblock hbeacon
  obtain ⟨world, nextBeacon, heq, hlater⟩ := settled.tickBeacon_eq fun t ht =>
    Nat.le_trans (Nat.le_of_eq hnow) (hle' t (hbeacon ▸ ht))
  rw [heq]
  refine .tickBlock (hquiet.world world) (fun t ht => ?_) hlater
  exact Nat.le_trans (Nat.le_of_eq hnow) (hle t (hblock ▸ ht))

/-- **Throughout a local run all agents rest in between.** -/
theorem Timely.run (h : r.Timely) (n : Nat) : (run n r).Timely := by
  induction n generalizing r with
  | zero => exact h
  | succ n ih =>
    unfold LocalRun.run
    split_ifs
    · exact h
    split
    · exact ih (h.step? ‹_›)
    · exact h

/-- **Between two instants of a local run only time passes** for a behaviour that submits a vote and
waits. So the clock of a local run never moves on over work that could go on. -/
theorem leads_next {o : Console.RunOptions} {dir : Option DataDir} {fresh : List SecretKey}
    (h : start o dir fresh = .ok r) (n : Nat) (hnext : (run n r).next? = some now) :
    (run n r).fleet.scene.now < now ∧
      ∀ a ∈ (run n r).fleet.agents, ∀ kind t, a.AtWork ⟨kind, Effort.ofBehaviour t⟩ →
        t.waiting.isSome →
          Effort.Leads a.config.behaviour (Effort.ofTask t (a.site (run n r).fleet.scene))
            (Effort.ofTask t (a.site ((run n r).fleet.moveTo now).scene)) := by
  have htimely := (timely_start h).run n
  have hlt := htimely.lt_next? hnext
  obtain ⟨-, -, hdue⟩ := le_next? hnext
  exact ⟨hlt, fun a ha _ _ hwork hw => htimely.quiet.leads (Nat.le_of_lt hlt) hdue ha hwork hw⟩

end LocalRun

end Quorum
