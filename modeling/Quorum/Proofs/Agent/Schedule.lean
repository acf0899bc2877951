import Quorum.Local.Run
import Quorum.Proofs.Agent.Agreement

/-!
# The schedule of a local run

A local run lets its peers act in a fixed order, moves the clock on and commits blocks. All of it
consists of moves, so what holds after all moves holds throughout a local run.

* `Fleet.Leads` : moves lead from one fleet to another;
* `Fleet.leads_pass`, `Fleet.leads_settle` : so does whatever the agents do at an instant;
* `LocalRun.leads_step?`, `LocalRun.leads_run` : and all that follows after the start;
* `LocalRun.local_peers_agree` : peers of a local run that are at the same height agree.
-/

namespace Quorum

namespace Fleet

/-- Moves lead from one fleet to another. -/
def Leads (f f' : Fleet) : Prop := ∃ ms, f.after ms = f'

variable {f f' f'' : Fleet}

theorem Leads.refl (f : Fleet) : f.Leads f := ⟨[], rfl⟩

theorem Leads.trans (h : f.Leads f') (h' : f'.Leads f'') : f.Leads f'' := by
  obtain ⟨ms, rfl⟩ := h
  obtain ⟨ms', rfl⟩ := h'
  exact ⟨ms ++ ms', f.after_append ms ms'⟩

theorem leads_move (f : Fleet) (m : Move) : f.Leads (f.move m) := ⟨[m], rfl⟩

theorem leads_acts {i : Nat} {a : Agent} (ha : f.agents[i]? = some a) (act : Act) :
    f.Leads { f with
      scene := (a.act f.scene act).2
      agents := f.agents.set i (a.act f.scene act).1 } :=
  move_acts ha act ▸ f.leads_move _

/-- The world outside and the clock may change at any time. -/
theorem leads_elapses (f : Fleet) (now : Instant) (world : External.World) :
    f.Leads { f with scene := { f.scene with now, world } } := by
  have h := f.leads_move (.elapses now world)
  unfold move at h
  rwa [show f.agents.mapIdx _ = f.agents from f.agents_move (m := .elapses now world) nofun] at h

/-! ## What agents do at an instant -/

theorem leads_steps (fuel : Nat) {i : Nat} {a : Agent} (ha : f.agents[i]? = some a) :
    f.Leads { f with
      scene := (a.steps fuel f.scene).2
      agents := f.agents.set i (a.steps fuel f.scene).1 } := by
  induction fuel generalizing f a with
  | zero =>
    have hsame : f.agents.set i a = f.agents := by
      obtain ⟨hlt, rfl⟩ := List.getElem?_eq_some_iff.1 ha
      exact List.set_getElem_self hlt
    show f.Leads { f with agents := f.agents.set i a }
    rw [hsame]
    exact .refl f
  | succ fuel ih =>
    have hstep := leads_acts ha .steps
    unfold Agent.steps
    split
    · rename_i h
      simpa only [Agent.act, h] using hstep
    · rename_i a' s' h
      simp only [Agent.act, h] at hstep
      have hlt := (List.getElem?_eq_some_iff.1 ha).1
      have hrest := ih (f := { f with scene := s', agents := f.agents.set i a' })
        (List.getElem?_set_self hlt)
      rw [List.set_set] at hrest
      exact hstep.trans hrest

theorem leads_agent_pass {i : Nat} {a : Agent} (ha : f.agents[i]? = some a) :
    f.Leads { f with
      scene := (a.pass f.scene).2
      agents := f.agents.set i (a.pass f.scene).1 } := by
  have hlt := (List.getElem?_eq_some_iff.1 ha).1
  have hrest := leads_steps Agent.stepLimit (List.getElem?_set_self hlt
    (a := { a with dispatcher := a.dispatcher.deliverAll.1 }))
    (f := { f with agents := f.agents.set i { a with dispatcher := a.dispatcher.deliverAll.1 } })
  rw [List.set_set] at hrest
  exact (leads_acts ha .hears).trans hrest

theorem leads_passList (lost : List Nat) (done as : List Agent) (h : f.agents = done ++ as) :
    f.Leads { f with
      scene := (passList lost done.length as f.scene).2
      agents := done ++ (passList lost done.length as f.scene).1 } := by
  induction as generalizing f done with
  | nil =>
    show f.Leads { f with agents := done ++ [] }
    rw [← h]
    exact .refl f
  | cons a as ih =>
    have hget : f.agents[done.length]? = some a := by
      rw [h, List.getElem?_append_right (Nat.le_refl _), Nat.sub_self]
      rfl
    -- the agent at this position goes first, if it is not lost
    generalize hone : (if lost.contains done.length then (a, f.scene) else a.pass f.scene) = one
    have hfirst : f.Leads { f with scene := one.2, agents := (done ++ [one.1]) ++ as } := by
      rw [List.append_assoc]
      subst hone
      split_ifs
      · show f.Leads { f with agents := done ++ a :: as }
        rw [← h]
        exact .refl f
      · have hpass := leads_agent_pass hget
        rw [h, List.set_append_right _ _ (Nat.le_refl _), Nat.sub_self] at hpass
        exact hpass
    have hboth := hfirst.trans (ih (done ++ [one.1]) rfl)
    simp only [List.append_assoc, List.length_append] at hboth
    unfold passList
    simp only [hone]
    exact hboth

theorem leads_pass (f : Fleet) : f.Leads f.pass := leads_passList f.lost [] f.agents rfl

theorem leads_settleIn (fuel : Nat) (f : Fleet) : f.Leads (settleIn fuel f) := by
  induction fuel generalizing f with
  | zero => exact .refl f
  | succ fuel ih =>
    unfold settleIn
    simp only
    split_ifs
    · exact f.leads_pass.trans (ih f.pass)
    · exact f.leads_pass

theorem leads_settle (f : Fleet) : f.Leads f.settle := f.leads_settleIn _

theorem leads_moveTo (f : Fleet) (now : Instant) : f.Leads (f.moveTo now) :=
  f.leads_elapses now f.scene.world

theorem leads_produce? (h : f.produce? = some f') : f.Leads f' := by
  obtain ⟨p, hp, rfl⟩ := Option.map_eq_some_iff.1 h
  have hmove := f.leads_move .produces
  unfold move at hmove
  rw [show f.agents.mapIdx _ = f.agents from f.agents_move (m := .produces) nofun] at hmove
  simp only [sceneAfter, hp, Option.elim_some] at hmove
  exact hmove.trans (leads_settle _)

end Fleet

/-! ## Local runs -/

/-- Every result of a list of computations is one of theirs. -/
theorem exists_of_mem_mapM {α β ε : Type} {f : α → Except ε β} {as : List α} {bs : List β}
    (h : as.mapM f = .ok bs) {b : β} (hb : b ∈ bs) : ∃ a ∈ as, f a = .ok b := by
  induction as generalizing bs with
  | nil =>
    cases h
    cases hb
  | cons a as ih =>
    rw [List.mapM_cons] at h
    obtain ⟨c, hc, h⟩ := bind_eq_ok.1 h
    obtain ⟨cs, hcs, h⟩ := bind_eq_ok.1 h
    cases h
    rcases List.mem_cons.1 hb with rfl | hb
    · exact ⟨a, List.mem_cons_self, hc⟩
    · obtain ⟨a', ha', hf⟩ := ih hcs hb
      exact ⟨a', List.mem_cons_of_mem a ha', hf⟩

namespace LocalRun

variable {r r' : LocalRun}

theorem leads_signalEnd (r : LocalRun) : r.fleet.Leads r.signalEnd.fleet := by
  unfold signalEnd
  simp only
  split_ifs
  · exact r.fleet.leads_elapses _ _
  · exact .refl r.fleet

theorem leads_settle (r : LocalRun) : r.fleet.Leads r.settle.fleet :=
  r.fleet.leads_settle.trans (leads_signalEnd { r with fleet := r.fleet.settle })

theorem leads_tickBeacon (r : LocalRun) : r.fleet.Leads r.tickBeacon.fleet := by
  unfold tickBeacon
  simp only
  split_ifs
  · exact r.fleet.leads_elapses _ _
  · exact .refl r.fleet

theorem leads_tickBlock (r : LocalRun) : r.fleet.Leads r.tickBlock.fleet := by
  unfold tickBlock
  split_ifs
  · split
    · exact (Fleet.leads_produce? ‹_›).trans (leads_signalEnd _)
    · exact .refl r.fleet
  · exact .refl r.fleet

theorem leads_step? (h : r.step? = some r') : r.fleet.Leads r'.fleet := by
  obtain ⟨now, -, rfl⟩ := Option.map_eq_some_iff.1 h
  have hsettle := (r.fleet.leads_moveTo now).trans
    (leads_settle { r with fleet := r.fleet.moveTo now })
  exact (hsettle.trans (leads_tickBeacon _)).trans (leads_tickBlock _)

theorem leads_run (n : Nat) (r : LocalRun) : r.fleet.Leads (run n r).fleet := by
  induction n generalizing r with
  | zero => exact .refl r.fleet
  | succ n ih =>
    unfold run
    split_ifs
    · exact .refl r.fleet
    split
    · exact (leads_step? ‹_›).trans (ih _)
    · exact .refl r.fleet

/-- The peers of a local run start alike. -/
theorem exists_begins {o : Console.RunOptions} {dir : Option DataDir} {fresh : List SecretKey}
    (h : start o dir fresh = .ok r) :
    ∃ (f : Fleet) (params : AppParams) (from? : Option Checkpoint),
      f.Begins params from? ∧ f.Leads r.fleet := by
  obtain ⟨-, -, h⟩ := bind_eq_ok.1 h
  obtain ⟨keys, -, h⟩ := bind_eq_ok.1 h
  obtain ⟨agents, hagents, h⟩ := bind_eq_ok.1 h
  cases h
  refine ⟨_, ⟨PeerSet.ofList (keys.map SecretKey.publicKey), o.roundTimeoutBlocks,
    o.historyLen.toNat⟩, dir.bind (·.restorePoint? o.peers.toNat), ⟨rfl, fun a ha => ?_⟩,
    (leads_signalEnd _).trans (leads_settle _)⟩
  obtain ⟨⟨key, i⟩, -, hcreated⟩ := exists_of_mem_mapM hagents ha
  simp only [createAgent] at hcreated
  split at hcreated
  · cases hcreated
  · rename_i a₀ hcreate
    cases hcreated
    exact ⟨_, a₀, _, a₀.stoppable, rfl, hcreate, rfl⟩

/-- **Peers of a local run agree**, whenever they are at the same height. -/
theorem local_peers_agree {o : Console.RunOptions} {dir : Option DataDir} {fresh : List SecretKey}
    (h : start o dir fresh = .ok r) (n : Nat) {a b : Agent} (ha : a ∈ (run n r).fleet.agents)
    (hb : b ∈ (run n r).fleet.agents) (heq : a.app.height = b.app.height) :
    a.app.checkpoint = b.app.checkpoint := by
  obtain ⟨f, params, from?, hbegins, hleads⟩ := exists_begins h
  obtain ⟨ms, hms⟩ := hleads.trans (leads_run n r)
  rw [← hms] at ha hb
  exact hbegins.checkpoint_eq ms [] ha (by rwa [List.append_nil]) heq

end LocalRun

end Quorum
