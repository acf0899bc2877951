import Quorum.Proofs.Agent.Scheduler
import Quorum.Proofs.Application.Versions
import Quorum.Proofs.Checkpoint.Retention

/-!
# The checkpoints that an agent saves

An agent saves a checkpoint after every transition of its application, and removes those that have
become too old.

* `Agent.Saved` : an agent has saved some checkpoints and has done nothing else to its store;
* `Agent.saved_applyBlock`, `Chronicle.Change.saved` : a block with a transition saves one, and
  nothing else that an agent is given does;
* `Chronicle.milestones` : the checkpoints of the application right after its transitions;
* `Chronicle.saved_follow` : these are saved;
* `Chronicle.last_checkpoints_kept` : so the last ones are in the store, as many as it is to keep.
-/

namespace Quorum

namespace Agent

/-- An agent has saved a checkpoint with each transition, under the version that it led to. -/
structure Saved (a a' : Agent) (cs : List Checkpoint) : Prop where
  config : a'.config = a.config
  store : a'.store = a.store.map (·.saveAllKeeping a.config.keep cs)
  transitions : a'.transitions.length = a.transitions.length + cs.length
  version : a'.app.data.version.toNat = a.app.data.version.toNat + cs.length
  numbered : Numbered (a.app.data.version.toNat + 1) (cs.map Checkpoint.data)

variable {a a' a'' : Agent} {b : Block} {cs ds : List Checkpoint}

theorem Saved.trans (h : a.Saved a' cs) (h' : a'.Saved a'' ds) : a.Saved a'' (cs ++ ds) where
  config := h'.config.trans h.config
  store := by
    rw [h'.store, h.store, h.config, Option.map_map]
    refine congrArg (a.store.map ·) (funext fun s => ?_)
    exact (s.saveAllKeeping_append _ _ _).symm
  transitions := by
    rw [h'.transitions, h.transitions, List.length_append, Nat.add_assoc]
  version := by
    rw [h'.version, h.version, List.length_append, Nat.add_assoc]
  numbered := by
    have hfirst : a'.app.data.version.toNat + 1 = a.app.data.version.toNat + 1 + cs.length := by
      rw [h.version]
      omega
    have hds := h'.numbered
    rw [hfirst] at hds
    have hcs := h.numbered
    unfold Numbered at *
    simp only [List.map_append, List.length_append, List.length_map] at *
    rw [hcs, hds, List.range'_append_1]

/-- The checkpoint of the application, if the last thing that happened led to a transition. -/
def milestone (a a' : Agent) : List Checkpoint :=
  if a'.transitions.length = a.transitions.length then [] else [a'.app.checkpoint]

theorem saved_of_same (config : a'.config = a.config) (store : a'.store = a.store)
    (transitions : a'.transitions = a.transitions)
    (version : a'.app.data.version = a.app.data.version) : a.Saved a' (a.milestone a') := by
  have hnone : a.milestone a' = [] := if_pos (congrArg List.length transitions)
  rw [hnone]
  exact ⟨config, store.trans Option.map_id'.symm, congrArg List.length transitions,
    congrArg Counter.toNat version, rfl⟩

theorem Saved.refl (a : Agent) : a.Saved a [] := by
  have h : a.Saved a (a.milestone a) := saved_of_same rfl rfl rfl rfl
  rwa [show a.milestone a = [] from if_pos rfl] at h

theorem Retains.saved (h : a.Retains a') : a.Saved a' (a.milestone a') :=
  saved_of_same h.config h.store h.transitions (by rw [h.app])

/-- **A block with a transition saves a checkpoint.** -/
theorem saved_applyBlock (h : a.applyBlock b = .ok a') : a.Saved a' (a.milestone a') := by
  obtain ⟨app, o, nextHeight, hproc, -, hcases⟩ := applyBlock_cases h
  obtain ⟨hadvance, -⟩ := Application.processBlock_advances hproc
  rcases hcases with ⟨hnone, rfl⟩ | ⟨t, hsome, hfollow⟩
  · rw [hnone] at hadvance
    cases hadvance with
    | stays same =>
      exact saved_of_same rfl rfl rfl (congrArg Snapshot.version same.data)
  · rw [hsome] at hadvance
    cases hadvance with
    | moves moves =>
      have hr := retains_of_followTransition hfollow
      have hlength : a'.transitions.length = a.transitions.length + 1 :=
        congrArg List.length hr.transitions
      have hversion : a'.app.data.version.toNat = a.app.data.version.toNat + 1 := by
        rw [hr.app]
        exact moves.revises.version
      have hmilestone : a.milestone a' = [a'.app.checkpoint] := if_neg (by omega)
      rw [hmilestone]
      refine ⟨hr.config, ?_, hlength, hversion, ?_⟩
      · rw [hr.store, hr.app]
        rfl
      · show [a'.app.data.version.toNat] = List.range' _ 1
        rw [hversion]
        rfl

end Agent

namespace Chronicle

variable {c c' : Chronicle}

/-- **Whatever an agent is given, it saves a checkpoint exactly with a transition.** -/
theorem Change.saved (h : c.Change c') : c.agent.Saved c'.agent (c.agent.milestone c'.agent) := by
  have polled (a : Agent) (foreground background : Option Duty) (d : External.Dispatcher) :
      a.Retains { a with foreground, background, dispatcher := d } := a.retains_of_duties _ _ _ _
  cases h with
  | heeds stopRequested stoppable => exact Agent.saved_of_same rfl rfl rfl rfl
  | hears requests => exact (polled _ _ _ _).saved
  | stops serving => exact c.agent.retains_stop.saved
  | fails serving e => exact Agent.saved_of_same rfl rfl rfl rfl
  | @checks duty task d starting same requests =>
    have hchecks : ({ c.agent with dispatcher := d } : Agent).Retains
        { c.agent with dispatcher := d, phase := .starting ⟨duty.kind, task⟩ } :=
      Agent.retains_phase _ fun _ _ hp => by cases hp
    exact ((polled _ _ _ _).trans hchecks).saved
  | checked starting requests r =>
    exact ((polled _ _ _ _).trans (Agent.retains_afterCheck _ r)).saved
  | goesOn serving runs same requests => exact (polled _ _ _ _).saved
  | ends serving runs requests r =>
    exact ((polled _ _ _ _).trans (Agent.retains_afterDuty _ _ r)).saved
  | goesOnBehind serving runs same requests => exact (polled _ _ _ _).saved
  | endsBehind serving runs requests r =>
    exact ((polled _ _ _ _).trans (Agent.retains_afterDuty _ _ r)).saved
  | applies serving applied =>
    rw [agent_applied]
    exact Agent.saved_applyBlock applied

/-- The checkpoints of the application right after each of its transitions, in order. -/
def milestones (c : Chronicle) : List Cue → List Checkpoint
  | [] => []
  | cue :: cues => c.agent.milestone (c.turn cue).agent ++ (c.turn cue).milestones cues

/-- **These are saved, and nothing else.** -/
theorem saved_follow (c : Chronicle) (cues : List Cue) :
    c.agent.Saved (c.follow cues).agent (c.milestones cues) := by
  induction cues generalizing c with
  | nil => exact .refl c.agent
  | cons cue cues ih => exact (change_turn c cue).saved.trans (ih (c.turn cue))

section
variable {config : AgentConfig} {from? : Option Checkpoint} {a₀ : Agent} {s₀ : CheckpointStore}

/-- **The last checkpoints are kept.** An agent starts at the version `first`, on a store that holds
no later version, and is to keep some number of checkpoints, at least one. Whatever it is given, once
its application has made `m` transitions its store holds, at the versions that are less than this
number below the last one, exactly the checkpoints of the application right after the transitions,
and before those what it held already. So there are at most as many as it is to keep, never fewer
than that or the number of transitions, and the latest is that of the last transition. -/
theorem last_checkpoints_kept (h : Agent.create config from? = .ok a₀)
    (h₀ : ∀ v d, s₀.load? v = some d → v.toNat ≤ a₀.app.data.version.toNat) (stoppable : Bool)
    {cues : List Cue} {c : Chronicle} {cs : List Checkpoint} {keep first m : Nat}
    (hc : (begin { a₀ with store := some s₀, stoppable }).follow cues = c)
    (hcs : (begin { a₀ with store := some s₀, stoppable }).milestones cues = cs)
    (hkeep : max config.keep 1 = keep) (hfirst : a₀.app.data.version.toNat = first)
    (hm : c.agent.transitions.length = m) (hpos : 0 < m) :
    cs.length = m ∧ (∀ i d, cs[i]? = some d → d.data.version.toNat = first + 1 + i) ∧
      ∃ s, c.agent.store = some s ∧ s.KeepsLast s₀ keep first cs := by
  have hsaved := saved_follow (begin { a₀ with store := some s₀, stoppable }) cues
  have hstart : a₀.config.keep = keep ∧ a₀.transitions = [] := by
    obtain ⟨x, nextHeight, next, check, -, -, -, -, rfl⟩ := Agent.create_eq_ok h
    exact ⟨hkeep, rfl⟩
  rw [hc, hcs] at hsaved
  obtain ⟨-, hstore, htransitions, -, hn⟩ := hsaved
  have hstore : c.agent.store = some (s₀.saveAllKeeping a₀.config.keep cs) := hstore
  have hn : Numbered (a₀.app.data.version.toNat + 1) (cs.map Checkpoint.data) := hn
  have hlength : cs.length = m := by
    rw [← hm, htransitions]
    show cs.length = a₀.transitions.length + cs.length
    rw [hstart.2]
    exact (Nat.zero_add _).symm
  rw [hstart.1] at hstore
  rw [hfirst] at hn h₀
  exact ⟨hlength, fun i d hd => hn.toNat_getElem? hd, _, hstore,
    CheckpointStore.keepsLast_saveAllKeeping (by omega) h₀ hn (List.ne_nil_of_length_pos (by omega))⟩

/-- A peer that is to keep three checkpoints. -/
def keepingThree : AgentConfig where
  key := Octets.zero
  app := Application.brief
  keep := 3

/-- A store from before the peer started, at the versions 2 and 3. -/
def earlierStore : CheckpointStore :=
  ((CheckpointStore.empty true).save { Application.thirdAttempt with
    data := ⟨Counter.ofNat 2, SortedMap.empty⟩ }).save Application.thirdAttempt

/-- The chain is where the peer resumes, and two blocks come. -/
def twoBlocks : List Cue :=
  .checks { gateway := Gateway.start (Counter.ofNat 9), world := { beacon := { seed := Octets.zero } } }
    :: Application.emptyBlocks.map .block

/-- The peer resumes at version 3 and makes two transitions. Version 2 is dropped with the last of
them, version 3 stays. -/
theorem last_checkpoints_kept_of_resumed : ∃ a₀ c s cs,
    Agent.create keepingThree (some Application.thirdAttempt) = .ok a₀ ∧
    (begin { a₀ with store := some earlierStore }).follow twoBlocks = c ∧
    (begin { a₀ with store := some earlierStore }).milestones twoBlocks = cs ∧
    c.agent.store = some s ∧ cs.length = 2 ∧
    earlierStore.load? (Counter.ofNat 2) ≠ none ∧ s.load? (Counter.ofNat 2) = none ∧
    s.load? (Counter.ofNat 3) = some Application.thirdAttempt ∧
    s.load? (Counter.ofNat 4) = cs[0]? ∧ s.latest? = cs[1]? := by
  obtain ⟨a₀, ha⟩ : ∃ a₀, Agent.create keepingThree (some Application.thirdAttempt) = .ok a₀ :=
    ⟨_, rfl⟩
  have hm : ((begin { a₀ with store := some earlierStore }).follow twoBlocks).agent.transitions.length =
      2 := by
    cases ha
    rfl
  have hfirst : a₀.app.data.version.toNat = 3 := by
    cases ha
    rfl
  have h₀ (v : Version) (d : Checkpoint) (hd : earlierStore.load? v = some d) :
      v.toNat ≤ a₀.app.data.version.toNat := by
    have hv : v ∈ [Counter.ofNat 2, Counter.ofNat 3] := CheckpointStore.mem_versions_iff.2 ⟨d, hd⟩
    rcases List.mem_pair.1 hv with rfl | rfl <;> rw [hfirst] <;> decide
  obtain ⟨hlength, -, s, hs, hload, -, -, hlatest⟩ :=
    last_checkpoints_kept ha h₀ a₀.stoppable rfl rfl rfl hfirst hm (by decide)
  rw [hlength] at hload
  refine ⟨a₀, _, s, _, ha, rfl, rfl, hs, hlength, by decide, ?_, ?_, ?_, ?_⟩
  · refine Option.eq_none_iff_forall_ne_some.2 fun d hd => ?_
    exact absurd ((hload _ d).1 hd).1 (by decide)
  · exact (hload _ _).2 ⟨by decide, .inl ⟨by decide, rfl⟩⟩
  · rw [List.getElem?_eq_getElem (by omega)]
    exact (hload _ _).2 ⟨by decide, .inr ⟨by decide, List.getElem?_eq_getElem _⟩⟩
  · rw [hlatest, List.getLast?_eq_getElem?, hlength]

end

end Chronicle

end Quorum
