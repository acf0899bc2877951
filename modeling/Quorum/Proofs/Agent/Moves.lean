import Quorum.Proofs.Agent.Duties
import Quorum.Proofs.Gateway.Chain

/-!
# What can happen among peers

Peers on one gateway act one at a time and in any order. Meanwhile others hand in submissions, the
gateway commits blocks, and time passes.

* `Act`, `Agent.act` : what an agent can do next;
* `Move`, `Fleet.move` : what can happen next;
* `Fleet.after`, `Fleet.committed` : the peers after moves, and the blocks committed meanwhile;
* `Agent.moved_turn` : for an agent every move is a turn;
* `Fleet.holds_move` : the gateway holds the chain of what is committed;
* `Fleet.stopped_after` : an agent that has stopped stays as it is.
-/

namespace Quorum

/-- What an agent can do next. -/
inductive Act where
  | steps
  /-- It goes on with its behaviours, or only with the one in the background, although there may be
  a block. -/
  | lingers (background : Bool)
  /-- The responses that have come in are offered. -/
  | hears
  /-- It is asked to stop. -/
  | stops

/-- What can happen next among peers on one gateway. -/
inductive Move where
  /-- Someone hands in a submission. -/
  | submits (s : Submission)
  /-- The next submissions will go unanswered. -/
  | fails (n : Nat)
  | syncs (syncing : Bool)
  /-- The gateway commits a block. -/
  | produces
  /-- Time passes, and the world outside changes. -/
  | elapses (now : Instant) (world : External.World)
  /-- The agent at a position acts. -/
  | acts (i : Nat) (act : Act)

/-! ## Agents -/

namespace Agent

/-- Go on with behaviours only. -/
def linger (a : Agent) (s : Scene) (background : Bool) : Agent × Scene × Progress :=
  match a.phase with
  | .serving =>
    if a.app.isFinished then (a, s, .idle)
    else if background then a.stepBackground s
    else a.stepForeground s
  | _ => (a, s, .idle)

/-- An agent and what it shares after it has acted. -/
def act (a : Agent) (s : Scene) : Act → Agent × Scene
  | .steps => ((a.step s).1, (a.step s).2.1)
  | .lingers background => ((a.linger s background).1, (a.linger s background).2.1)
  | .hears => ({ a with dispatcher := a.dispatcher.deliverAll.1 }, s)
  | .stops => (a.requestStop, s)

/-- What a move does to the agent at a position. -/
def moved (a : Agent) (s : Scene) (i : Nat) : Move → Agent
  | .acts j act => if i = j then (a.act s act).1 else a
  | _ => a

variable {a : Agent} {r : Except AgentError Report}

theorem retains_linger (a : Agent) (s : Scene) (background : Bool) :
    a.Retains (a.linger s background).1 := by
  unfold linger
  split
  · split_ifs
    · exact .refl a
    · exact a.retains_stepBackground s
    · exact a.retains_stepForeground s
  · exact .refl a

theorem act_turn (a : Agent) (s : Scene) (act : Act) : a.Turn s.gateway (a.act s act).1 := by
  cases act with
  | steps => exact a.step_turn s
  | lingers background => exact .retains (a.retains_linger s background)
  | hears => exact .retains (a.retains_of_duties _ _ _ _)
  | stops =>
    unfold Agent.act requestStop
    split_ifs
    · exact .retains ⟨rfl, rfl, rfl, rfl, rfl, rfl, rfl, rfl, id⟩
    · exact .retains (.refl a)

theorem moved_turn (a : Agent) (s : Scene) (i : Nat) (m : Move) :
    a.Turn s.gateway (a.moved s i m) := by
  unfold moved
  split
  · split_ifs
    · exact a.act_turn s _
    · exact .retains (.refl a)
  · exact .retains (.refl a)

section
variable {P : Gateway → Prop} (hP : ∀ g s, P g → P (g.submit s).1)
include hP

theorem linger_gateway (a : Agent) (s : Scene) (background : Bool) (hs : P s.gateway) :
    P (a.linger s background).2.1.gateway := by
  unfold linger
  split
  · split_ifs
    · exact hs
    · exact a.stepBackground_gateway hP s hs
    · exact a.stepForeground_gateway hP s hs
  · exact hs

/-- An agent changes the gateway by submissions only. -/
theorem act_gateway (a : Agent) (s : Scene) (act : Act) (hs : P s.gateway) :
    P (a.act s act).2.gateway := by
  cases act with
  | steps => exact a.step_gateway hP s hs
  | lingers background => exact a.linger_gateway hP s background hs
  | hears => exact hs
  | stops => exact hs

end

theorem act_of_stopped (h : a.phase = .stopped r) (s : Scene) (act : Act) :
    (a.act s act).1.phase = .stopped r ∧ (a.act s act).1.app = a.app := by
  cases act with
  | steps =>
    unfold Agent.act step
    rw [h]
    exact ⟨h, rfl⟩
  | lingers background =>
    unfold Agent.act linger
    rw [h]
    exact ⟨h, rfl⟩
  | hears => exact ⟨h, rfl⟩
  | stops =>
    unfold Agent.act requestStop
    split_ifs <;> exact ⟨h, rfl⟩

theorem moved_of_stopped (h : a.phase = .stopped r) (s : Scene) (i : Nat) (m : Move) :
    (a.moved s i m).phase = .stopped r ∧ (a.moved s i m).app = a.app := by
  unfold moved
  split
  · split_ifs
    · exact act_of_stopped h s _
    · exact ⟨h, rfl⟩
  · exact ⟨h, rfl⟩

end Agent

/-! ## Fleets -/

namespace Fleet

/-- What the peers share after a move. -/
def sceneAfter (f : Fleet) : Move → Scene
  | .submits s => { f.scene with gateway := (f.scene.gateway.submit s).1 }
  | .fails n => { f.scene with gateway := { f.scene.gateway with failNext := n } }
  | .syncs syncing => { f.scene with gateway := { f.scene.gateway with syncing } }
  | .produces => { f.scene with gateway := f.scene.gateway.produce?.elim f.scene.gateway Prod.fst }
  | .elapses now world => { f.scene with now, world }
  | .acts i act => f.agents[i]?.elim f.scene fun a => (a.act f.scene act).2

/-- The peers after a move. -/
def move (f : Fleet) (m : Move) : Fleet :=
  { f with
    scene := f.sceneAfter m
    agents := f.agents.mapIdx fun i a => a.moved f.scene i m }

/-- The block that is committed with a move. -/
def commits (f : Fleet) : Move → List Block
  | .produces => (f.scene.gateway.produce?.map Prod.snd).toList
  | _ => []

/-- The peers after moves. -/
def after (f : Fleet) (ms : List Move) : Fleet := ms.foldl move f

/-- The blocks that are committed with moves. -/
def committed (f : Fleet) : List Move → List Block
  | [] => []
  | m :: ms => f.commits m ++ (f.move m).committed ms

theorem after_append (f : Fleet) (ms ms' : List Move) :
    f.after (ms ++ ms') = (f.after ms).after ms' := List.foldl_append

theorem committed_append (f : Fleet) (ms ms' : List Move) :
    f.committed (ms ++ ms') = f.committed ms ++ (f.after ms).committed ms' := by
  induction ms generalizing f with
  | nil => rfl
  | cons m ms ih =>
    show f.commits m ++ (f.move m).committed (ms ++ ms') = _
    rw [ih, ← List.append_assoc]
    rfl

theorem committed_concat (f : Fleet) (ms : List Move) (m : Move) :
    f.committed (ms ++ [m]) = f.committed ms ++ (f.after ms).commits m := by
  rw [committed_append]
  exact congrArg _ (List.append_nil _)

theorem getElem?_move (f : Fleet) (m : Move) (i : Nat) :
    (f.move m).agents[i]? = f.agents[i]?.map fun a => a.moved f.scene i m := List.getElem?_mapIdx

/-- What is no act of an agent leaves the agents as they are. -/
theorem agents_move (f : Fleet) {m : Move} (h : ∀ i act, m ≠ .acts i act) :
    (f.move m).agents = f.agents := by
  refine List.ext_getElem? fun i => ?_
  rw [getElem?_move]
  cases m with
  | acts i act => exact absurd rfl (h i act)
  | _ => exact Option.map_id'

theorem move_acts {f : Fleet} {i : Nat} {a : Agent} (ha : f.agents[i]? = some a) (act : Act) :
    f.move (.acts i act) =
      { f with scene := (a.act f.scene act).2, agents := f.agents.set i (a.act f.scene act).1 } := by
  have hagents : (f.move (.acts i act)).agents = f.agents.set i (a.act f.scene act).1 := by
    refine List.ext_getElem? fun j => ?_
    rw [getElem?_move, List.getElem?_set]
    by_cases hij : i = j
    · subst hij
      rw [if_pos rfl, if_pos (List.getElem?_eq_some_iff.1 ha).1, ha]
      simp only [Agent.moved, if_true, Option.map_some]
    · simp only [Agent.moved, if_neg hij, if_neg (Ne.symm hij), Option.map_id']
  have hscene : f.sceneAfter (.acts i act) = (a.act f.scene act).2 := by
    simp only [sceneAfter, ha, Option.elim_some]
  rw [← hagents, ← hscene]
  rfl

theorem length_after (f : Fleet) (ms : List Move) :
    (f.after ms).agents.length = f.agents.length := by
  induction ms generalizing f with
  | nil => rfl
  | cons m ms ih => exact (ih (f.move m)).trans List.length_mapIdx

variable {f : Fleet} {start : Height} {chain : List Block}

/-- **The gateway holds the chain of what is committed**, whatever the peers do. -/
theorem holds_move (h : f.scene.gateway.Holds start chain) (m : Move) :
    (f.move m).scene.gateway.Holds start (chain ++ f.commits m) := by
  have stays {g : Gateway} (hg : g.Holds start chain) : g.Holds start (chain ++ []) := by
    rwa [List.append_nil]
  -- one kind of move commits, and of the others only a submission, by whomever, touches the gateway
  cases m with
  | submits s => exact stays (h.submit s)
  | fails n => exact stays ⟨h.startHeight, h.blocks, h.inOrder⟩
  | syncs syncing => exact stays ⟨h.startHeight, h.blocks, h.inOrder⟩
  | produces =>
    simp only [move, sceneAfter, commits]
    cases hp : f.scene.gateway.produce? with
    | none => exact stays h
    | some p => exact h.produce? hp
  | elapses now world => exact stays h
  | acts i act =>
    refine stays ?_
    simp only [move, sceneAfter]
    cases f.agents[i]? with
    | none => exact h
    | some a =>
      exact a.act_gateway (P := fun g => g.Holds start chain) (fun _ s hg => hg.submit s) f.scene act h

theorem stopped_after {i : Nat} {a : Agent} {r : Except AgentError Report}
    (ha : f.agents[i]? = some a) (hr : a.phase = .stopped r) (ms : List Move) :
    ∃ a', (f.after ms).agents[i]? = some a' ∧ a'.phase = .stopped r ∧ a'.app = a.app := by
  induction ms generalizing f a with
  | nil => exact ⟨a, ha, hr, rfl⟩
  | cons m ms ih =>
    obtain ⟨hr', happ⟩ := Agent.moved_of_stopped hr f.scene i m
    have hnext : (f.move m).agents[i]? = some (a.moved f.scene i m) := by
      rw [getElem?_move, ha, Option.map_some]
    obtain ⟨a', ha', hphase, happ'⟩ := ih hnext hr'
    exact ⟨a', ha', hphase, happ'.trans happ⟩

end Fleet

end Quorum
