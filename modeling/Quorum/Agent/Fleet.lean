import Quorum.Agent.Basic

/-!
# Peers on one gateway

* `Scene` : what peers share at an instant: the time, the gateway and the world outside;
* `Agent.pass` : an agent does all that it can at an instant;
* `Fleet` : agents in a fixed order; `Fleet.settle` lets each of them do all that it can;
* `Fleet.advance`, `Fleet.produce?` : time passes, a block is committed.
-/

namespace Quorum

/-- What peers share at an instant. -/
structure Scene where
  now : Instant := 0
  gateway : Gateway
  world : External.World

namespace Agent

/-- What a behaviour of an agent can reach. -/
def site (a : Agent) (s : Scene) : Site :=
  ⟨s.now, s.gateway, s.world, a.dispatcher, a.info, a.snapshot⟩

/-- Go on with a behaviour; its result, if it is over. -/
def pollDuty (a : Agent) (s : Scene) (duty : Duty) :
    Agent × Scene × Duty × Option (Except BehaviourError Unit) :=
  let (task, site, r) :=
    duty.task.poll (Stage.step a.config.behaviour a.config.key) Task.stepLimit (a.site s)
  ({ a with dispatcher := site.dispatcher }, ⟨s.now, site.gateway, site.world⟩,
    { duty with task }, r)

/-- After a behaviour is over: only some errors stop the agent. -/
def afterDuty (a : Agent) (kind : BehaviourKind) : Except BehaviourError Unit → Agent
  | .ok () => a
  | .error e => if e.isFatal then a.fail (.behaviour kind e) else a

/-- After the health check: start the behaviours of the rounds. -/
def afterCheck (a : Agent) : Except BehaviourError Unit → Agent
  | .error e => a.fail (.startup e)
  | .ok () =>
    let a := { a with phase := .serving }
    if a.app.isFinished then a
    else
      match a.engageForeground.bind engageBackground with
      | .ok b => b
      | .error e => a.fail (.fatal e)

/-- What a step of an agent comes to: it may be able to do more. -/
inductive Progress where
  | more
  | idle
  deriving DecidableEq

/-- Go on with the behaviour of the background round, or stop if asked to. -/
def stepBackground (a : Agent) (s : Scene) : Agent × Scene × Progress :=
  match a.background with
  | none => if a.stopRequested then (a.stop, s, .idle) else (a, s, .idle)
  | some duty =>
    match a.pollDuty s duty with
    | (a, s, duty, none) =>
      let a := { a with background := some duty }
      if a.stopRequested then (a.stop, s, .idle) else (a, s, .idle)
    | (a, s, duty, some r) => (({ a with background := none } : Agent).afterDuty duty.kind r, s, .more)

/-- Go on with the behaviour of the round. -/
def stepForeground (a : Agent) (s : Scene) : Agent × Scene × Progress :=
  match a.foreground with
  | none => a.stepBackground s
  | some duty =>
    match a.pollDuty s duty with
    | (a, s, duty, none) => ({ a with foreground := some duty } : Agent).stepBackground s
    | (a, s, duty, some r) => (({ a with foreground := none } : Agent).afterDuty duty.kind r, s, .more)

/-- Apply the next block if there is one, go on with the behaviours otherwise. -/
def stepServing (a : Agent) (s : Scene) : Agent × Scene × Progress :=
  if a.app.isFinished then (a.stop, s, .idle)
  else
    match s.gateway.block? a.nextHeight with
    | .ok none | .error .timeout => a.stepForeground s
    | .error e => (a.fail (.gateway e), s, .idle)
    | .ok (some b) =>
      match a.applyBlock b with
      | .ok a => (a, s, .more)
      | .error e => (a.fail (.fatal e), s, .idle)

/-- One step of an agent. -/
def step (a : Agent) (s : Scene) : Agent × Scene × Progress :=
  match a.phase with
  | .stopped _ => (a, s, .idle)
  | .serving => a.stepServing s
  | .starting check =>
    match a.pollDuty s check with
    | (a, s, check, none) => ({ a with phase := .starting check }, s, .idle)
    | (a, s, _, some r) => (a.afterCheck r, s, .more)

/-- Step until nothing more can be done, at most `fuel` times. -/
def steps : Nat → Agent → Scene → Agent × Scene
  | 0, a, s => (a, s)
  | fuel + 1, a, s =>
    match a.step s with
    | (a, s, .idle) => (a, s)
    | (a, s, .more) => steps fuel a s

/-- More steps than an agent takes at one instant. -/
def stepLimit : Nat := 100000

/-- Offer the responses that have come in, then step until nothing more can be done. -/
def pass (a : Agent) (s : Scene) : Agent × Scene :=
  ({ a with dispatcher := a.dispatcher.deliverAll.1 } : Agent).steps stepLimit s

/-- Whether responses wait to be offered. -/
def hasResponses (a : Agent) : Bool := a.isRunning && !a.dispatcher.queue.isEmpty

/-- The next instant at which an agent has something to do by itself. -/
def due? (a : Agent) : Option Instant :=
  let duties := match a.phase with
    | .starting check => [check]
    | .serving => a.foreground.toList ++ a.background.toList
    | .stopped _ => []
  (duties.filterMap fun d => d.task.due? (Stage.step a.config.behaviour a.config.key)).min?

end Agent

/-- Agents on one gateway, in the order in which they get to run. An agent that has been lost does
nothing any more. -/
structure Fleet where
  scene : Scene
  agents : List Agent
  /-- The positions of the agents that were lost. -/
  lost : List Nat := []

namespace Fleet

/-- Let each agent of a list do all that it can. -/
def passList (lost : List Nat) : Nat → List Agent → Scene → List Agent × Scene
  | _, [], s => ([], s)
  | i, a :: as, s =>
    let (a, s) := if lost.contains i then (a, s) else a.pass s
    let (as, s) := passList lost (i + 1) as s
    (a :: as, s)

/-- Let each agent do all that it can, once. -/
def pass (f : Fleet) : Fleet :=
  let (agents, scene) := passList f.lost 0 f.agents f.scene
  { f with agents, scene }

/-- Let the agents run, at most `fuel` times each, until none has responses to look at. -/
def settleIn : Nat → Fleet → Fleet
  | 0, f => f
  | fuel + 1, f =>
    let f := f.pass
    if f.agents.any Agent.hasResponses then settleIn fuel f else f

/-- Let the agents do all that they can at this instant. -/
def settle (f : Fleet) : Fleet := settleIn Agent.stepLimit f

/-- Move the clock on to an instant. -/
def moveTo (f : Fleet) (now : Instant) : Fleet := { f with scene := { f.scene with now } }

/-- Let `duration` pass in ticks; the agents run after each of them. -/
def advance (tick : Nat) : Nat → Nat → Fleet → Fleet
  | 0, _, f => f
  | ticks + 1, duration, f =>
    if duration = 0 then f
    else
      let d := min tick duration
      advance tick ticks (duration - d) (f.moveTo (f.scene.now + d)).settle

/-- Commit a block and let the agents run. -/
def produce? (f : Fleet) : Option Fleet :=
  f.scene.gateway.produce?.map fun (gateway, _) =>
    ({ f with scene := { f.scene with gateway } } : Fleet).settle

/-- Whether the agent at a position still runs. -/
def running (f : Fleet) (i : Nat) : Bool :=
  !f.lost.contains i && f.agents[i]?.any Agent.isRunning

/-- Whether an agent still runs. -/
def anyRunning (f : Fleet) : Bool := (List.range f.agents.length).any f.running

/-- An agent vanishes. -/
def lose (f : Fleet) (i : Nat) : Fleet := { f with lost := i :: f.lost }

/-- What an agent ended with; nothing if it still runs or was lost. -/
def result? (f : Fleet) (i : Nat) : Option (Except AgentError Report) :=
  if f.lost.contains i then none else (f.agents[i]?).bind Agent.result?

/-- Let `every` pass and commit a block, `n` times or until no agent runs. -/
def produceMany? (tick every : Nat) : Nat → Fleet → Option Fleet
  | 0, f => some f
  | n + 1, f =>
    if f.anyRunning then (f.advance tick (every + 1) every).produce?.bind (produceMany? tick every n)
    else some f

/-- Two agents agree if both stopped in good order with the same checkpoint. -/
def agree (f : Fleet) (i j : Nat) : Bool :=
  match f.result? i, f.result? j with
  | some (.ok a), some (.ok b) => a.last = b.last
  | _, _ => false

/-- Whether every agent agrees with the next one. -/
def agreed (f : Fleet) : Bool :=
  (List.range (f.agents.length - 1)).all fun i => f.agree i (i + 1)

end Fleet

end Quorum
