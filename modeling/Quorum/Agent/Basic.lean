import Quorum.Behaviour.Stage
import Quorum.Behaviour.Task
import Quorum.Checkpoint.Store

/-!
# A peer

An agent applies the blocks of the gateway to its application. For every round that the application
enters it starts the behaviour of the round; the behaviour of the background round outlives it.

* `Agent.create` : a fresh or resumed peer, which starts with the health check;
* `Agent.applyBlock` : applies a block and changes behaviours after a transition;
* `Agent.pass` : does all that can be done at one instant;
* `Report` : what is left of an agent that has stopped.
-/

namespace Quorum

/-- Why an agent fails. -/
inductive AgentError where
  | fatal (cause : FatalError)
  | missingBehaviour (round : RoundKind)
  | startup (cause : BehaviourError)
  | behaviour (kind : BehaviourKind) (cause : BehaviourError)
  | gateway (cause : GatewayError)
  deriving DecidableEq

/-- What an error says, with what it was caused by. -/
def AgentError.failure : AgentError → Failure
  | fatal cause => cause.failure
  | missingBehaviour round => ⟨"No behaviour for round " ++ round.name, []⟩
  | startup cause => ⟨"Startup failed", [cause.message]⟩
  | behaviour kind cause => ⟨"Behaviour " ++ kind.name ++ " failed", [cause.message]⟩
  | gateway cause => ⟨"Gateway failed", [cause.message]⟩

/-- What is left of an agent that has stopped. -/
structure Report where
  peer : PublicKey
  last : Checkpoint
  finished : Bool
  blocks : Nat
  transitions : Nat
  dropped : Nat
  deriving DecidableEq

/-- A behaviour that has been started. -/
structure Duty where
  kind : BehaviourKind
  task : Task Stage

/-- What an agent is doing. -/
inductive AgentPhase where
  /-- The health check runs. -/
  | starting (check : Duty)
  /-- Blocks are applied. -/
  | serving
  | stopped (result : Except AgentError Report)

/-- Who an agent is and how it works. -/
structure AgentConfig where
  key : SecretKey
  app : AppParams
  behaviour : BehaviourParams := .standard
  /-- The number of checkpoints to keep. -/
  keep : Nat := 16

/-- A peer of the service. -/
structure Agent where
  config : AgentConfig
  app : Application
  phase : AgentPhase
  foreground : Option Duty := none
  background : Option Duty := none
  dispatcher : External.Dispatcher := {}
  /-- Where a checkpoint is saved after every transition. -/
  store : Option CheckpointStore := none
  /-- What was published last. -/
  info : RoundInfo
  snapshot : Snapshot
  nextInstance : InstanceId := Counter.zero
  nextHeight : Height
  /-- The number of applied blocks. -/
  blocks : Nat := 0
  /-- The transitions so far, the last one first. -/
  transitions : List Transition := []
  stoppable : Bool := true
  stopRequested : Bool := false

namespace Agent

/-- Where an application is. -/
def infoOf (a : Application) : RoundInfo :=
  ⟨a.current.kind, a.roundCount, a.data.version, a.height, a.isFinished⟩

/-- Publish the state of the application; data of the same version stay as they are. -/
def publish (a : Agent) : Agent :=
  { a with
    info := infoOf a.app
    snapshot := if a.snapshot.version = a.app.data.version then a.snapshot else a.app.data }

/-! ## Behaviours -/

/-- Start a behaviour for the published round, as a new instance. -/
def engage (a : Agent) (kind : BehaviourKind) : Except FatalError (Agent × Duty) :=
  match a.nextInstance.next? with
  | none => .error .outOfNumbers
  | some next =>
    let actor : Actor := {
      key := a.config.key
      params := a.config.behaviour
      instanceId := a.nextInstance
      roundCount := a.info.roundCount }
    let stage := Stage.start a.config.behaviour kind
    .ok ({ a with nextInstance := next }, ⟨kind, { actor, stage, status := .running }⟩)

/-- Start the behaviour of the current round. -/
def engageForeground (a : Agent) : Except FatalError Agent :=
  match BehaviourKind.ofRound? a.app.current.kind with
  | none => .ok { a with foreground := none }
  | some kind => do
    let (a, duty) ← a.engage kind
    pure { a with foreground := some duty }

/-- Start the behaviour of the background round, unless it runs. -/
def engageBackground (a : Agent) : Except FatalError Agent :=
  if a.background.isSome then .ok a
  else
    match a.app.background.bind fun r => BehaviourKind.ofRound? r.kind with
    | none => .ok a
    | some kind => do
      let (a, duty) ← a.engage kind
      pure { a with background := some duty }

/-- Forget the requests of a behaviour that ends early. -/
def dismiss (duty : Option Duty) (d : External.Dispatcher) : External.Dispatcher :=
  match duty with
  | none => d
  | some duty => ((duty.task.abort d).2.release duty.task.actor.instanceId).1

/-- End the behaviour of the round. -/
def dismissForeground (a : Agent) : Agent :=
  { a with foreground := none, dispatcher := dismiss a.foreground a.dispatcher }

/-- End the behaviour of the background round. -/
def dismissBackground (a : Agent) : Agent :=
  { a with background := none, dispatcher := dismiss a.background a.dispatcher }

/-! ## Starting and stopping -/

/-- Every round that can end has a behaviour. -/
def missingBehaviour? : Option RoundKind :=
  RoundKind.all.find? fun k => !k.isTerminal && (BehaviourKind.ofRound? k).isNone

/-- A peer with an application, about to check the health of the chain. -/
def ofApplication (config : AgentConfig) (app : Application) : Except FatalError Agent :=
  match app.height.next? with
  | none => .error .outOfNumbers
  | some nextHeight =>
    let a : Agent := {
      config, app, nextHeight
      phase := .serving
      info := infoOf app
      snapshot := app.data }
    (a.engage .healthcheck).map fun (a, check) => { a with phase := .starting check }

/-- A peer, fresh or resumed from a checkpoint. -/
def create (config : AgentConfig) (from? : Option Checkpoint) : Except AgentError Agent :=
  match missingBehaviour? with
  | some round => .error (.missingBehaviour round)
  | none =>
    let config := { config with keep := max config.keep 1 }
    let app := match from? with
      | some c => Application.restore config.app c
      | none => Application.start config.app
    (app.bind (ofApplication config)).mapError .fatal

/-- What is left when the agent stops now. -/
def report (a : Agent) : Report :=
  { peer := a.config.key.publicKey
    last := a.app.checkpoint
    finished := a.app.isFinished
    blocks := a.blocks
    transitions := a.transitions.length
    dropped := a.dispatcher.dropped }

/-- Stop in good order. -/
def stop (a : Agent) : Agent :=
  let a := a.dismissForeground.dismissBackground
  { a with phase := .stopped (.ok a.report) }

/-- Stop because of an error. -/
def fail (a : Agent) (e : AgentError) : Agent := { a with phase := .stopped (.error e) }

/-- Whether the agent has not stopped. -/
def isRunning (a : Agent) : Bool :=
  match a.phase with
  | .stopped _ => false
  | _ => true

/-- What the agent stopped with, if it did. -/
def result? (a : Agent) : Option (Except AgentError Report) :=
  match a.phase with
  | .stopped r => some r
  | _ => none

/-- Ask the agent to stop. -/
def requestStop (a : Agent) : Agent :=
  if a.stoppable then { a with stopRequested := true } else a

/-- From now on no one can ask the agent to stop. -/
def detach (a : Agent) : Agent := { a with stoppable := false }

/-! ## Blocks -/

/-- Save a checkpoint of the application. -/
def saveCheckpoint (a : Agent) : Agent :=
  { a with store := a.store.map fun s => s.saveKeeping a.config.keep a.app.checkpoint }

/-- Change behaviours after a transition. -/
def followTransition (a : Agent) : Except FatalError Agent :=
  let a := a.dismissForeground
  if a.app.isFinished then .ok a.dismissBackground
  else do
    let a ← a.engageForeground
    a.engageBackground

/-- Apply the next block. -/
def applyBlock (a : Agent) (b : Block) : Except FatalError Agent := do
  let (app, r) := a.app.processBlock b
  let outcome ← r
  let nextHeight ← a.nextHeight.next?.elim (.error .outOfNumbers) .ok
  let a := ({ a with app, nextHeight, blocks := a.blocks + 1 } : Agent).publish
  match outcome.transition with
  | none => pure a
  | some t => ({ a with transitions := t :: a.transitions } : Agent).saveCheckpoint.followTransition

end Agent

end Quorum
