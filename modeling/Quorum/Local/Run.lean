import Quorum.Console.Options
import Quorum.Local.DataDir
import Quorum.Local.Summary

/-!
# All peers in one process

A local run moves from one instant at which something is due to the next: a peer goes on, the beacon
shows its next value, or the gateway commits a block. When the first peer has completed enough
periods, the chain tells everyone to end.

* `LocalRun.start` : the peers with their keys, resumed if all of them can;
* `LocalRun.step?` : goes on to the next instant;
* `LocalRun.outcome?` : what the run came to, once all peers have stopped;
* `LocalRun.run` : steps until then.
-/

namespace Quorum

open Console (RunOptions)

/-- Peers in one process and when something happens next. -/
structure LocalRun where
  options : RunOptions
  fleet : Fleet
  nextBlock : Option Instant
  nextBeacon : Option Instant

namespace LocalRun

/-- The patience of the peers. A wait takes at least as long as the clock can tell. -/
def behaviourParams (o : RunOptions) : BehaviourParams :=
  ({
    BehaviourParams.standard with
    sleep := max o.sleepMs.toNat 1
    inclusionTimeout := max o.inclusionTimeoutMs.toNat 1
    healthcheckTimeout := 1000 * o.healthcheckTimeoutSecs.toNat } : BehaviourParams).withAttempts
      o.retryAttempts.toNat o.submitAttempts.toNat

/-- The seed of the beacon: the hash of the keys of all participants. -/
def beaconSeed (participants : PeerSet) : Digest :=
  Blake3.hash (participants.peers.flatMap (·.bytes))

/-- Why the number of peers is not possible. -/
def checkPeers (n : Nat) : Except Failure Unit :=
  if n = 0 then .error ⟨"At least one peer is required", []⟩
  else if PeerCount.limit < n then
    .error ⟨"At most " ++ toString PeerCount.limit ++ " peers are supported", []⟩
  else .ok ()

/-- A peer with its store, if there is a data directory. -/
def createAgent (o : RunOptions) (app : AppParams) (dir : Option DataDir)
    (from? : Option Checkpoint) (key : SecretKey) (i : Nat) : Except Failure Agent :=
  match Agent.create ⟨key, app, behaviourParams o, o.keepCheckpoints.toNat⟩ from? with
  | .error e => .error (e.failure.wrap "Failed to create agent")
  | .ok a => .ok { a with store := dir.map (·.store i) }

/-- The time after `now` if time passes at all. -/
def after (now : Instant) (interval : UInt64) : Option Instant :=
  if interval = 0 then none else some (now + interval.toNat)

/-- The transaction because of which a local run ends. -/
def endSignal : TxHash := (Blake3.hash (Bytes.ofString "terminate")).toTxHash

/-- Signal the end when the first peer has completed enough periods. -/
def signalEnd (r : LocalRun) : LocalRun :=
  let done := (r.fleet.agents.head?.bind fun a => a.snapshot.periodCount.toOption).getD 0
  if r.options.periods ≤ done then
    let scene := r.fleet.scene
    let world := { scene.world with chain := { scene.world.chain with signal := some endSignal } }
    { r with fleet := { r.fleet with scene := { scene with world } } }
  else r

/-- Let the peers do all that they can, then see whether to end. -/
def settle (r : LocalRun) : LocalRun := ({ r with fleet := r.fleet.settle } : LocalRun).signalEnd

/-- The peers with the keys of the data directory, or with fresh keys. -/
def start (o : RunOptions) (dir : Option DataDir) (fresh : List SecretKey) :
    Except Failure LocalRun := do
  let n := o.peers.toNat
  checkPeers n
  let keys ← DataDir.keys dir n fresh
  let participants := PeerSet.ofList (keys.map SecretKey.publicKey)
  let app : AppParams := ⟨participants, o.roundTimeoutBlocks, o.historyLen.toNat⟩
  let from? := dir.bind (·.restorePoint? n)
  let agents ← keys.zipIdx.mapM fun (key, i) => createAgent o app dir from? key i
  let scene : Scene := {
    gateway := Gateway.start ((from?.map Checkpoint.height).getD Counter.zero)
    world := { beacon := { seed := beaconSeed participants } } }
  let r : LocalRun := {
    options := o
    fleet := { scene, agents }
    nextBlock := after 0 o.blockIntervalMs
    nextBeacon := after 0 o.beaconIntervalMs }
  pure r.signalEnd.settle

/-- The next instant at which something is due. -/
def next? (r : LocalRun) : Option Instant :=
  (r.nextBlock.toList ++ r.nextBeacon.toList ++ r.fleet.agents.filterMap Agent.due?).min?

/-- Show the next value of the beacon if it is time. -/
def tickBeacon (r : LocalRun) : LocalRun :=
  let scene := r.fleet.scene
  if r.nextBeacon = some scene.now then
    let world := { scene.world with beacon := scene.world.beacon.advance }
    { r with
      fleet := { r.fleet with scene := { scene with world } }
      nextBeacon := after scene.now r.options.beaconIntervalMs }
  else r

/-- Commit a block if it is time. -/
def tickBlock (r : LocalRun) : LocalRun :=
  if r.nextBlock = some r.fleet.scene.now then
    match r.fleet.produce? with
    | some fleet =>
      ({ r with fleet, nextBlock := after fleet.scene.now r.options.blockIntervalMs } : LocalRun).signalEnd
    | none => { r with nextBlock := none }
  else r

/-- Go on to the next instant: the peers run before the beacon and the gateway. -/
def step? (r : LocalRun) : Option LocalRun :=
  r.next?.map fun now =>
    ({ r with fleet := r.fleet.moveTo now } : LocalRun).settle.tickBeacon.tickBlock

/-- What peers ended with, in order; the first that failed decides, as soon as all before it have
stopped. -/
def collect : List (Option (Except AgentError Report)) → Option (Except Failure (List Report))
  | [] => some (.ok [])
  | none :: _ => none
  | some (.error e) :: _ => some (.error (e.failure.wrap "Agent failed"))
  | some (.ok r) :: rest => (collect rest).map (·.map (r :: ·))

/-- What the run came to, once all peers have stopped. -/
def outcome? (r : LocalRun) : Option (Except Failure Summary) :=
  (collect (r.fleet.agents.map Agent.result?)).map
    (·.map (⟨·, r.fleet.scene.world.chain.sent.length⟩))

/-- Step until the run is over, at most `fuel` times. -/
def run : Nat → LocalRun → LocalRun
  | 0, r => r
  | fuel + 1, r =>
    if r.outcome?.isSome then r
    else
      match r.step? with
      | some r => run fuel r
      | none => r

/-- The data directory after the run. -/
def dataDir (r : LocalRun) : DataDir where
  secrets := some (DataDir.textOf (r.fleet.agents.map (·.config.key)))
  stores := r.fleet.agents.filterMap (·.store)

end LocalRun

end Quorum
