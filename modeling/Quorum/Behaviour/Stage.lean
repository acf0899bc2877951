import Quorum.Behaviour.Keeper
import Quorum.Behaviour.Kind
import Quorum.Behaviour.Submission
import Quorum.Text.Duration

/-!
# What behaviours do

* `Stage` : where a behaviour is;
* `Stage.start` : the first stage of each kind;
* `Stage.step` : one step; most behaviours find out what to vote for and then submit the vote until
  the round ends.
-/

namespace Quorum

/-- Why a behaviour fails. -/
inductive BehaviourError where
  | healthcheckTimeout (timeout : Nat)
  | snapshot (cause : SnapshotError)
  deriving DecidableEq

namespace BehaviourError

/-- The wording of an error. -/
def message : BehaviourError → String
  | healthcheckTimeout timeout => "Healthcheck did not pass within " ++ Text.duration timeout
  | snapshot cause => cause.message

/-- Whether waiting for the next round does not help. -/
def isFatal : BehaviourError → Bool
  | healthcheckTimeout _ => true
  | snapshot _ => false

end BehaviourError

/-- Where a behaviour is. -/
inductive Stage where
  /-- Health check: find out how far the application is. -/
  | checkup
  /-- Health check: find out what time it is. -/
  | checkupFrom (height : Height)
  /-- Health check: the chain must be at `height` before `limit`. -/
  | checking (height : Height) (limit : Instant) (backoff : Backoff)
  /-- Health check: the chain was not there yet. -/
  | checkPause (height : Height) (limit : Instant) (backoff : Backoff)
  /-- Look at the beacon, `retries` times more if that fails. -/
  | observing (retries : Nat)
  /-- The beacon failed. -/
  | observePause (retries : Nat)
  /-- Choose the keeper. -/
  | choosing
  /-- Sign the transaction. -/
  | signing
  /-- Find out whether this peer is the keeper. -/
  | finalizing
  /-- As the keeper, send the transaction. -/
  | sending (args : Bytes)
  /-- Find out which transaction was sent. -/
  | validating
  /-- Look for the receipt of `tx`, for the `attempt`-th time. -/
  | querying (tx : TxHash) (attempt : Nat)
  /-- There is no receipt yet. -/
  | queryPause (tx : TxHash) (attempt : Nat)
  /-- Find out whether the peers agreed to end. -/
  | watching
  /-- Look for the signal to end. -/
  | readingSignal
  /-- There was no signal. -/
  | signalPause
  /-- Vote for ending because of `tx`. -/
  | votingToEnd (tx : TxHash)
  /-- Wait for the others to agree. -/
  | awaitingEnd
  /-- Submit a vote until the round ends. -/
  | submitting (s : Submitting)
  /-- Wait for the round to end without a vote. -/
  | idle
  | ended (result : Except BehaviourError Unit)

namespace Stage

/-- Go on with a part of the agreed data, or fail. -/
def reading {α : Type} (r : Except SnapshotError α) (go : α → Stage) : Stage :=
  match r with
  | .ok a => go a
  | .error e => ended (.error (.snapshot e))

/-- Submit a vote until the round ends. -/
def voting (p : BehaviourParams) (v : Vote) : Stage := submitting (Submitting.start p v)

/-- The first stage of a behaviour. -/
def start (p : BehaviourParams) : BehaviourKind → Stage
  | .healthcheck => checkup
  | .registration => voting p .registration
  | .randomness => observing p.retryAttempts
  | .selectKeeper => choosing
  | .signature => signing
  | .finalize => finalizing
  | .validateTransaction => validating
  | .termination => watching

/-! ## Health check -/

/-- Whether the chain has caught up with the application. -/
def healthy (height : Height) : Except GatewayError GatewayStatus → Bool
  | .ok s => !s.syncing && height ≤ s.height
  | .error _ => false

/-- The longest pause between two checks. -/
def checkBackoffLimit : Nat := 5000

/-! ## Randomness -/

/-- After a look at the beacon. -/
def observed (p : BehaviourParams) (retries : Nat) (r : External.Result) : Stage :=
  match r.asObservation, retries with
  | .ok o, _ => voting p (.randomness o.round o.value)
  | .error _, 0 => idle
  | .error _, n + 1 => observePause n

/-! ## Keeper and transaction -/

/-- Choose the keeper from the agreed data. -/
def choose (p : BehaviourParams) (s : Snapshot) : Stage :=
  reading s.participants fun participants =>
  reading s.randomness fun randomness =>
  reading s.previousKeeper fun previous =>
  match Quorum.selectKeeper participants randomness previous with
  | some keeper => voting p (.selectKeeper keeper)
  | none => idle

/-- The arguments of the transaction and its signatures. -/
def txArgs (t : SafeTx) (sigs : SortedMap PublicKey Signature) : Bytes := Wire.encode (t, sigs)

/-- The keeper sends the transaction, the others wait. -/
def finalizeFrom (self : PublicKey) (s : Snapshot) : Stage :=
  reading s.keeper fun keeper =>
  if keeper ≠ self then idle
  else
    reading (SafeTx.ofSnapshot s) fun t =>
    reading s.signatures fun sigs => sending (txArgs t sigs)

/-! ## Validation -/

/-- After a query for the receipt of a transaction. -/
def queried (p : BehaviourParams) (tx : TxHash) (attempt : Nat) (r : External.Result) : Stage :=
  match r.asReceipt with
  | .ok (some receipt) => voting p (.validate (some (receipt.success && receipt.tx = tx)))
  | .ok none | .error _ => queryPause tx attempt

/-- After the pause that follows a query. -/
def requery (p : BehaviourParams) (tx : TxHash) (attempt : Nat) : Stage :=
  if attempt < p.retryAttempts then querying tx (attempt + 1) else voting p (.validate none)

/-! ## Termination -/

/-- The transaction because of which the service should end, if it should. -/
def signalOf (r : External.Result) : Option TxHash :=
  match r.asRead with
  | .ok bs => (Wire.decodeWhole (Option TxHash) bs).toOption.getD none
  | .error _ => none

/-! ## Steps -/

/-- One step of the behaviour of a peer. -/
def step (p : BehaviourParams) (key : SecretKey) : Machine Stage (Except BehaviourError Unit)
  | checkup => .ask .info fun i => checkupFrom i.height
  | checkupFrom height => .ask .clock fun (now : Instant) =>
    checking height (now + p.healthcheckTimeout) { unit := p.sleep, limit := checkBackoffLimit }
  | checking height limit backoff => .ask .status fun r =>
    if healthy height r then ended (.ok ()) else checkPause height limit backoff
  | checkPause height limit backoff => .ask (.pause backoff.delay (some limit)) fun
    | true => checking height limit backoff.next
    | false => ended (.error (.healthcheckTimeout p.healthcheckTimeout))
  | observing retries => .ask (.call .randomness) (observed p retries)
  | observePause retries => .ask (.pause p.sleep none) fun _ => observing retries
  | choosing => .ask .snapshot (choose p)
  | signing => .ask .snapshot fun s =>
    reading (SafeTx.ofSnapshot s) fun t => voting p (.signature (t.sign key))
  | finalizing => .ask .snapshot (finalizeFrom key.publicKey)
  | sending args => .ask (.call (.send SafeTx.contract SafeTx.method args key)) fun r =>
    voting p (.finalization r.asSent.toOption)
  | validating => .ask .snapshot fun s => reading s.finalTx fun tx => querying tx 1
  | querying tx attempt => .ask (.call (.receipt tx)) (queried p tx attempt)
  | queryPause tx attempt => .ask (.sleep p.sleep) fun _ => requery p tx attempt
  | watching => .ask .snapshot fun s =>
    if Condition.terminationReached.holds s then ended (.ok ()) else readingSignal
  | readingSignal =>
    .ask (.call (.read External.serviceRegistry External.terminationSignal [])) fun r =>
      match signalOf r with
      | some tx => votingToEnd tx
      | none => signalPause
  | signalPause => .ask (.sleep p.sleep) fun _ => watching
  | votingToEnd tx => .ask (.submit (.termination tx)) fun _ => awaitingEnd
  | awaitingEnd => .ask (.condition .terminationReached (some p.inclusionTimeout)) fun
    | true => ended (.ok ())
    | false => watching
  | submitting s =>
    match s.step p with
    | .done () => .done (.ok ())
    | .ask a resume => .ask a fun answer => submitting (resume answer)
  | idle => .ask (.roundEnd none) fun _ => ended (.ok ())
  | ended result => .done result

end Stage

end Quorum
