import Quorum.Data.Counter
import Quorum.Data.SortedMap
import Quorum.External.Call

/-!
# Matching responses to requests

Every request gets a number. Its response is delivered under this number, at most once, and only if
whoever asked still waits for it.

* `Dispatcher.register` : a number for a request;
* `Dispatcher.deliver` : a response finds its request or is dropped;
* `Dispatcher.release` : forgets all requests of an instance;
* `Dispatcher.abandon` : the requester of a number stops waiting;
* `Dispatcher.inbox` : what was delivered and not looked at yet.
-/

namespace Quorum.External

/-- A request without a response. -/
structure Pending where
  instanceId : InstanceId
  /-- The requester still waits. -/
  awaited : Bool
  deriving DecidableEq

/-- Open requests and their numbers. -/
structure Dispatcher where
  nextNonce : RequestNonce := Counter.zero
  pending : SortedMap RequestNonce Pending := SortedMap.empty
  /-- Responses that no one looked at yet, nothing for a request that was released. -/
  inbox : SortedMap RequestNonce (Option Result) := SortedMap.empty
  /-- Results of calls that were not offered for delivery yet. -/
  queue : List (RequestNonce × Result) := []
  /-- The number of responses that found no one. -/
  dropped : Nat := 0

/-- What became of a response. -/
inductive Delivery where
  | delivered
  | dropped
  deriving DecidableEq

namespace Dispatcher

/-- Give a request of an instance a number, unless there are no more numbers. -/
def register? (d : Dispatcher) (i : InstanceId) : Option (Dispatcher × RequestNonce) :=
  d.nextNonce.next?.map fun next =>
    ({ d with nextNonce := next, pending := d.pending.insert d.nextNonce ⟨i, true⟩ }, d.nextNonce)

/-- Offer a response. -/
def deliver (d : Dispatcher) (nonce : RequestNonce) (r : Result) : Dispatcher × Delivery :=
  match d.pending.get? nonce with
  | none => ({ d with dropped := d.dropped + 1 }, .dropped)
  | some p =>
    let pending := d.pending.erase nonce
    if p.awaited then ({ d with pending, inbox := d.inbox.insert nonce (some r) }, .delivered)
    else ({ d with pending, dropped := d.dropped + 1 }, .dropped)

/-- Forget the requests of an instance; how many there were. -/
def release (d : Dispatcher) (i : InstanceId) : Dispatcher × Nat :=
  let kept := d.pending.filter fun e => e.2.instanceId ≠ i
  let closed := d.pending.entries.filter fun e => e.2.instanceId = i ∧ e.2.awaited
  ({ d with
      pending := kept
      inbox := closed.foldl (fun m e => m.insert e.1 none) d.inbox },
    d.pending.size - kept.size)

/-- The requester of a number stops waiting. -/
def abandon (d : Dispatcher) (nonce : RequestNonce) : Dispatcher :=
  { d with
    inbox := d.inbox.erase nonce
    pending := match d.pending.get? nonce with
      | some p => d.pending.insert nonce { p with awaited := false }
      | none => d.pending }

/-- Take what arrived under a number out of the inbox; a released request counts as failed. -/
def receive? (d : Dispatcher) (nonce : RequestNonce) : Option (Dispatcher × Result) :=
  (d.inbox.get? nonce).map fun r =>
    ({ d with inbox := d.inbox.erase nonce }, r.getD (.error (.failed "Request released")))

/-- Put the result of a call into the queue. -/
def enqueue (d : Dispatcher) (nonce : RequestNonce) (r : Result) : Dispatcher :=
  { d with queue := d.queue ++ [(nonce, r)] }

/-- Offer everything in the queue; what became of each result. -/
def deliverAll (d : Dispatcher) : Dispatcher × List ((RequestNonce × Result) × Delivery) :=
  d.queue.foldl (fun (d, log) e =>
    let (d, delivery) := d.deliver e.1 e.2
    (d, log ++ [(e, delivery)])) ({ d with queue := [] }, [])

end Dispatcher

end Quorum.External
