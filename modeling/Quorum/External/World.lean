import Quorum.Curve.Ed25519
import Quorum.External.Call
import Quorum.Hash.Blake3
import Quorum.Wire.Format

/-!
# A chain and a beacon in one process

* `Chain` : accepts every transaction and has a receipt for it at once;
* `Beacon` : its value is a hash of a seed and its current round;
* `World.perform` : carries out a call.

All three can be told to fail a number of times.
-/

namespace Quorum.External

/-- The contract that says whether the service should end. -/
def serviceRegistry : String := "service_registry"

/-- The method of `serviceRegistry` that returns the transaction because of which to end. -/
def terminationSignal : String := "termination_signal"

/-- A transaction that was sent. -/
structure Sent where
  contract : String
  method : String
  tx : TxHash
  deriving DecidableEq

/-- A chain that accepts every transaction. -/
structure Chain where
  receipts : SortedMap TxHash Receipt := SortedMap.empty
  /-- Every transaction, in order. -/
  sent : List Sent := []
  nonce : UInt64 := 0
  signal : Option TxHash := none
  failSends : Nat := 0
  failReads : Nat := 0
  /-- The number of queries that find no receipt from now on. -/
  withhold : Nat := 0
  deriving DecidableEq

namespace Chain

/-- Read from a contract; the registry alone has something to read. -/
def read (c : Chain) (contract method : String) : Chain × Except Error Bytes :=
  match c.failReads with
  | n + 1 => ({ c with failReads := n }, .error (.failed "Read failed"))
  | 0 =>
    if contract = serviceRegistry ∧ method = terminationSignal then (c, .ok (Wire.encode c.signal))
    else (c, .error (.failed ("Unknown method " ++ contract ++ "." ++ method)))

/-- The hash of the next transaction of a signer. -/
def txHash (c : Chain) (contract method : String) (args : Bytes) (signer : SecretKey) : TxHash :=
  (Blake3.hash (Bytes.ofString contract ++ Bytes.ofString method ++ args ++ signer.publicKey.bytes ++
    Bytes.ofNatBE 8 c.nonce.toNat)).toTxHash

/-- Send a transaction. -/
def send (c : Chain) (contract method : String) (args : Bytes) (signer : SecretKey) :
    Chain × Except Error TxHash :=
  match c.failSends with
  | n + 1 => ({ c with failSends := n }, .error (.failed "Transaction rejected"))
  | 0 =>
    let tx := c.txHash contract method args signer
    ({ c with
        nonce := c.nonce + 1
        receipts := c.receipts.insert tx ⟨tx, true⟩
        sent := c.sent ++ [⟨contract, method, tx⟩] },
      .ok tx)

/-- The receipt of a transaction. -/
def receipt (c : Chain) (tx : TxHash) : Chain × Option Receipt :=
  match c.withhold with
  | n + 1 => ({ c with withhold := n }, none)
  | 0 => (c, c.receipts.get? tx)

end Chain

/-- A beacon whose values only depend on a seed. -/
structure Beacon where
  seed : Digest
  round : UInt64 := 1
  failNext : Nat := 0
  deriving DecidableEq

namespace Beacon

/-- The value at a round. -/
def valueAt (b : Beacon) (round : UInt64) : Randomness :=
  (Blake3.hash (b.seed.bytes ++ Bytes.ofNatBE 8 round.toNat)).toRandomness

/-- What the beacon shows now. -/
def fetch (b : Beacon) : Beacon × Except Error Observation :=
  match b.failNext with
  | n + 1 => ({ b with failNext := n }, .error (.failed "Beacon unavailable"))
  | 0 => (b, .ok ⟨b.round, b.valueAt b.round⟩)

/-- Move on to the next round. -/
def advance (b : Beacon) : Beacon := { b with round := b.round + 1 }

end Beacon

/-- All that calls can reach. -/
structure World where
  chain : Chain := {}
  beacon : Beacon
  deriving DecidableEq

/-- Carry out a call. -/
def World.perform (w : World) : Call → World × Result
  | .read contract method _ =>
    let (chain, r) := w.chain.read contract method
    ({ w with chain }, r.map .read)
  | .send contract method args signer =>
    let (chain, r) := w.chain.send contract method args signer
    ({ w with chain }, r.map .sent)
  | .receipt tx =>
    let (chain, r) := w.chain.receipt tx
    ({ w with chain }, .ok (.receipt r))
  | .randomness =>
    let (beacon, r) := w.beacon.fetch
    ({ w with beacon }, r.map .randomness)

end Quorum.External
