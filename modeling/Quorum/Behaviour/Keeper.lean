import Quorum.Peer.Identity
import Quorum.Snapshot.View

/-!
# The choice of the keeper and what it sends

* `selectKeeper` : the same peer for everyone with the same randomness, never the previous one
  while there is another;
* `SafeTx` : the transaction that the peers sign and the keeper sends.
-/

namespace Quorum

/-- The peers among which the keeper is chosen. -/
def keeperCandidates (participants : PeerSet) (previous : Option PublicKey) : List PublicKey :=
  let others := participants.peers.filter fun p => some p ≠ previous
  if others.isEmpty then participants.peers else others

/-- The keeper for a value of the beacon: the hash of the value modulo the number of candidates
counts from the first one. -/
def selectKeeper (participants : PeerSet) (randomness : Randomness) (previous : Option PublicKey) :
    Option PublicKey :=
  let candidates := keeperCandidates participants previous
  candidates[Bytes.toNatBE (Blake3.hash randomness.bytes).bytes % candidates.length]?

/-- The transaction that the peers authorise in every period. -/
structure SafeTx where
  periodCount : UInt64
  keeper : PublicKey
  randomness : Randomness
  deriving DecidableEq

namespace SafeTx

instance : Wire.Format SafeTx where
  encode t := Wire.encode t.periodCount ++ Wire.encode t.keeper ++ Wire.encode t.randomness
  decode := do
    let periodCount ← Wire.Format.decode
    let keeper ← Wire.Format.decode
    let randomness ← Wire.Format.decode
    pure ⟨periodCount, keeper, randomness⟩
  footprint := 72

/-- The tag of a signed transaction. -/
def tag : String := "stx_"

/-- The transaction that the agreed data calls for. -/
def ofSnapshot (s : Snapshot) : Except SnapshotError SafeTx := do
  let periodCount ← s.periodCount
  let keeper ← s.keeper
  let randomness ← s.randomness
  pure ⟨periodCount, keeper, randomness⟩

/-- The hash that is signed. -/
def signHash (t : SafeTx) : Digest := Quorum.signHash tag (Wire.encode t)

/-- A peer's signature. -/
def sign (t : SafeTx) (sk : SecretKey) : Signature := sk.attest tag (Wire.encode t)

/-- Whether a signature is a peer's. -/
def signedBy (t : SafeTx) (pk : PublicKey) (sig : Signature) : Bool :=
  pk.attests tag (Wire.encode t) sig

/-- The contract that carries out the transaction. -/
def contract : String := "safe"

/-- The method of the contract. -/
def method : String := "exec_transaction"

end SafeTx

end Quorum
