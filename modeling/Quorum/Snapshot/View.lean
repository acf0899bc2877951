import Quorum.Peer.Set
import Quorum.Snapshot.Basic

/-!
# What the rounds write into the snapshot

The keys of the agreed data and the types of the values under them.
-/

namespace Quorum.Snapshot

namespace Key

/-- The peers that take part. -/
def participants : String := "participants"
/-- The value of the beacon that was agreed on. -/
def randomness : String := "most_voted_randomness"
/-- The beacon's own round of that value. -/
def randomnessRound : String := "most_voted_randomness_round"
/-- The peer that sends the transaction. -/
def keeper : String := "most_voted_keeper_address"
/-- The signatures of the transaction, by peer. -/
def signatures : String := "participant_to_signature"
/-- The transaction that the keeper sent. -/
def finalTx : String := "final_tx_hash"
/-- The number of completed periods. -/
def periodCount : String := "period_count"
/-- Whether the peers agreed to end the service. -/
def terminationReached : String := "termination_majority_reached"
/-- The transaction because of which they did. -/
def terminationTx : String := "most_voted_tx_hash"

end Key

/-- The peers that take part. -/
def participants (s : Snapshot) : Except SnapshotError PeerSet := s.read PeerSet Key.participants

/-- The agreed value of the beacon. -/
def randomness (s : Snapshot) : Except SnapshotError Randomness := s.read Randomness Key.randomness

/-- The beacon's own round of the agreed value. -/
def randomnessRound (s : Snapshot) : Except SnapshotError UInt64 := s.read UInt64 Key.randomnessRound

/-- The peer that sends the transaction. -/
def keeper (s : Snapshot) : Except SnapshotError PublicKey := s.read PublicKey Key.keeper

/-- The last peer that was chosen to send a transaction, if there was one. -/
def previousKeeper (s : Snapshot) : Except SnapshotError (Option PublicKey) :=
  s.read? PublicKey Key.keeper

/-- The signatures of the transaction. -/
def signatures (s : Snapshot) : Except SnapshotError (SortedMap PublicKey Signature) :=
  s.read (SortedMap PublicKey Signature) Key.signatures

/-- The transaction that the keeper sent. -/
def finalTx (s : Snapshot) : Except SnapshotError TxHash := s.read TxHash Key.finalTx

/-- The number of completed periods. -/
def periodCount (s : Snapshot) : Except SnapshotError UInt64 := s.readOr Key.periodCount 0

/-- Whether the peers agreed to end the service. -/
def terminationReached (s : Snapshot) : Except SnapshotError Bool :=
  s.readOr Key.terminationReached false

/-- The transaction because of which they did. -/
def terminationTx (s : Snapshot) : Except SnapshotError TxHash := s.read TxHash Key.terminationTx

end Quorum.Snapshot
