import Quorum.Round.Error
import Quorum.Snapshot.View

/-!
# What a decision does to the agreed data

* `Decision` : what the votes of a round came to;
* `RoundKind.participants`, `RoundKind.keeper?` : whom a round asks, read from the agreed data;
* `RoundKind.conclude` : the next snapshot and the event of a decision. A kind of round writes its
  own keys only, and only when it ends as planned.
-/

namespace Quorum

/-- What the votes of a round came to. -/
inductive Decision where
  /-- The value of this payload has the threshold. -/
  | agreed (payload : Payload)
  /-- Enough payloads were collected, by sender. -/
  | collected (payloads : SortedMap PublicKey Payload)
  /-- Every participant voted and no value has the threshold. -/
  | noMajority
  /-- The round took too long. -/
  | timeout

namespace RoundKind

/-- Name the round in an error of its reads. -/
def reading {α : Type} (k : RoundKind) (r : Except SnapshotError α) : Except FatalError α :=
  r.mapError (.snapshot k)

/-- The snapshot after an update, if there is a version for it. -/
def updated (data : Snapshot) (u : Update) : Except FatalError Snapshot :=
  match data.update? u with
  | some s => .ok s
  | none => .error .outOfNumbers

/-- The peers that a round asks: registration comes before any set was agreed on and takes the
configured one. -/
def participants (k : RoundKind) (data : Snapshot) (configured : PeerSet) :
    Except FatalError PeerSet :=
  if k = registrationStartup then .ok configured
  else k.reading (data.readOr Snapshot.Key.participants configured)

/-- The only peer that a round listens to, for rounds that listen to the keeper. -/
def keeper? (k : RoundKind) (data : Snapshot) : Except FatalError (Option PublicKey) :=
  if k.strategy = .onlyKeeperSends then some <$> k.reading data.keeper else .ok none

/-- The signatures among the payloads, by sender. -/
def signaturesOf (k : RoundKind) (payloads : SortedMap PublicKey Payload) :
    Except FatalError (SortedMap PublicKey Signature) :=
  payloads.entries.foldlM (fun m e =>
    match e.2.vote with
    | .signature sig => .ok (m.insert e.1 sig)
    | v => .error (.unexpectedPayload k v.kind)) SortedMap.empty

/-- The next snapshot and the event after enough payloads were collected. -/
def concludeCollected (k : RoundKind) (payloads : SortedMap PublicKey Payload) (data : Snapshot) :
    Except FatalError (Snapshot × Event) :=
  match k with
  | registrationStartup => do
    let s ← updated data [Update.set Snapshot.Key.participants (PeerSet.ofList payloads.keys)]
    pure (s, .done)
  | collectSignature => do
    let sigs ← k.signaturesOf payloads
    let s ← updated data [Update.set Snapshot.Key.signatures sigs]
    pure (s, .done)
  | _ => .error (.unexpectedDecision k)

/-- The next snapshot and the event after the peers agreed on a vote. -/
def concludeAgreed (k : RoundKind) (vote : Vote) (data : Snapshot) :
    Except FatalError (Snapshot × Event) :=
  match k, vote with
  | randomness, .randomness round value => do
    let s ← updated data [Update.set Snapshot.Key.randomness value,
      Update.set Snapshot.Key.randomnessRound round]
    pure (s, .done)
  | selectKeeper, .selectKeeper keeper => do
    let s ← updated data [Update.set Snapshot.Key.keeper keeper]
    pure (s, .done)
  | finalization, .finalization (some tx) => do
    let s ← updated data [Update.set Snapshot.Key.finalTx tx]
    pure (s, .done)
  | finalization, .finalization none => do
    let s ← updated data []
    pure (s, .finalizationFailed)
  | validateTransaction, .validate ok =>
    if ok = some true then do
      let periods ← k.reading data.periodCount
      let s ← updated data [Update.set Snapshot.Key.periodCount (periods + 1)]
      pure (s, .done)
    else do
      let s ← updated data []
      pure (s, .negative)
  | termination, .termination tx => do
    let s ← updated data [Update.set Snapshot.Key.terminationReached true,
      Update.set Snapshot.Key.terminationTx tx]
    pure (s, .terminate)
  | k, vote => .error (.unexpectedPayload k vote.kind)

/-- The next snapshot and the event of a decision. -/
def conclude (k : RoundKind) (d : Decision) (data : Snapshot) :
    Except FatalError (Snapshot × Event) :=
  match d with
  | .noMajority => (·, .noMajority) <$> updated data []
  | .timeout => (·, .roundTimeout) <$> updated data []
  | .collected payloads => k.concludeCollected payloads data
  | .agreed payload => k.concludeAgreed payload.vote data

end RoundKind

end Quorum
