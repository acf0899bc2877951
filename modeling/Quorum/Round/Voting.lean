import Quorum.Round.Conclusion

/-!
# A running round

* `Round` : one instance of a kind of round: whom it asks and what they voted for last;
* `Round.start` : a round that nobody has voted in;
* `Round.check`, `Round.accept` : whether a payload counts, and the round with it counted;
* `Round.tally`, `Round.mostVoted?`, `Round.winner?` : the votes by value, in the order in which the
  values were first seen;
* `Round.decide`, `Round.endBlock` : what the votes come to at the end of a block.
-/

namespace Quorum

/-- One instance of a kind of round. -/
structure Round where
  kind : RoundKind
  roundCount : RoundCount
  /-- A background round outlives the round count that it was started at. -/
  anyRoundCount : Bool
  participants : PeerSet
  threshold : Nat
  keeper : Option PublicKey
  /-- The last payload of each sender. -/
  payloads : SortedMap PublicKey Payload
  /-- The fingerprints in the order in which they were first seen. -/
  seen : List Fingerprint
  startHeight : Height
  concluded : Bool
  deriving DecidableEq

namespace Round

/-- The number of votes that decide in a round of a strategy among participants of which
`supermajority` are a threshold. -/
def votesNeeded (strategy : Strategy) (participants supermajority : Nat) : Nat :=
  match strategy with
  | .sameUntilAll => participants
  | .onlyKeeperSends => 1
  | .sameUntilThreshold | .differentUntilThreshold | .terminal => supermajority

/-- A round that nobody has voted in. -/
def start (kind : RoundKind) (roundCount : RoundCount) (participants : PeerSet)
    (keeper : Option PublicKey) (startHeight : Height) (anyRoundCount : Bool) :
    Except ConfigError Round :=
  if participants.peers.isEmpty && !kind.isTerminal then .error (.noParticipants kind)
  else
    match participants.threshold? with
    | none => .error (.tooManyParticipants kind participants.size PeerCount.limit)
    | some supermajority =>
      .ok {
        kind, roundCount, anyRoundCount, participants, keeper, startHeight
        threshold := votesNeeded kind.strategy participants.size supermajority
        payloads := SortedMap.empty
        seen := []
        concluded := false }

/-! ## Collecting -/

/-- Whether a payload counts; of several reasons against it the first one is given. -/
def check (r : Round) (p : Payload) : Except Rejection Unit :=
  if r.concluded then .error (.concluded r.kind)
  else if !r.participants.contains p.sender then .error (.unauthorizedSender p.sender)
  else if r.kind.votes? ≠ some p.kind then .error (.wrongType r.kind p.kind)
  else if !r.anyRoundCount && p.roundCount ≠ r.roundCount then
    .error (.stale r.roundCount p.roundCount)
  else if r.keeper.any (· ≠ p.sender) then .error (.notKeeper r.kind p.sender)
  else .ok ()

/-- Count a payload in place of an earlier one of the same sender. -/
def count (r : Round) (p : Payload) : Round :=
  let fp := p.fingerprint
  { r with
    seen := if r.seen.contains fp then r.seen else r.seen ++ [fp]
    payloads := r.payloads.insert p.sender p }

/-- Count a payload, if it counts. -/
def accept (r : Round) (p : Payload) : Except Rejection Round :=
  match r.check p with
  | .ok () => .ok (r.count p)
  | .error e => .error e

/-- Open a submission and count its payload. -/
def submit (r : Round) (s : Submission) : Except Rejection Round :=
  match s.open with
  | .ok p => r.accept p
  | .error e => .error (.unopened e)

/-! ## Counting -/

/-- The number of payloads of each fingerprint that some sender holds, in the order in which the
fingerprints were first seen. -/
def tally (r : Round) : List (Fingerprint × Nat) :=
  let held := r.payloads.values.map Payload.fingerprint
  r.seen.filterMap fun fp =>
    let n := held.count fp
    if n = 0 then none else some (fp, n)

/-- The entry with the greatest count, the first one on a tie. -/
def greatest : List (Fingerprint × Nat) → Option (Fingerprint × Nat)
  | [] => none
  | e :: es =>
    match greatest es with
    | none => some e
    | some d => if e.2 < d.2 then some d else some e

/-- The fingerprint that most senders hold, the earliest seen on a tie. -/
def mostVoted? (r : Round) : Option (Fingerprint × Nat) := greatest r.tally

/-- The only fingerprint of a tally with at least `threshold` payloads. -/
def winnerOf (kind : RoundKind) (threshold : Nat) (tally : List (Fingerprint × Nat)) :
    Except FatalError (Option Fingerprint) :=
  match tally.filter fun e => threshold ≤ e.2 with
  | [] => .ok none
  | [e] => .ok (some e.1)
  | e :: d :: _ => .error (.consensusInvariantViolation kind e.1 d.1)

/-- The only fingerprint with enough payloads. -/
def winner? (r : Round) : Except FatalError (Option Fingerprint) :=
  winnerOf r.kind r.threshold r.tally

/-- Whether the votes decide. -/
def thresholdReached (r : Round) : Except FatalError Bool :=
  match r.kind.strategy with
  | .differentUntilThreshold => .ok (r.threshold ≤ r.payloads.size)
  | .sameUntilAll | .sameUntilThreshold | .onlyKeeperSends => r.winner?.map Option.isSome
  | .terminal => .ok false

/-! ## Deciding -/

/-- The payload of the first sender that holds a fingerprint. -/
def holder? (r : Round) (fp : Fingerprint) : Option Payload :=
  r.payloads.values.find? fun p => p.fingerprint = fp

/-- What the votes alone come to. -/
def decideByVotes (r : Round) : Except FatalError (Option Decision) :=
  match r.kind.strategy with
  | .terminal => .ok none
  | .differentUntilThreshold =>
    .ok (if r.threshold ≤ r.payloads.size then some (.collected r.payloads) else none)
  | .sameUntilAll => r.winner?.map fun w => w.map fun _ => .collected r.payloads
  | .sameUntilThreshold | .onlyKeeperSends =>
    match r.winner? with
    | .error e => .error e
    | .ok (some fp) => .ok ((r.holder? fp).map .agreed)
    | .ok none =>
      .ok (if r.kind.emits .noMajority && r.payloads.size = r.participants.size then
        some .noMajority else none)

/-- Whether a round that can time out has lasted `timeout` blocks. -/
def timedOut (r : Round) (height : Height) (timeout : UInt64) : Bool :=
  r.kind.emits .roundTimeout && timeout ≤ height.distance r.startHeight

/-- What the votes come to at a height. -/
def decide (r : Round) (height : Height) (timeout : UInt64) : Except FatalError (Option Decision) :=
  match r.decideByVotes with
  | .error e => .error e
  | .ok (some d) => .ok (some d)
  | .ok none => .ok (if r.timedOut height timeout then some .timeout else none)

/-- The round after a block, and the next snapshot and the event if it has ended. A round that
fails to conclude goes on collecting. -/
def endBlock (r : Round) (data : Snapshot) (height : Height) (timeout : UInt64) :
    Round × Except FatalError (Option (Snapshot × Event)) :=
  if r.concluded then (r, .ok none)
  else
    match r.decide height timeout with
    | .error e => (r, .error e)
    | .ok none => (r, .ok none)
    | .ok (some d) =>
      match r.kind.conclude d data with
      | .error e => (r, .error e)
      | .ok res => ({ r with concluded := true }, .ok (some res))

end Round

end Quorum
