import Quorum.Proofs.Peer.Sorted
import Quorum.Round.Voting

/-!
# Rounds that hold only what they may hold

* `PeerSet.supermajority` : how many peers decide, all but the faulty ones;
* `Round.hears`, `Round.Expects` : whom a round listens to, and which payloads are for it;
* `Round.check_eq_ok_iff` : what it takes for a payload to count;
* `Round.fresh` : the round that `Round.start` yields (`start_eq`);
* `Round.Tracked` : the value of every payload held is among those seen, which counting keeps
  (`Tracked.count`);
* `Round.WellFormed` : every payload held counted when it came, and its value is among those seen.
  It holds of a fresh round (`wellFormed_fresh`) and is kept by counting (`WellFormed.count`).
-/

namespace Quorum

/-! ## Thresholds -/

namespace PeerSet

/-- The number of agreeing peers that decide: all but the greatest number of faulty ones. -/
def supermajority (s : PeerSet) : Nat := s.size - (s.size - 1) / 3

theorem threshold?_eq {s : PeerSet} (h : s.size ≤ PeerCount.limit) :
    s.threshold? = some s.supermajority := by
  have hs : s.size ≤ 255 := h
  have ht : (UInt8.ofNat s.size).toNat = s.size := by
    rw [UInt8.toNat_ofNat']
    exact Nat.mod_eq_of_lt (by omega)
  unfold threshold? count? PeerCount.ofNat?
  rw [if_pos h, Option.map_some, PeerCount.threshold, PeerCount.maxFaulty, PeerCount.total, ht]
  rfl

theorem threshold?_eq_none {s : PeerSet} (h : ¬ s.size ≤ PeerCount.limit) :
    s.threshold? = none := by
  unfold threshold? count? PeerCount.ofNat?
  rw [if_neg h, Option.map_none]

theorem supermajority_pos {s : PeerSet} (h : s.peers ≠ []) : 0 < s.supermajority := by
  have : 0 < s.size := List.length_pos_iff.2 h
  unfold supermajority
  omega

/-- A supermajority is more than two thirds of the peers. -/
theorem two_mul_size_lt {s : PeerSet} (h : s.peers ≠ []) : 2 * s.size < 3 * s.supermajority := by
  have : 0 < s.size := List.length_pos_iff.2 h
  unfold supermajority
  omega

end PeerSet

namespace Round

/-! ## What counts -/

/-- Whether a peer may vote: it takes part, and is the keeper if the round has one. -/
def hears (r : Round) (pk : PublicKey) : Bool :=
  r.participants.contains pk && !r.keeper.any (· ≠ pk)

/-- The payload is for this round. -/
def Expects (r : Round) (p : Payload) : Prop :=
  r.kind.votes? = some p.kind ∧ (r.anyRoundCount = true ∨ p.roundCount = r.roundCount)

/-- A payload counts exactly if the round still collects, listens to its sender and expects it. -/
theorem check_eq_ok_iff {r : Round} {p : Payload} :
    r.check p = .ok () ↔ r.concluded = false ∧ r.hears p.sender = true ∧ r.Expects p := by
  unfold check hears Expects
  cases r.concluded <;> cases r.participants.contains p.sender <;> cases r.anyRoundCount <;>
    by_cases hv : r.kind.votes? = some p.kind <;> by_cases hc : p.roundCount = r.roundCount <;>
      cases r.keeper.any (· ≠ p.sender) <;> simp [hv, hc]

theorem accept_eq_ok_iff {r r' : Round} {p : Payload} :
    r.accept p = .ok r' ↔
      (r.concluded = false ∧ r.hears p.sender = true ∧ r.Expects p) ∧ r' = r.count p := by
  rw [← check_eq_ok_iff]
  unfold accept
  cases r.check p with
  | error e => simp
  | ok _ => simp [eq_comm]

/-- A refused payload leaves an error. -/
theorem accept_eq_error {r : Round} {p : Payload}
    (h : ¬ (r.concluded = false ∧ r.hears p.sender = true ∧ r.Expects p)) :
    ∃ e, r.accept p = .error e := by
  cases hr : r.accept p with
  | error e => exact ⟨e, rfl⟩
  | ok r' => exact absurd (accept_eq_ok_iff.1 hr).1 h

theorem get?_count (r : Round) (p : Payload) (k : PublicKey) :
    (r.count p).payloads.get? k = if k = p.sender then some p else r.payloads.get? k :=
  SortedMap.get?_insert_of r.payloads p.sender k p

theorem mem_seen_count {r : Round} {p : Payload} {fp : Fingerprint} :
    fp ∈ (r.count p).seen ↔ fp ∈ r.seen ∨ fp = p.fingerprint := by
  unfold count
  by_cases h : r.seen.contains p.fingerprint = true
  · have hm : p.fingerprint ∈ r.seen := List.contains_iff_mem.1 h
    simp only [if_pos h]
    exact ⟨.inl, fun hf => hf.elim id fun hf => hf ▸ hm⟩
  · simp only [if_neg h, List.mem_append, List.mem_singleton]

/-! ## Fresh rounds -/

/-- A round that nobody has voted in. -/
def fresh (kind : RoundKind) (roundCount : RoundCount) (participants : PeerSet)
    (keeper : Option PublicKey) (startHeight : Height) (anyRoundCount : Bool) : Round where
  kind := kind
  roundCount := roundCount
  anyRoundCount := anyRoundCount
  participants := participants
  threshold := votesNeeded kind.strategy participants.size participants.supermajority
  keeper := keeper
  payloads := SortedMap.empty
  seen := []
  startHeight := startHeight
  concluded := false

theorem start_eq {kind : RoundKind} {roundCount : RoundCount} {participants : PeerSet}
    {keeper : Option PublicKey} {startHeight : Height} {any : Bool}
    (hne : participants.peers ≠ []) (hle : participants.size ≤ PeerCount.limit) :
    Round.start kind roundCount participants keeper startHeight any =
      .ok (fresh kind roundCount participants keeper startHeight any) := by
  have he : participants.peers.isEmpty = false := by
    rw [List.isEmpty_eq_false_iff]
    exact hne
  unfold Round.start
  rw [PeerSet.threshold?_eq hle, he]
  rfl

/-- Only peers that can be counted can be asked, and a round that collects must ask somebody. -/
theorem of_start_eq_ok {kind : RoundKind} {roundCount : RoundCount} {participants : PeerSet}
    {keeper : Option PublicKey} {startHeight : Height} {any : Bool} {r : Round}
    (hk : kind.isTerminal = false)
    (h : Round.start kind roundCount participants keeper startHeight any = .ok r) :
    participants.peers ≠ [] ∧ participants.size ≤ PeerCount.limit := by
  unfold Round.start at h
  split_ifs at h with he
  refine ⟨fun hnil => he ?_, ?_⟩
  · rw [hnil, hk]
    rfl
  · by_cases hle : participants.size ≤ PeerCount.limit
    · exact hle
    · rw [PeerSet.threshold?_eq_none hle] at h
      cases h

theorem eq_fresh_of_start {kind : RoundKind} {roundCount : RoundCount} {participants : PeerSet}
    {keeper : Option PublicKey} {startHeight : Height} {any : Bool} {r : Round}
    (h : Round.start kind roundCount participants keeper startHeight any = .ok r) :
    r = fresh kind roundCount participants keeper startHeight any := by
  unfold Round.start at h
  split_ifs at h
  by_cases hle : participants.size ≤ PeerCount.limit
  · rw [PeerSet.threshold?_eq hle] at h
    exact (Except.ok.inj h).symm
  · rw [PeerSet.threshold?_eq_none hle] at h
    cases h

/-! ## Seen values -/

/-- The value of every payload held was seen, and no value is listed twice. -/
structure Tracked (r : Round) : Prop where
  mem_seen : ∀ {k p}, r.payloads.get? k = some p → p.fingerprint ∈ r.seen
  nodup_seen : r.seen.Nodup

theorem Tracked.count {r : Round} (h : r.Tracked) (p : Payload) : (r.count p).Tracked where
  mem_seen {k q} hq := by
    rw [get?_count] at hq
    rw [mem_seen_count]
    split_ifs at hq with hk
    · cases hq
      exact .inr rfl
    · exact .inl (h.mem_seen hq)
  nodup_seen := by
    unfold Round.count
    by_cases hc : r.seen.contains p.fingerprint = true
    · simp only [if_pos hc]
      exact h.nodup_seen
    · simp only [if_neg hc]
      have hn : p.fingerprint ∉ r.seen := mt List.contains_iff_mem.2 hc
      rw [List.nodup_append]
      refine ⟨h.nodup_seen, List.pairwise_singleton _ _, fun a ha b hb hab => hn ?_⟩
      rwa [← List.mem_singleton.1 hb, ← hab]

/-! ## Well-formed rounds -/

/-- Every payload that the round holds is that of its sender, counted when it came, and has a value
that was seen. -/
structure WellFormed (r : Round) : Prop where
  nonempty : r.participants.peers ≠ []
  bounded : r.participants.size ≤ PeerCount.limit
  threshold_eq : r.threshold =
    votesNeeded r.kind.strategy r.participants.size r.participants.supermajority
  keeper : r.kind.strategy = .onlyKeeperSends → ∃ pk, r.keeper = some pk
  sender : ∀ {k p}, r.payloads.get? k = some p → p.sender = k
  hears : ∀ {k p}, r.payloads.get? k = some p → r.hears k = true
  expects : ∀ {k p}, r.payloads.get? k = some p → r.Expects p
  mem_seen : ∀ {k p}, r.payloads.get? k = some p → p.fingerprint ∈ r.seen
  nodup_seen : r.seen.Nodup

theorem wellFormed_fresh {kind : RoundKind} {roundCount : RoundCount} {participants : PeerSet}
    {keeper : Option PublicKey} {startHeight : Height} {any : Bool}
    (hne : participants.peers ≠ []) (hle : participants.size ≤ PeerCount.limit)
    (hk : kind.strategy = .onlyKeeperSends → ∃ pk, keeper = some pk) :
    (fresh kind roundCount participants keeper startHeight any).WellFormed where
  nonempty := hne
  bounded := hle
  threshold_eq := rfl
  keeper := hk
  sender h := by cases h
  hears h := by cases h
  expects h := by cases h
  mem_seen h := by cases h
  nodup_seen := .nil

theorem WellFormed.tracked {r : Round} (h : r.WellFormed) : r.Tracked where
  mem_seen := h.mem_seen
  nodup_seen := h.nodup_seen

theorem WellFormed.count {r : Round} (h : r.WellFormed) {p : Payload}
    (hp : r.check p = .ok ()) : (r.count p).WellFormed := by
  obtain ⟨-, hh, he⟩ := check_eq_ok_iff.1 hp
  -- what holds of `p` and of every payload held before holds of every payload held now
  have key {P : PublicKey → Payload → Prop} (hnew : P p.sender p)
      (hold : ∀ {k q}, r.payloads.get? k = some q → P k q) {k : PublicKey} {q : Payload}
      (hq : (r.count p).payloads.get? k = some q) : P k q := by
    rw [get?_count] at hq
    split_ifs at hq with hk
    · cases hq
      rw [hk]
      exact hnew
    · exact hold hq
  exact {
    nonempty := h.nonempty
    bounded := h.bounded
    threshold_eq := h.threshold_eq
    keeper := h.keeper
    sender := key rfl h.sender
    hears := key hh h.hears
    expects := key he h.expects
    mem_seen := (h.tracked.count p).mem_seen
    nodup_seen := (h.tracked.count p).nodup_seen }

end Round

end Quorum
