import Mathlib.Data.List.Induction
import Mathlib.Tactic.Tauto
import Quorum.Proofs.Round.Verdict

/-!
# What a round comes to, read off the payloads that it was given

A round keeps a map, a list of the values seen and a tally. What it decides depends on none of
these, but on the last payload of every participant alone.

* `Round.Terms` : what a round is started with, `Terms.Admits` : the payloads that it asks for;
* `Round.hearAll` : the round after payloads, those that do not count dropped;
* `Terms.last?` : the last payload of a peer among those that count, `Terms.Holds` : the round holds
  these payloads and nothing else, which each payload keeps (`Holds.hear`, `holds_hearAll`);
* `Terms.carried?`, `Terms.decision?` : what a collection of payloads comes to;
* `Holds.endBlock_eq` : the end of a block carries this decision out;
* `Terms.Divided` : participants of a round for the keeper that has no keeper disagree, which is the
  only way to violate the invariant of a round (`Holds.endBlock_of_divided`).
-/

namespace Quorum.Round

/-! ## Payloads that count -/

/-- What a round is started with. -/
structure Terms where
  kind : RoundKind
  roundCount : RoundCount
  participants : PeerSet
  keeper : Option PublicKey
  startHeight : Height
  anyRoundCount : Bool

/-- The round after a payload, unchanged if it does not count. -/
def hear (r : Round) (p : Payload) : Round :=
  match r.accept p with
  | .ok r' => r'
  | .error _ => r

/-- The round after payloads, those that do not count dropped. -/
def hearAll (r : Round) (ps : List Payload) : Round := ps.foldl hear r

theorem hearAll_concat (r : Round) (ps : List Payload) (p : Payload) :
    r.hearAll (ps ++ [p]) = (r.hearAll ps).hear p := by
  unfold hearAll
  rw [List.foldl_append]
  rfl

/-- A payload is counted, or leaves the round as it is. -/
theorem hear_cases (r : Round) (p : Payload) :
    (r.check p = .ok () ∧ (r.accept p).isOk = true ∧ r.hear p = r.count p) ∨
      ((r.accept p).isOk = false ∧ r.hear p = r) := by
  unfold hear accept
  cases r.check p with
  | ok _ => exact .inl ⟨rfl, rfl, rfl⟩
  | error e => exact .inr ⟨rfl, rfl⟩

/-- What counting a payload keeps, hearing payloads keeps. -/
theorem hearAll_keeps {P : Round → Prop} {r : Round} (ps : List Payload) (h : P r)
    (hcount : ∀ {r : Round} {p : Payload}, P r → r.check p = .ok () → P (r.count p)) :
    P (r.hearAll ps) := by
  induction ps using List.reverseRecOn with
  | nil => exact h
  | append_singleton ps p ih =>
    rw [hearAll_concat]
    rcases (r.hearAll ps).hear_cases p with ⟨hck, -, heq⟩ | ⟨-, heq⟩ <;> rw [heq]
    · exact hcount ih hck
    · exact ih

/-- Hearing changes nothing but the payloads and the values seen. -/
theorem hearAll_eq (r : Round) (ps : List Payload) : r.hearAll ps =
    { r with payloads := (r.hearAll ps).payloads, seen := (r.hearAll ps).seen } :=
  hearAll_keeps (P := fun r' => r' = { r with payloads := r'.payloads, seen := r'.seen }) ps rfl
    fun h _ => by
      unfold count
      rw [h]

theorem Tracked.hearAll {r : Round} (h : r.Tracked) (ps : List Payload) :
    (r.hearAll ps).Tracked := hearAll_keeps ps h fun h _ => h.count _

theorem WellFormed.hearAll {r : Round} (h : r.WellFormed) (ps : List Payload) :
    (r.hearAll ps).WellFormed := hearAll_keeps ps h fun h hck => h.count hck

namespace Terms

/-- Start a round on these terms. -/
def start (t : Terms) : Except ConfigError Round :=
  Round.start t.kind t.roundCount t.participants t.keeper t.startHeight t.anyRoundCount

/-- The round on these terms that nobody has voted in. -/
def fresh (t : Terms) : Round :=
  Round.fresh t.kind t.roundCount t.participants t.keeper t.startHeight t.anyRoundCount

/-- The payload is one that a round on these terms asks for. -/
def Admits (t : Terms) (p : Payload) : Prop :=
  p.sender ∈ t.participants.peers ∧ t.kind.votes? = some p.kind ∧
    (t.anyRoundCount = true ∨ p.roundCount = t.roundCount) ∧
      (t.keeper = none ∨ t.keeper = some p.sender)

instance (t : Terms) (p : Payload) : Decidable (t.Admits p) :=
  inferInstanceAs (Decidable (_ ∧ _ ∧ _ ∧ _))

/-- The last payload of a peer among those that count. -/
def last? (t : Terms) (ps : List Payload) (pk : PublicKey) : Option Payload :=
  (ps.filter fun p => t.Admits p ∧ p.sender = pk).getLast?

theorem last?_concat (t : Terms) (ps : List Payload) (p : Payload) (pk : PublicKey) :
    t.last? (ps ++ [p]) pk = if t.Admits p ∧ p.sender = pk then some p else t.last? ps pk := by
  unfold last?
  rw [List.filter_append, List.getLast?_append]
  by_cases h : t.Admits p ∧ p.sender = pk <;> simp [h]

theorem of_last?_eq_some {t : Terms} {ps : List Payload} {pk : PublicKey} {p : Payload}
    (h : t.last? ps pk = some p) : t.Admits p ∧ p.sender = pk := by
  have hm := List.mem_of_getLast? h
  rw [List.mem_filter, decide_eq_true_eq] at hm
  exact hm.2

theorem fresh_admits_iff {t : Terms} (hs : t.participants.Sorted) {p : Payload} :
    t.Admits p ↔ t.fresh.hears p.sender = true ∧ t.fresh.Expects p := by
  have hc : t.participants.contains p.sender = true ↔ p.sender ∈ t.participants.peers :=
    PeerSet.contains_iff hs
  have hk : t.keeper.any (· ≠ p.sender) = false ↔ t.keeper = none ∨ t.keeper = some p.sender := by
    cases t.keeper <;> simp
  unfold Admits Round.hears Round.Expects fresh Round.fresh
  rw [Bool.and_eq_true, Bool.not_eq_true', hc, hk]
  tauto

/-! ## What the round holds -/

/-- A round on these terms, still collecting, that holds the last payload of every peer among those
that count, and nothing else. -/
structure Holds (t : Terms) (ps : List Payload) (r : Round) : Prop where
  eq : r = { t.fresh with payloads := r.payloads, seen := r.seen }
  get? : ∀ pk, r.payloads.get? pk = t.last? ps pk
  tracked : r.Tracked

variable {t : Terms} {ps : List Payload} {r : Round}

theorem holds_fresh (t : Terms) : t.Holds [] t.fresh where
  eq := rfl
  get? _ := rfl
  tracked := { mem_seen := fun h => (by cases h), nodup_seen := .nil }

namespace Holds

theorem kind_eq (h : t.Holds ps r) : r.kind = t.kind := by rw [h.eq]; rfl
theorem participants_eq (h : t.Holds ps r) : r.participants = t.participants := by rw [h.eq]; rfl
theorem keeper_eq (h : t.Holds ps r) : r.keeper = t.keeper := by rw [h.eq]; rfl
theorem startHeight_eq (h : t.Holds ps r) : r.startHeight = t.startHeight := by rw [h.eq]; rfl
theorem concluded_eq (h : t.Holds ps r) : r.concluded = false := by rw [h.eq]; rfl
theorem threshold_eq (h : t.Holds ps r) : r.threshold =
    votesNeeded t.kind.strategy t.participants.size t.participants.supermajority := by
  rw [h.eq]; rfl

theorem hears_eq (h : t.Holds ps r) : r.hears = t.fresh.hears := by rw [h.eq]; rfl

theorem expects_eq (h : t.Holds ps r) : r.Expects = t.fresh.Expects := by rw [h.eq]; rfl

/-- A payload counts exactly if the terms ask for it, whatever was heard before. -/
theorem accept_eq_ok_iff (h : t.Holds ps r) (hs : t.participants.Sorted) {p : Payload}
    {r' : Round} : r.accept p = .ok r' ↔ t.Admits p ∧ r' = r.count p := by
  rw [Round.accept_eq_ok_iff, h.hears_eq, h.expects_eq, fresh_admits_iff hs]
  simp [h.concluded_eq]

theorem hear_of_admits (h : t.Holds ps r) (hs : t.participants.Sorted) {p : Payload}
    (hp : t.Admits p) : r.hear p = r.count p := by
  unfold hear
  rw [(h.accept_eq_ok_iff hs).2 ⟨hp, rfl⟩]

theorem exists_error (h : t.Holds ps r) (hs : t.participants.Sorted) {p : Payload}
    (hp : ¬ t.Admits p) : ∃ e, r.accept p = .error e := by
  cases hr : r.accept p with
  | error e => exact ⟨e, rfl⟩
  | ok r' => exact absurd ((h.accept_eq_ok_iff hs).1 hr).1 hp

theorem hear_of_not_admits (h : t.Holds ps r) (hs : t.participants.Sorted) {p : Payload}
    (hp : ¬ t.Admits p) : r.hear p = r := by
  obtain ⟨e, he⟩ := h.exists_error hs hp
  unfold hear
  rw [he]

/-- One payload keeps what a round holds in step with what it was given. -/
theorem hear (h : t.Holds ps r) (hs : t.participants.Sorted) (p : Payload) :
    t.Holds (ps ++ [p]) (r.hear p) := by
  by_cases hp : t.Admits p
  · rw [h.hear_of_admits hs hp]
    refine ⟨?_, fun pk => ?_, h.tracked.count p⟩
    · unfold count
      rw [h.eq]
    · rw [get?_count, h.get?, last?_concat]
      simp only [hp, true_and, eq_comm]
  · rw [h.hear_of_not_admits hs hp]
    refine ⟨h.eq, fun pk => ?_, h.tracked⟩
    rw [h.get?, last?_concat, if_neg fun hc => hp hc.1]

/-- Such a round is well-formed, unless it is for a keeper and has none. -/
theorem wellFormed (h : t.Holds ps r) (hs : t.participants.Sorted)
    (hne : t.participants.peers ≠ []) (hle : t.participants.size ≤ PeerCount.limit)
    (hk : t.kind.strategy = .onlyKeeperSends → ∃ pk, t.keeper = some pk) : r.WellFormed := by
  have hget {k : PublicKey} {p : Payload} (hp : r.payloads.get? k = some p) :
      t.Admits p ∧ p.sender = k := of_last?_eq_some ((h.get? k).symm.trans hp)
  exact {
    nonempty := h.participants_eq ▸ hne
    bounded := h.participants_eq ▸ hle
    threshold_eq := by rw [h.threshold_eq, h.kind_eq, h.participants_eq]
    keeper := by
      rw [h.kind_eq, h.keeper_eq]
      exact hk
    sender := fun hp => (hget hp).2
    hears := fun hp => by
      rw [h.hears_eq, ← (hget hp).2]
      exact ((fresh_admits_iff hs).1 (hget hp).1).1
    expects := fun hp => by
      rw [h.expects_eq]
      exact ((fresh_admits_iff hs).1 (hget hp).1).2
    mem_seen := h.tracked.mem_seen
    nodup_seen := h.tracked.nodup_seen }

end Holds

theorem holds_hearAll (hs : t.participants.Sorted) (hr : t.start = .ok r) (ps : List Payload) :
    t.Holds ps (r.hearAll ps) := by
  obtain rfl : r = t.fresh := eq_fresh_of_start hr
  induction ps using List.reverseRecOn with
  | nil => exact holds_fresh t
  | append_singleton ps p ih =>
    rw [hearAll_concat]
    exact ih.hear hs p

/-! ## What a collection comes to -/

/-- The number of payloads with a fingerprint. -/
def backing (c : SortedMap PublicKey Payload) (fp : Fingerprint) : Nat :=
  c.values.countP fun p => p.fingerprint = fp

/-- The decision that the votes of a collection carry, with the payload of the first sender that
holds the value if they agree on one. -/
def carried? (t : Terms) (c : SortedMap PublicKey Payload) : Option Decision :=
  match t.kind.strategy with
  | .sameUntilAll =>
    if ∃ p ∈ c.values, backing c p.fingerprint = t.participants.size then some (.collected c)
    else none
  | .sameUntilThreshold =>
    (c.values.find? fun p =>
      t.participants.size - (t.participants.size - 1) / 3 ≤ backing c p.fingerprint).map .agreed
  | .differentUntilThreshold =>
    if t.participants.size - (t.participants.size - 1) / 3 ≤ c.size then some (.collected c)
    else none
  | .onlyKeeperSends => c.values.head?.map .agreed
  | .terminal => none

/-- The decision at the end of a block: what the votes carry comes first, then that everyone voted
and nothing was carried, then the timeout. -/
def decision? (t : Terms) (c : SortedMap PublicKey Payload) (height : Height) (timeout : UInt64) :
    Option Decision :=
  (t.carried? c).or <|
    (if t.kind.emits .noMajority ∧ c.size = t.participants.size then some .noMajority
      else none).or <|
    if t.kind.emits .roundTimeout ∧ timeout ≤ height.distance t.startHeight then some .timeout
    else none

/-- Participants of a round for the keeper that has no keeper disagree. -/
def Divided (t : Terms) (c : SortedMap PublicKey Payload) : Prop :=
  t.kind.strategy = .onlyKeeperSends ∧ t.keeper = none ∧
    ∃ p ∈ c.values, ∃ q ∈ c.values, p.fingerprint ≠ q.fingerprint

end Terms

/-- The round and what it hands on once a decision, if there is one, is carried out. A round that
fails to conclude goes on collecting. -/
def carryOut (r : Round) (data : Snapshot) :
    Option Decision → Round × Except FatalError (Option (Snapshot × Event))
  | none => (r, .ok none)
  | some d =>
    match r.kind.conclude d data with
    | .ok res => ({ r with concluded := true }, .ok (some res))
    | .error e => (r, .error e)

/-! ## The votes -/

theorem held_eq_backing (r : Round) (fp : Fingerprint) :
    r.held fp = Terms.backing r.payloads fp := by
  unfold held Terms.backing
  rw [List.count, List.countP_map]
  refine List.countP_congr fun p _ => ?_
  simp

theorem held_pos_iff_mem {r : Round} {fp : Fingerprint} :
    0 < r.held fp ↔ ∃ p ∈ r.payloads.values, p.fingerprint = fp := by
  unfold held
  rw [List.count_pos_iff, List.mem_map]

/-- The first payload whose value has the threshold is that of the first holder of the winner. -/
theorem find?_of_winner {r : Round} {w : Option Fingerprint}
    (hw : ∀ fp, w = some fp ↔ r.threshold ≤ r.held fp) :
    r.payloads.values.find? (fun p => r.threshold ≤ r.held p.fingerprint) = w.bind r.holder? := by
  have hiff (p : Payload) : r.threshold ≤ r.held p.fingerprint ↔ w = some p.fingerprint :=
    (hw p.fingerprint).symm
  simp only [hiff]
  cases w with
  | none => exact List.find?_eq_none.2 fun p _ => by simp
  | some fp =>
    unfold holder?
    simp only [Option.some.injEq, eq_comm]
    rfl

namespace Terms.Holds

variable {t : Terms} {ps : List Payload} {r : Round}

theorem threshold_pos (h : t.Holds ps r) (hne : t.participants.peers ≠ []) : 0 < r.threshold := by
  have hs : 0 < t.participants.size := List.length_pos_iff.2 hne
  have hm := PeerSet.supermajority_pos hne
  rw [h.threshold_eq]
  unfold votesNeeded
  cases t.kind.strategy <;> simp [hs, hm]

/-- Two values have the threshold together only where participants that the round should not have
heard disagree. -/
theorem exists_winner (h : t.Holds ps r) (hs : t.participants.Sorted)
    (hne : t.participants.peers ≠ []) (hle : t.participants.size ≤ PeerCount.limit)
    (hd : ¬ t.Divided r.payloads) :
    ∃ w, r.winner? = .ok w ∧ ∀ fp, w = some fp ↔ r.threshold ≤ r.held fp := by
  by_cases hk : t.kind.strategy = .onlyKeeperSends → ∃ pk, t.keeper = some pk
  · exact (h.wellFormed hs hne hle hk).exists_winner
  · obtain ⟨hk, hkeeper⟩ := Classical.not_imp.1 hk
    have hpos := h.threshold_pos hne
    refine (h.tracked.winner?_cases hpos).resolve_right ?_
    rintro ⟨a, b, hab, ha, hb, -⟩
    obtain ⟨p, hp, rfl⟩ := held_pos_iff_mem.1 (Nat.lt_of_lt_of_le hpos ha)
    obtain ⟨q, hq, rfl⟩ := held_pos_iff_mem.1 (Nat.lt_of_lt_of_le hpos hb)
    refine hd ⟨hk, ?_, p, hp, q, hq, hab⟩
    cases hkp : t.keeper with
    | none => rfl
    | some pk => exact absurd ⟨pk, hkp⟩ hkeeper

/-- Whether all participants hold one value. -/
theorem decideByVotes_of_all (h : t.Holds ps r) (hs : t.participants.Sorted)
    (hne : t.participants.peers ≠ []) (hle : t.participants.size ≤ PeerCount.limit)
    (hk : t.kind.strategy = .sameUntilAll) : r.decideByVotes = .ok (t.carried? r.payloads) := by
  have hw := h.wellFormed hs hne hle (by simp [hk])
  obtain ⟨w, hwin, hiff⟩ := hw.exists_winner
  have ht : r.threshold = t.participants.size := by
    rw [h.threshold_eq, hk]
    rfl
  unfold decideByVotes carried?
  rw [h.kind_eq, hk, hwin]
  -- a value of all participants is one of the threshold, since no more than all hold it
  cases w with
  | none =>
    refine congrArg Except.ok (if_neg ?_).symm
    rintro ⟨p, -, hp⟩
    rw [← held_eq_backing, ← ht] at hp
    cases (hiff p.fingerprint).2 (Nat.le_of_eq hp.symm)
  | some fp =>
    have hheld : r.threshold ≤ r.held fp := (hiff fp).1 rfl
    obtain ⟨p, hp, rfl⟩ := held_pos_iff_mem.1 (Nat.lt_of_lt_of_le (h.threshold_pos hne) hheld)
    refine congrArg Except.ok (if_pos ⟨p, hp, ?_⟩).symm
    have hsize := hw.size_le
    have hle' := r.held_le_size p.fingerprint
    rw [h.participants_eq] at hsize
    rw [← held_eq_backing]
    omega

/-- The payload that the votes agree on is that of the first sender with a value that has the
threshold. -/
theorem carried?_eq_find? (h : t.Holds ps r)
    (hk : t.kind.strategy = .sameUntilThreshold ∨ t.kind.strategy = .onlyKeeperSends) :
    t.carried? r.payloads =
      (r.payloads.values.find? fun p => r.threshold ≤ r.held p.fingerprint).map .agreed := by
  unfold carried?
  rcases hk with hk | hk
  · rw [h.threshold_eq, hk]
    simp only [held_eq_backing]
    rfl
  · rw [h.threshold_eq, hk]
    change r.payloads.values.head?.map Decision.agreed =
      (r.payloads.values.find? fun p => 1 ≤ r.held p.fingerprint).map .agreed
    cases hv : r.payloads.values with
    | nil => rfl
    | cons p l =>
      have hp : 1 ≤ r.held p.fingerprint :=
        held_pos_iff_mem.2 ⟨p, hv ▸ List.mem_cons_self, rfl⟩
      rw [List.head?_cons, List.find?_cons_of_pos (by simpa using hp)]

/-- **The votes alone come to what the collection carries**, or to no majority. -/
theorem decideByVotes_eq (h : t.Holds ps r) (hs : t.participants.Sorted)
    (hne : t.participants.peers ≠ []) (hle : t.participants.size ≤ PeerCount.limit)
    (hd : ¬ t.Divided r.payloads) :
    r.decideByVotes = .ok ((t.carried? r.payloads).or
      (if t.kind.emits .noMajority ∧ r.payloads.size = t.participants.size then some .noMajority
        else none)) := by
  have hemits (hk : t.kind.strategy ≠ .sameUntilThreshold) : ¬ t.kind.emits .noMajority := by
    revert hk
    cases t.kind <;> decide
  cases hk : t.kind.strategy with
  | terminal =>
    rw [if_neg fun hc => hemits (by simp [hk]) hc.1]
    unfold decideByVotes carried?
    rw [h.kind_eq, hk]
    rfl
  | differentUntilThreshold =>
    rw [if_neg fun hc => hemits (by simp [hk]) hc.1, Option.or_none]
    unfold decideByVotes carried?
    rw [h.threshold_eq, h.kind_eq, hk]
    rfl
  | sameUntilAll =>
    rw [if_neg fun hc => hemits (by simp [hk]) hc.1, Option.or_none,
      h.decideByVotes_of_all hs hne hle hk]
  | sameUntilThreshold | onlyKeeperSends =>
    obtain ⟨w, hwin, hiff⟩ := h.exists_winner hs hne hle hd
    rw [h.carried?_eq_find? (by simp [hk]), find?_of_winner hiff]
    unfold decideByVotes
    rw [h.kind_eq, hk, hwin, h.participants_eq]
    cases w with
    | none => simp
    | some fp =>
      obtain ⟨-, p, hp, -⟩ := holder?_of_held
        (Nat.lt_of_lt_of_le (h.threshold_pos hne) ((hiff fp).1 rfl))
      simp [hp]

theorem decide_eq (h : t.Holds ps r) (hs : t.participants.Sorted)
    (hne : t.participants.peers ≠ []) (hle : t.participants.size ≤ PeerCount.limit)
    (hd : ¬ t.Divided r.payloads) (height : Height) (timeout : UInt64) :
    r.decide height timeout = .ok (t.decision? r.payloads height timeout) := by
  unfold decide decision? timedOut
  rw [h.decideByVotes_eq hs hne hle hd, h.kind_eq, h.startHeight_eq, ← Option.or_assoc]
  cases (t.carried? r.payloads).or _ with
  | some d => rfl
  | none => simp

/-- **The end of a block carries out what the collection comes to.** -/
theorem endBlock_eq (h : t.Holds ps r) (hs : t.participants.Sorted)
    (hne : t.participants.peers ≠ []) (hle : t.participants.size ≤ PeerCount.limit)
    (hd : ¬ t.Divided r.payloads) (data : Snapshot) (height : Height) (timeout : UInt64) :
    r.endBlock data height timeout =
      r.carryOut data (t.decision? r.payloads height timeout) := by
  unfold endBlock carryOut
  rw [h.concluded_eq, h.decide_eq hs hne hle hd]
  cases t.decision? r.payloads height timeout with
  | none => rfl
  | some d =>
    simp only [Bool.false_eq_true, if_false]
    cases r.kind.conclude d data <;> rfl

/-- Without a keeper to listen to, every value that is held has the threshold. -/
theorem endBlock_of_divided (h : t.Holds ps r) (hne : t.participants.peers ≠ [])
    (hd : t.Divided r.payloads) (data : Snapshot) (height : Height) (timeout : UInt64) :
    ∃ p ∈ r.payloads.values, ∃ q ∈ r.payloads.values, p.fingerprint ≠ q.fingerprint ∧
      r.endBlock data height timeout =
        (r, .error (.consensusInvariantViolation t.kind p.fingerprint q.fingerprint)) := by
  obtain ⟨hk, -, p, hp, q, hq, hpq⟩ := hd
  have hpos := h.threshold_pos hne
  have hone : r.threshold = 1 := by
    rw [h.threshold_eq, hk]
    rfl
  have hheld {p : Payload} (hp : p ∈ r.payloads.values) : r.threshold ≤ r.held p.fingerprint := by
    rw [hone]
    exact held_pos_iff_mem.2 ⟨p, hp, rfl⟩
  rcases h.tracked.winner?_cases hpos with ⟨w, -, hw⟩ | ⟨a, b, hab, ha, hb, hwin⟩
  · have hwp := (hw _).2 (hheld hp)
    exact absurd (Option.some.inj (hwp.symm.trans ((hw _).2 (hheld hq)))) hpq
  · obtain ⟨p, hp, rfl⟩ := held_pos_iff_mem.1 (Nat.lt_of_lt_of_le hpos ha)
    obtain ⟨q, hq, rfl⟩ := held_pos_iff_mem.1 (Nat.lt_of_lt_of_le hpos hb)
    refine ⟨p, hp, q, hq, hab, ?_⟩
    unfold endBlock decide decideByVotes
    rw [h.concluded_eq, h.kind_eq, hk, hwin, h.kind_eq]
    rfl

end Terms.Holds

/-! ## Every round -/

/-- **A round is its reference.** It holds the last payload of every participant among those that it
asks for and refuses every other payload unchanged; the end of a block carries out what this
collection comes to, except where participants of a round for the keeper that has no keeper
disagree, which is a violation of the invariant and leaves the round as it is. -/
theorem Terms.agrees_with_reference {t : Terms} {r : Round} (hk : t.kind.isTerminal = false)
    (hp : t.participants.Built) (hr : t.start = .ok r) (ps : List Payload) :
    (∀ pk, (r.hearAll ps).payloads.get? pk = t.last? ps pk) ∧
      (∀ p, t.Admits p → (r.hearAll ps).accept p = .ok (r.hearAll (ps ++ [p]))) ∧
      (∀ p, ¬ t.Admits p → (∃ e, (r.hearAll ps).accept p = .error e) ∧
        r.hearAll (ps ++ [p]) = r.hearAll ps) ∧
      ∀ (data : Snapshot) (height : Height) (timeout : UInt64),
        (t.Divided (r.hearAll ps).payloads →
          ∃ p ∈ (r.hearAll ps).payloads.values, ∃ q ∈ (r.hearAll ps).payloads.values,
            p.fingerprint ≠ q.fingerprint ∧ (r.hearAll ps).endBlock data height timeout =
              (r.hearAll ps,
                .error (.consensusInvariantViolation t.kind p.fingerprint q.fingerprint))) ∧
        (¬ t.Divided (r.hearAll ps).payloads → (r.hearAll ps).endBlock data height timeout =
          (r.hearAll ps).carryOut data (t.decision? (r.hearAll ps).payloads height timeout)) := by
  have hs := hp.sorted
  obtain ⟨hne, hle⟩ := of_start_eq_ok hk hr
  have h := Terms.holds_hearAll hs hr ps
  refine ⟨h.get?, fun p hp => ?_, fun p hp => ⟨h.exists_error hs hp, ?_⟩, fun data height timeout =>
    ⟨fun hd => h.endBlock_of_divided hne hd data height timeout,
      fun hd => h.endBlock_eq hs hne hle hd data height timeout⟩⟩
  · rw [hearAll_concat, h.hear_of_admits hs hp]
    exact (h.accept_eq_ok_iff hs).2 ⟨hp, rfl⟩
  · rw [hearAll_concat, h.hear_of_not_admits hs hp]

/-! ## A round for the keeper without a keeper -/

/-- Two peers. -/
def couple : PeerSet := ⟨[Octets.fill 0, Octets.fill 1]⟩

theorem built_couple : couple.Built := by
  unfold couple
  rw [← PeerSet.ofList_eq_of_pairwise (by decide)]
  exact .ofList _

/-- A round for the keeper, of two peers. -/
def finalizing (keeper : Option PublicKey) : Terms where
  kind := .finalization
  roundCount := Counter.ofNat 1
  participants := couple
  keeper := keeper
  startHeight := Counter.ofNat 10
  anyRoundCount := false

theorem start_finalizing (keeper : Option PublicKey) :
    (finalizing keeper).start = .ok (finalizing keeper).fresh :=
  start_eq (by decide : couple.peers ≠ []) (by decide : couple.size ≤ PeerCount.limit)

/-- The two peers name different transactions. -/
def conflicting : List Payload :=
  [⟨Octets.fill 0, Counter.ofNat 1, .finalization (some (Octets.fill 3))⟩,
    ⟨Octets.fill 1, Counter.ofNat 1, .finalization (some (Octets.fill 4))⟩]

theorem values_hearAll_conflicting :
    ((finalizing none).fresh.hearAll conflicting).payloads.values = conflicting := by
  decide +kernel

theorem divided_conflicting :
    (finalizing none).Divided ((finalizing none).fresh.hearAll conflicting).payloads := by
  refine ⟨rfl, rfl, ?_⟩
  rw [values_hearAll_conflicting]
  decide +kernel

/-- A decision of a round for the keeper is carried out, or is not one of that round. -/
theorem conclude_finalization (d : Decision) :
    (∃ res, RoundKind.finalization.conclude d Snapshot.empty = .ok res) ∨
      (∃ v, RoundKind.finalization.conclude d Snapshot.empty =
        .error (.unexpectedPayload .finalization v)) ∨
      RoundKind.finalization.conclude d Snapshot.empty =
        .error (.unexpectedDecision .finalization) := by
  cases d with
  | noMajority | timeout => exact .inl ⟨_, rfl⟩
  | collected payloads => exact .inr (.inr rfl)
  | agreed p =>
    obtain ⟨_, _, v⟩ := p
    cases v with
    | finalization tx => cases tx <;> exact .inl ⟨_, rfl⟩
    | _ => exact .inr (.inl ⟨_, rfl⟩)

/-- A round for the keeper that has no keeper carries out no decision at all when its participants
disagree, although it holds a submission. -/
theorem keeperless_round_decides_nothing : (finalizing none).kind.isTerminal = false ∧
    (finalizing none).participants.Built ∧ ∃ r, (finalizing none).start = .ok r ∧
      ((finalizing none).carried? (r.hearAll conflicting).payloads).isSome = true ∧
      ∀ d, (r.hearAll conflicting).endBlock Snapshot.empty (Counter.ofNat 11) 100 ≠
        (r.hearAll conflicting).carryOut Snapshot.empty d := by
  refine ⟨rfl, built_couple, _, start_finalizing none, ?_, fun d hd => ?_⟩
  · change (((finalizing none).fresh.hearAll conflicting).payloads.values.head?.map
      Decision.agreed).isSome = true
    rw [values_hearAll_conflicting]
    rfl
  · have h := Terms.holds_hearAll built_couple.sorted (start_finalizing none) conflicting
    obtain ⟨p, -, q, -, -, he⟩ := h.endBlock_of_divided (by decide : couple.peers ≠ [])
      divided_conflicting Snapshot.empty (Counter.ofNat 11) 100
    have herr := congrArg Prod.snd (he.symm.trans hd)
    cases d with
    | none => cases herr
    | some d =>
      unfold carryOut at herr
      rw [h.kind_eq] at herr
      change _ = (match RoundKind.finalization.conclude d Snapshot.empty with
        | .ok res => _
        | .error e => _ : Round × Except FatalError (Option (Snapshot × Event))).2 at herr
      rcases conclude_finalization d with ⟨res, hc⟩ | ⟨v, hc⟩ | hc <;> rw [hc] at herr <;>
        cases herr

/-- With a keeper the round hears nobody else and ends with what the keeper names; without one the
same payloads violate the invariant. -/
theorem agrees_with_reference_of_couple :
    (((finalizing (some (Octets.fill 1))).fresh.hearAll conflicting).endBlock Snapshot.empty
        (Counter.ofNat 11) 100).2.map (Option.map Prod.snd) = .ok (some .done) ∧
      ∃ p ∈ conflicting, ∃ q ∈ conflicting,
        ((finalizing none).fresh.hearAll conflicting).endBlock Snapshot.empty
            (Counter.ofNat 11) 100 =
          ((finalizing none).fresh.hearAll conflicting,
            .error (.consensusInvariantViolation .finalization p.fingerprint q.fingerprint)) := by
  constructor
  · obtain ⟨-, -, -, h⟩ := Terms.agrees_with_reference rfl built_couple
      (start_finalizing (some (Octets.fill 1))) conflicting
    rw [(h Snapshot.empty (Counter.ofNat 11) 100).2 fun hd => by cases hd.2.1]
    decide +kernel
  · obtain ⟨-, -, -, h⟩ := Terms.agrees_with_reference rfl built_couple
      (start_finalizing none) conflicting
    obtain ⟨p, hp, q, hq, -, he⟩ :=
      (h Snapshot.empty (Counter.ofNat 11) 100).1 divided_conflicting
    rw [values_hearAll_conflicting] at hp hq
    exact ⟨p, hp, q, hq, he⟩

end Quorum.Round
