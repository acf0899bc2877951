import Quorum.Proofs.Round.WellFormed

/-!
# Counting votes

* `Round.held fp` : how many senders hold the value with fingerprint `fp`;
* `Tracked.mem_tally_iff` : the tally lists the values that some sender holds, with their numbers;
* `Tracked.winner?_cases` : so the winner is the only value with the threshold, and two of them are
  a violation of the invariant;
* `held_unique` : two different values never have the threshold together in a well-formed round,
  because it hears fewer senders than two thresholds;
* `winner?_eq_some_iff`, `winner?_eq_none_iff` : so the winner is the value that has it, and no
  invariant is ever violated (`exists_winner`);
* `holder?_of_held` : a value that is held has a holder;
* `holders fp` : the senders that hold it.
-/

namespace Quorum.Round

/-- The number of senders that hold a value. -/
def held (r : Round) (fp : Fingerprint) : Nat :=
  (r.payloads.values.map Payload.fingerprint).count fp

/-- The senders that hold a value. -/
def holders (r : Round) (fp : Fingerprint) : List PublicKey :=
  (r.payloads.entries.filter fun e => e.2.fingerprint = fp).map (·.1)

/-! ## Senders -/

theorem length_holders (r : Round) (fp : Fingerprint) : (r.holders fp).length = r.held fp := by
  unfold holders held SortedMap.values
  rw [List.length_map, List.map_map, ← List.countP_eq_length_filter, List.count, List.countP_map]
  refine List.countP_congr fun e _ => ?_
  simp

theorem mem_holders_iff {r : Round} {fp : Fingerprint} {k : PublicKey} :
    k ∈ r.holders fp ↔ ∃ p, r.payloads.get? k = some p ∧ p.fingerprint = fp := by
  unfold holders
  simp only [List.mem_map, List.mem_filter, decide_eq_true_eq]
  constructor
  · rintro ⟨⟨j, p⟩, ⟨hm, hp⟩, rfl⟩
    exact ⟨p, SortedMap.get?_eq_some_iff.2 hm, hp⟩
  · rintro ⟨p, hm, hp⟩
    exact ⟨(k, p), ⟨SortedMap.get?_eq_some_iff.1 hm, hp⟩, rfl⟩

theorem nodup_holders (r : Round) (fp : Fingerprint) : (r.holders fp).Nodup :=
  r.payloads.nodup_keys.sublist (List.filter_sublist.map _)

theorem WellFormed.mem_participants {r : Round} (h : r.WellFormed) {k : PublicKey} {p : Payload}
    (hp : r.payloads.get? k = some p) : k ∈ r.participants.peers := by
  have hk := h.hears hp
  unfold Round.hears at hk
  rw [Bool.and_eq_true] at hk
  exact PeerSet.mem_of_contains hk.1

/-- A value has as many holders as participants whose vote it is. -/
theorem WellFormed.held_eq_countP {r : Round} (h : r.WellFormed)
    (hnd : r.participants.peers.Nodup) (fp : Fingerprint) :
    r.held fp = r.participants.peers.countP fun pk =>
      (r.payloads.get? pk).map Payload.fingerprint = some fp := by
  rw [← length_holders, List.countP_eq_length_filter]
  refine ((List.perm_ext_iff_of_nodup (r.nodup_holders fp) (hnd.sublist List.filter_sublist)).2
    fun pk => ?_).length_eq
  rw [mem_holders_iff, List.mem_filter, decide_eq_true_eq, Option.map_eq_some_iff]
  constructor
  · rintro ⟨p, hp, hf⟩
    exact ⟨h.mem_participants hp, p, hp, hf⟩
  · rintro ⟨-, hp⟩
    exact hp

theorem WellFormed.size_le {r : Round} (h : r.WellFormed) :
    r.payloads.size ≤ r.participants.size := by
  rw [← SortedMap.length_keys]
  refine r.payloads.nodup_keys.length_le_of_subset fun k hk => ?_
  obtain ⟨p, hp⟩ := SortedMap.mem_keys_iff.1 hk
  exact h.mem_participants hp

/-- A round with a keeper hears nobody else. -/
theorem WellFormed.eq_keeper {r : Round} (h : r.WellFormed) {keeper pk : PublicKey} {p : Payload}
    (hk : r.keeper = some keeper) (hp : r.payloads.get? pk = some p) : pk = keeper := by
  have hh := h.hears hp
  unfold Round.hears at hh
  rw [hk] at hh
  simp at hh
  exact hh.2.symm

theorem WellFormed.size_le_one {r : Round} (h : r.WellFormed) {keeper : PublicKey}
    (hk : r.keeper = some keeper) : r.payloads.size ≤ 1 := by
  have hsub : r.payloads.keys ⊆ [keeper] := fun pk hmem => by
    obtain ⟨p, hp⟩ := SortedMap.mem_keys_iff.1 hmem
    exact List.mem_singleton.2 (h.eq_keeper hk hp)
  rw [← SortedMap.length_keys]
  exact r.payloads.nodup_keys.length_le_of_subset hsub

theorem WellFormed.threshold_pos {r : Round} (h : r.WellFormed) : 0 < r.threshold := by
  have hs : 0 < r.participants.size := List.length_pos_iff.2 h.nonempty
  have hm := PeerSet.supermajority_pos h.nonempty
  rw [h.threshold_eq]
  unfold votesNeeded
  cases r.kind.strategy <;> simp [hs, hm]

/-- There are fewer senders than in two thresholds. -/
theorem WellFormed.size_lt_two_mul_threshold {r : Round} (h : r.WellFormed) :
    r.payloads.size < 2 * r.threshold := by
  have hs : 0 < r.participants.size := List.length_pos_iff.2 h.nonempty
  have hle := h.size_le
  have hm : 2 * r.participants.size < 3 * r.participants.supermajority :=
    PeerSet.two_mul_size_lt h.nonempty
  rw [h.threshold_eq]
  unfold votesNeeded
  cases hk : r.kind.strategy with
  | onlyKeeperSends =>
    obtain ⟨pk, hpk⟩ := h.keeper hk
    have := h.size_le_one hpk
    simp only
    omega
  | _ =>
    simp only
    omega

/-! ## Values -/

theorem count_add_count_le {α : Type} [DecidableEq α] {a b : α} (hab : a ≠ b) (l : List α) :
    l.count a + l.count b ≤ l.length := by
  induction l with
  | nil => exact Nat.le_refl 0
  | cons c l ih =>
    rw [List.count_cons, List.count_cons, List.length_cons]
    by_cases hc : c = a
    · subst hc
      simp [hab]
      omega
    · simp [hc]
      split <;> omega

theorem held_add_held_le (r : Round) {a b : Fingerprint} (hab : a ≠ b) :
    r.held a + r.held b ≤ r.payloads.size := by
  have := count_add_count_le hab (r.payloads.values.map Payload.fingerprint)
  rwa [List.length_map, SortedMap.length_values] at this

/-- At most one value has the threshold. -/
theorem WellFormed.held_unique {r : Round} (h : r.WellFormed) {a b : Fingerprint}
    (ha : r.threshold ≤ r.held a) (hb : r.threshold ≤ r.held b) : a = b := by
  by_cases hab : a = b
  · exact hab
  · have := r.held_add_held_le hab
    have := h.size_lt_two_mul_threshold
    omega

theorem held_pos_iff {r : Round} {fp : Fingerprint} :
    0 < r.held fp ↔ ∃ k p, r.payloads.get? k = some p ∧ p.fingerprint = fp := by
  unfold held
  rw [List.count_pos_iff, List.mem_map]
  constructor
  · rintro ⟨p, hp, hf⟩
    obtain ⟨k, hk⟩ := SortedMap.mem_values_iff.1 hp
    exact ⟨k, p, hk, hf⟩
  · rintro ⟨k, p, hk, hf⟩
    exact ⟨p, SortedMap.mem_values_iff.2 ⟨k, hk⟩, hf⟩

theorem tally_eq (r : Round) : r.tally = r.seen.filterMap fun fp =>
    if r.held fp = 0 then none else some (fp, r.held fp) := rfl

/-- The tally lists the values that some sender holds, with their numbers. -/
theorem Tracked.mem_tally_iff {r : Round} (h : r.Tracked) {fp : Fingerprint} {n : Nat} :
    (fp, n) ∈ r.tally ↔ n = r.held fp ∧ 0 < n := by
  rw [tally_eq, List.mem_filterMap]
  constructor
  · rintro ⟨fp', -, hf⟩
    split_ifs at hf with h0
    cases hf
    exact ⟨rfl, Nat.pos_of_ne_zero h0⟩
  · rintro ⟨rfl, hpos⟩
    obtain ⟨k, p, hk, rfl⟩ := held_pos_iff.1 hpos
    exact ⟨p.fingerprint, h.mem_seen hk, if_neg (by omega)⟩

theorem Tracked.pairwise_tally {r : Round} (h : r.Tracked) :
    r.tally.Pairwise fun a b => a.1 ≠ b.1 := by
  rw [tally_eq]
  refine List.Pairwise.filterMap _ (fun a a' hne b hb b' hb' => ?_) h.nodup_seen
  split_ifs at hb hb'
  cases hb
  cases hb'
  exact hne

/-! ## The winner -/

/-- The winner is the only value that has the threshold, and two values that have it violate the
invariant. -/
theorem Tracked.winner?_cases {r : Round} (h : r.Tracked) (hpos : 0 < r.threshold) :
    (∃ w, r.winner? = .ok w ∧ ∀ fp, w = some fp ↔ r.threshold ≤ r.held fp) ∨
      ∃ a b, a ≠ b ∧ r.threshold ≤ r.held a ∧ r.threshold ≤ r.held b ∧
        r.winner? = .error (.consensusInvariantViolation r.kind a b) := by
  have hmem (fp : Fingerprint) (n : Nat) :
      (fp, n) ∈ r.tally.filter (fun e => r.threshold ≤ e.2) ↔
        n = r.held fp ∧ r.threshold ≤ r.held fp := by
    rw [List.mem_filter, h.mem_tally_iff, decide_eq_true_eq]
    constructor
    · rintro ⟨⟨he, -⟩, ht⟩
      exact ⟨he, he ▸ ht⟩
    · rintro ⟨he, ht⟩
      exact ⟨⟨he, by omega⟩, he ▸ ht⟩
  have hne := h.pairwise_tally.sublist (List.filter_sublist (p := fun e => r.threshold ≤ e.2))
  -- the values with enough votes are none, one, or more
  unfold winner? winnerOf
  cases hl : r.tally.filter (fun e => r.threshold ≤ e.2) with
  | nil =>
    refine .inl ⟨none, rfl, fun fp => ⟨fun hf => ?_, fun ht => ?_⟩⟩
    · cases hf
    · have hm := (hmem fp _).2 ⟨rfl, ht⟩
      rw [hl] at hm
      cases hm
  | cons e es =>
    rw [hl] at hmem hne
    have he := (hmem e.1 e.2).1 List.mem_cons_self
    cases es with
    | nil =>
      refine .inl ⟨some e.1, rfl, fun fp => ⟨fun hf => ?_, fun ht => ?_⟩⟩
      · cases hf
        exact he.2
      · have hm := List.mem_singleton.1 ((hmem fp _).2 ⟨rfl, ht⟩)
        rw [← hm]
    | cons d ds =>
      have hd := (hmem d.1 d.2).1 (List.mem_cons_of_mem _ List.mem_cons_self)
      exact .inr ⟨e.1, d.1, (List.pairwise_cons.1 hne).1 d List.mem_cons_self, he.2, hd.2, rfl⟩

/-- The winner is the value that has the threshold, and there is never a second one. -/
theorem WellFormed.exists_winner {r : Round} (h : r.WellFormed) :
    ∃ w, r.winner? = .ok w ∧ ∀ fp, w = some fp ↔ r.threshold ≤ r.held fp :=
  (h.tracked.winner?_cases h.threshold_pos).resolve_right fun ⟨_, _, hab, ha, hb, _⟩ =>
    hab (h.held_unique ha hb)

theorem WellFormed.winner?_eq_some_iff {r : Round} (h : r.WellFormed) {fp : Fingerprint} :
    r.winner? = .ok (some fp) ↔ r.threshold ≤ r.held fp := by
  obtain ⟨w, hw, hiff⟩ := h.exists_winner
  rw [hw, ← hiff]
  exact ⟨fun h => Except.ok.inj h, fun h => congrArg _ h⟩

theorem WellFormed.winner?_eq_none_iff {r : Round} (h : r.WellFormed) :
    r.winner? = .ok none ↔ ∀ fp, r.held fp < r.threshold := by
  obtain ⟨w, hw, hiff⟩ := h.exists_winner
  rw [hw]
  constructor
  · intro hn fp
    cases hn
    exact Nat.lt_of_not_le fun ht => by cases (hiff fp).2 ht
  · intro hlt
    cases w with
    | none => rfl
    | some fp => exact absurd ((hiff fp).1 rfl) (Nat.not_le_of_lt (hlt fp))

/-- A value that is held has a holder, the first one in the order of the keys. -/
theorem holder?_of_held {r : Round} {fp : Fingerprint} (hpos : 0 < r.held fp) :
    ∃ k p, r.holder? fp = some p ∧ r.payloads.get? k = some p ∧ p.fingerprint = fp := by
  obtain ⟨k, p, hk, hf⟩ := held_pos_iff.1 hpos
  cases hh : r.holder? fp with
  | none =>
    have := List.find?_eq_none.1 hh p (SortedMap.mem_values_iff.2 ⟨k, hk⟩)
    exact absurd hf (by simpa using this)
  | some q =>
    obtain ⟨j, hj⟩ := SortedMap.mem_values_iff.1 (List.mem_of_find?_eq_some hh)
    refine ⟨j, q, rfl, hj, ?_⟩
    simpa using List.find?_some hh

end Quorum.Round
