import Quorum.Proofs.Round.Errors
import Quorum.Proofs.Round.Reference

/-!
# When the votes decide

A round can be asked whether its votes decide, and it decides at the end of a block. The two come to
the same, and once the votes decide, the votes of further participants change nothing.

* `Decision.carried` : enough votes carry the decision;
* `thresholdReached_eq` : the votes decide exactly if the end of a block takes such a decision, and
  violate the invariant of the round in both places alike;
* `Upholds` : every vote of one round stands in another, as it does after payloads of senders that
  had not voted (`upholds_hearAll`);
* `WellFormed.winner?_of_upholds` : so the winner stays the winner.
-/

namespace Quorum

/-- Enough votes carry the decision, which is neither about what they lack nor about the time. -/
def Decision.carried : Decision → Bool
  | agreed _ | collected _ => true
  | noMajority | timeout => false

/-- No decision leads to a violation of the invariant. -/
theorem foreign_violation : Foreign fun v : RoundKind × Fingerprint × Fingerprint =>
    FatalError.consensusInvariantViolation v.1 v.2.1 v.2.2 where
  snapshot _ _ _ := nofun
  unexpectedPayload _ _ _ := nofun
  unexpectedDecision _ _ := nofun
  outOfNumbers _ := nofun

namespace Round

variable {r r' : Round} {fp : Fingerprint} {e : FatalError}

/-! ## The winner of any tally -/

theorem held_of_winner? (h : r.winner? = .ok (some fp)) : 0 < r.held fp := by
  unfold winner? winnerOf at h
  split at h
  · cases h
  · rename_i e he
    cases h
    have hm : e ∈ r.tally := (List.mem_filter.1 (he ▸ List.mem_singleton_self e)).1
    rw [tally_eq, List.mem_filterMap] at hm
    obtain ⟨fp, -, hfp⟩ := hm
    split_ifs at hfp with h0
    cases hfp
    exact Nat.pos_of_ne_zero h0
  · cases h

theorem violation_of_winner? (h : r.winner? = .error e) :
    ∃ a b, e = .consensusInvariantViolation r.kind a b := by
  unfold winner? winnerOf at h
  split at h
  · cases h
  · cases h
  · cases h
    exact ⟨_, _, rfl⟩

/-! ## The two places -/

theorem thresholdReached_eq_decideByVotes (r : Round) :
    r.thresholdReached = r.decideByVotes.map fun d => d.any Decision.carried := by
  unfold thresholdReached decideByVotes
  cases r.kind.strategy with
  | terminal => rfl
  | differentUntilThreshold =>
    by_cases h : r.threshold ≤ r.payloads.size <;> simp [h, Except.map, Decision.carried]
  | sameUntilAll =>
    cases r.winner? with
    | error e => rfl
    | ok w => cases w <;> rfl
  | sameUntilThreshold | onlyKeeperSends =>
    cases hw : r.winner? with
    | error e => rfl
    | ok w =>
      cases w with
      | none =>
        simp only
        split_ifs <;> rfl
      | some fp =>
        obtain ⟨-, p, hp, -⟩ := holder?_of_held (held_of_winner? hw)
        simp only [hp]
        rfl

/-- **The votes decide exactly if the end of a block takes a decision that they carry.** -/
theorem thresholdReached_eq (r : Round) (height : Height) (timeout : UInt64) :
    r.thresholdReached = (r.decide height timeout).map fun d => d.any Decision.carried := by
  rw [thresholdReached_eq_decideByVotes]
  unfold decide
  cases r.decideByVotes with
  | error e => rfl
  | ok o =>
    cases o with
    | some d => rfl
    | none =>
      simp only
      split_ifs <;> rfl

theorem violation_of_thresholdReached (h : r.thresholdReached = .error e) :
    ∃ a b, e = .consensusInvariantViolation r.kind a b := by
  unfold thresholdReached at h
  cases hw : r.winner? with
  | error e' =>
    rw [hw] at h
    obtain rfl : e' = e := by split at h <;> cases h <;> rfl
    exact violation_of_winner? hw
  | ok w =>
    rw [hw] at h
    split at h <;> cases h

/-- The end of a block carries out what was decided. -/
theorem endBlock_eq_of_decide (hc : r.concluded = false) (data : Snapshot) (height : Height)
    (timeout : UInt64) : r.endBlock data height timeout =
      match r.decide height timeout with
      | .error e => (r, .error e)
      | .ok d => r.carryOut data d := by
  unfold endBlock carryOut
  rw [hc]
  cases r.decide height timeout with
  | error e => rfl
  | ok o =>
    cases o with
    | none => rfl
    | some d =>
      simp only [Bool.false_eq_true, if_false]
      cases r.kind.conclude d data <;> rfl

theorem thresholdReached_eq_true_iff (height : Height) (timeout : UInt64) :
    r.thresholdReached = .ok true ↔
      ∃ d, d.carried = true ∧ r.decide height timeout = .ok (some d) := by
  rw [r.thresholdReached_eq height timeout]
  cases r.decide height timeout with
  | error e => simp [Except.map]
  | ok o => cases o <;> simp [Except.map]

theorem thresholdReached_eq_error_iff (hc : r.concluded = false) (data : Snapshot)
    (height : Height) (timeout : UInt64) : r.thresholdReached = .error e ↔
      (∃ a b, e = .consensusInvariantViolation r.kind a b) ∧
        r.endBlock data height timeout = (r, .error e) := by
  rw [endBlock_eq_of_decide hc]
  constructor
  · intro h
    refine ⟨violation_of_thresholdReached h, ?_⟩
    rw [r.thresholdReached_eq height timeout] at h
    cases hd : r.decide height timeout with
    | error e' =>
      rw [hd] at h
      cases h
      rfl
    | ok o =>
      rw [hd] at h
      cases h
  · rintro ⟨⟨a, b, rfl⟩, h⟩
    rw [r.thresholdReached_eq height timeout]
    cases hd : r.decide height timeout with
    | error e' =>
      rw [hd] at h
      rw [Except.error.inj (congrArg Prod.snd h)]
      rfl
    | ok o =>
      -- a decision that is carried out fails for other reasons
      rw [hd] at h
      have h := congrArg Prod.snd h
      cases o with
      | none => cases h
      | some d =>
        unfold carryOut at h
        cases hcon : r.kind.conclude d data with
        | ok res => simp [hcon] at h
        | error e' =>
          simp only [hcon, Except.error.injEq] at h
          exact absurd (h ▸ hcon) (RoundKind.avoids_conclude foreign_violation r.kind d data
            (r.kind, a, b))

/-! ## Votes of further participants -/

/-- Every vote of the first round stands in the second one. -/
def Upholds (r r' : Round) : Prop :=
  ∀ pk p, r.payloads.get? pk = some p → r'.payloads.get? pk = some p

theorem hearAll_append (r : Round) (ps qs : List Payload) :
    r.hearAll (ps ++ qs) = (r.hearAll ps).hearAll qs := List.foldl_append

/-- Payloads of senders that have not voted leave every vote as it is. -/
theorem upholds_hearAll {ps : List Payload} (h : ∀ p ∈ ps, r.payloads.get? p.sender = none) :
    r.Upholds (r.hearAll ps) := by
  induction ps using List.reverseRecOn with
  | nil => exact fun _ _ hq => hq
  | append_singleton ps p ih =>
    have ih := ih fun q hq => h q (List.mem_append_left _ hq)
    have hp := h p (List.mem_append_right _ (List.mem_singleton_self p))
    rw [hearAll_concat]
    rcases (r.hearAll ps).hear_cases p with ⟨-, -, heq⟩ | ⟨-, heq⟩ <;> rw [heq]
    · intro pk q hq
      have hne : pk ≠ p.sender := fun heq => by
        rw [heq, hp] at hq
        cases hq
      rw [get?_count, if_neg hne]
      exact ih pk q hq
    · exact ih

theorem Upholds.held_le (h : r.Upholds r') (fp : Fingerprint) : r.held fp ≤ r'.held fp := by
  rw [← length_holders, ← length_holders]
  refine (r.nodup_holders fp).length_le_of_subset fun pk hpk => ?_
  obtain ⟨p, hp, hf⟩ := mem_holders_iff.1 hpk
  exact mem_holders_iff.2 ⟨p, h pk p hp, hf⟩

theorem Upholds.size_le (h : r.Upholds r') : r.payloads.size ≤ r'.payloads.size := by
  rw [← SortedMap.length_keys, ← SortedMap.length_keys]
  refine r.payloads.nodup_keys.length_le_of_subset fun pk hpk => ?_
  obtain ⟨p, hp⟩ := SortedMap.mem_keys_iff.1 hpk
  exact SortedMap.mem_keys_iff.2 ⟨p, h pk p hp⟩

/-- The winner stays the winner. -/
theorem WellFormed.winner?_of_upholds (hw : r.WellFormed) (hw' : r'.WellFormed)
    (ht : r'.threshold = r.threshold) (h : r.Upholds r') (hwin : r.winner? = .ok (some fp)) :
    r'.winner? = .ok (some fp) := by
  rw [hw.winner?_eq_some_iff] at hwin
  rw [hw'.winner?_eq_some_iff, ht]
  exact Nat.le_trans hwin (h.held_le fp)

/-- In the kinds that agree on one value the votes decide exactly if there is a winner. -/
theorem thresholdReached_eq_true_iff_winner? (hs : r.kind.strategy ≠ .differentUntilThreshold) :
    r.thresholdReached = .ok true ↔
      r.kind.strategy ≠ .terminal ∧ ∃ fp, r.winner? = .ok (some fp) := by
  unfold thresholdReached
  cases hk : r.kind.strategy with
  | terminal => simp
  | differentUntilThreshold => exact absurd hk hs
  | sameUntilAll | sameUntilThreshold | onlyKeeperSends =>
    cases r.winner? with
    | error e => simp [Except.map]
    | ok w => cases w <;> simp [Except.map]

theorem WellFormed.thresholdReached_of_upholds (hw : r.WellFormed) (hw' : r'.WellFormed)
    (hk : r'.kind = r.kind) (ht : r'.threshold = r.threshold) (h : r.Upholds r')
    (hr : r.thresholdReached = .ok true) : r'.thresholdReached = .ok true := by
  by_cases hs : r.kind.strategy = .differentUntilThreshold
  · have hs' : r'.kind.strategy = .differentUntilThreshold := hk ▸ hs
    unfold thresholdReached at hr ⊢
    rw [hs] at hr
    rw [hs']
    have hle : r.threshold ≤ r.payloads.size := by simpa using hr
    have hsize := h.size_le
    simp only [Except.ok.injEq, decide_eq_true_eq]
    omega
  · obtain ⟨hterm, fp, hwin⟩ := (thresholdReached_eq_true_iff_winner? hs).1 hr
    rw [thresholdReached_eq_true_iff_winner? (hk ▸ hs)]
    exact ⟨hk ▸ hterm, fp, hw.winner?_of_upholds hw' ht h hwin⟩

/-- What is agreed on has the value of the winner. -/
theorem WellFormed.fingerprint_of_agreed (hw : r.WellFormed) (hwin : r.winner? = .ok (some fp))
    {height : Height} {timeout : UInt64} {p : Payload}
    (hd : r.decide height timeout = .ok (some (.agreed p))) : p.fingerprint = fp := by
  have hterm : r.kind.strategy ≠ .terminal := fun hk => by
    unfold decide decideByVotes at hd
    rw [hk] at hd
    simp only at hd
    split_ifs at hd
    · cases hd
    · cases hd
  obtain ⟨d, hd', hcase⟩ :=
    hw.decide_of_held hterm (hw.winner?_eq_some_iff.1 hwin) height timeout
  obtain rfl : d = .agreed p := by
    rw [hd'] at hd
    cases hd
    rfl
  split_ifs at hcase
  obtain ⟨_, q, -, hq, heq⟩ := hcase
  cases heq
  exact hq

/-- **The votes of a round decide when the end of a block says so, and go on to decide.** Whatever
payloads a round was given, its votes decide exactly if the end of a block takes a decision that
votes carry, whatever the agreed data, the height and the timeout are; and asking the round fails
exactly if the end of a block fails with the same violation of the invariant and leaves the round as
it is. Unless the round is for a keeper and has none, payloads of senders that had not voted when
the votes decided leave them deciding, and leave the winner and what is agreed on at the end of a
block, if the kind of round looks for one value. -/
theorem threshold_decides_and_endures {t : Terms} {r : Round} (hr : t.start = .ok r)
    (ps : List Payload) :
    (∀ (data : Snapshot) (height : Height) (timeout : UInt64),
      ((r.hearAll ps).thresholdReached = .ok true ↔ ∃ d, d.carried = true ∧
        (r.hearAll ps).decide height timeout = .ok (some d) ∧
        (r.hearAll ps).endBlock data height timeout = (r.hearAll ps).carryOut data (some d)) ∧
      ∀ e, (r.hearAll ps).thresholdReached = .error e ↔
        (∃ a b, e = .consensusInvariantViolation t.kind a b) ∧
          (r.hearAll ps).endBlock data height timeout = (r.hearAll ps, .error e)) ∧
    ((t.kind.strategy = .onlyKeeperSends → t.keeper ≠ none) →
      (r.hearAll ps).thresholdReached = .ok true →
      ∀ qs : List Payload, (∀ q ∈ qs, (r.hearAll ps).payloads.get? q.sender = none) →
        (r.hearAll (ps ++ qs)).thresholdReached = .ok true ∧
        (t.kind.strategy ≠ .differentUntilThreshold → ∃ fp,
          (r.hearAll ps).winner? = .ok (some fp) ∧ (r.hearAll (ps ++ qs)).winner? = .ok (some fp) ∧
          ∀ (height : Height) (timeout : UInt64) (p : Payload),
            (r.hearAll (ps ++ qs)).decide height timeout = .ok (some (.agreed p)) →
              p.fingerprint = fp)) := by
  have hkind : (r.hearAll ps).kind = t.kind := by
    rw [hearAll_eq, eq_fresh_of_start hr]
    rfl
  have hc : (r.hearAll ps).concluded = false := by
    rw [hearAll_eq, eq_fresh_of_start hr]
    rfl
  refine ⟨fun data height timeout => ⟨?_, fun e => ?_⟩, fun hkeeper hreached qs hqs => ?_⟩
  · rw [thresholdReached_eq_true_iff height timeout]
    refine exists_congr fun d => and_congr_right fun _ => ⟨fun hd => ⟨hd, ?_⟩, And.left⟩
    rw [endBlock_eq_of_decide hc, hd]
  · rw [thresholdReached_eq_error_iff hc data height timeout, hkind]
  · have hterm : t.kind.strategy ≠ .terminal := fun hk => by
      unfold thresholdReached at hreached
      rw [hkind, hk] at hreached
      cases hreached
    obtain ⟨hne, hle⟩ := of_start_eq_ok (decide_eq_false hterm) hr
    have hw : (r.hearAll ps).WellFormed := by
      obtain rfl := eq_fresh_of_start hr
      exact (wellFormed_fresh hne hle fun hk => Option.ne_none_iff_exists'.1 (hkeeper hk)).hearAll ps
    have hw' := hw.hearAll qs
    have heq := (r.hearAll ps).hearAll_eq qs
    have hk : ((r.hearAll ps).hearAll qs).kind = (r.hearAll ps).kind := by rw [heq]
    have ht : ((r.hearAll ps).hearAll qs).threshold = (r.hearAll ps).threshold := by rw [heq]
    have hupholds := upholds_hearAll hqs
    rw [hearAll_append]
    refine ⟨hw.thresholdReached_of_upholds hw' hk ht hupholds hreached, fun hs => ?_⟩
    obtain ⟨-, fp, hwin⟩ := (thresholdReached_eq_true_iff_winner? (hkind ▸ hs)).1 hreached
    have hwin' := hw.winner?_of_upholds hw' ht hupholds hwin
    exact ⟨fp, hwin, hwin', fun height timeout p hd => hw'.fingerprint_of_agreed hwin' hd⟩

/-! ## Three of four -/

/-- Four peers choose a keeper. -/
def choosing : Terms where
  kind := .selectKeeper
  roundCount := Counter.ofNat 1
  participants := ⟨[Octets.fill 0, Octets.fill 1, Octets.fill 2, Octets.fill 3]⟩
  keeper := none
  startHeight := Counter.ofNat 10
  anyRoundCount := false

/-- A vote in this choice. -/
def choice (voter keeper : UInt8) : Payload :=
  ⟨Octets.fill voter, Counter.ofNat 1, .selectKeeper (Octets.fill keeper)⟩

/-- Three peers decide, and the fourth one cannot change it by another choice. -/
theorem threshold_decides_and_endures_of_quartet :
    (choosing.fresh.hearAll [choice 0 8, choice 1 8, choice 2 8]).thresholdReached = .ok true ∧
      (choosing.fresh.hearAll ([choice 0 8, choice 1 8, choice 2 8] ++ [choice 3 9])).thresholdReached
        = .ok true ∧
      ∃ d, d.carried = true ∧
        (choosing.fresh.hearAll ([choice 0 8, choice 1 8, choice 2 8] ++ [choice 3 9])).decide
          (Counter.ofNat 11) 100 = .ok (some d) := by
  have hstart : choosing.start = .ok choosing.fresh :=
    start_eq (by decide : choosing.participants.peers ≠ [])
      (by decide : choosing.participants.size ≤ PeerCount.limit)
  have hw : (choosing.fresh.hearAll [choice 0 8, choice 1 8, choice 2 8]).WellFormed :=
    (wellFormed_fresh (by decide) (by decide) fun h => absurd h (by decide)).hearAll _
  -- all three hold the same fingerprint, whatever it is
  have hheld : (choosing.fresh.hearAll [choice 0 8, choice 1 8, choice 2 8]).held
      (choice 0 8).fingerprint = 3 :=
    List.count_replicate_self (a := (choice 0 8).fingerprint) (n := 3)
  have hreached :
      (choosing.fresh.hearAll [choice 0 8, choice 1 8, choice 2 8]).thresholdReached = .ok true :=
    (thresholdReached_eq_true_iff_winner? (by decide)).2
      ⟨by decide, _, hw.winner?_eq_some_iff.2 (Nat.le_of_eq hheld.symm)⟩
  have hnew : ∀ q ∈ [choice 3 9],
      (choosing.fresh.hearAll [choice 0 8, choice 1 8, choice 2 8]).payloads.get? q.sender
        = none := by
    decide
  obtain ⟨hlater, -⟩ := (threshold_decides_and_endures hstart _).2 nofun hreached _ hnew
  obtain ⟨d, hd, hdecide, -⟩ := ((threshold_decides_and_endures hstart _).1 Snapshot.empty
    (Counter.ofNat 11) 100).1.1 hlater
  exact ⟨hreached, hlater, d, hd, hdecide⟩

end Round

end Quorum
