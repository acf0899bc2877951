import Mathlib.Data.List.Perm.Subperm
import Quorum.Proofs.Round.Ballot
import Quorum.Proofs.Snapshot.Conforming

/-!
# How a block can end for a round

* `RoundKind.Settles` : what a vote that was agreed on writes, and the event it ends the round with;
* `Round.Verdict` : every way in which a round can end, with what it writes and the event;
* `WellFormed.endBlock_cases` : a block leaves a round as it is, because nothing is decided, or ends
  it with one of these verdicts. There is no third way, and so no error;
* `WellFormed.ofList_keys` : if as many peers registered as take part, those are the peers.
-/

namespace Quorum

/-- A step that gives a result is followed by the next one. -/
theorem ok_bind {ε α β : Type} (a : α) (f : α → Except ε β) : (Except.ok a >>= f) = f a := rfl

namespace RoundKind

/-! ## Votes that were agreed on -/

/-- What a vote that was agreed on writes, and the event it ends the round with. -/
inductive Settles (data : Snapshot) : RoundKind → Vote → Update → Event → Prop
  | randomness (round : UInt64) (value : Randomness) :
    Settles data randomness (.randomness round value)
      [Update.set Snapshot.Key.randomness value, Update.set Snapshot.Key.randomnessRound round]
      .done
  | selectKeeper (pk : PublicKey) :
    Settles data selectKeeper (.selectKeeper pk) [Update.set Snapshot.Key.keeper pk] .done
  | finalized (tx : TxHash) :
    Settles data finalization (.finalization (some tx)) [Update.set Snapshot.Key.finalTx tx] .done
  | unfinalized : Settles data finalization (.finalization none) [] .finalizationFailed
  | validated (periods : UInt64) (h : data.periodCount = .ok periods) :
    Settles data validateTransaction (.validate (some true))
      [Update.set Snapshot.Key.periodCount (periods + 1)] .done
  | refuted (ok : Option Bool) (h : ok ≠ some true) :
    Settles data validateTransaction (.validate ok) [] .negative
  | terminated (tx : TxHash) :
    Settles data termination (.termination tx)
      [Update.set Snapshot.Key.terminationReached true, Update.set Snapshot.Key.terminationTx tx]
      .terminate

theorem updated_eq {data s : Snapshot} {u : Update} (h : data.update? u = some s) :
    updated data u = .ok s := by
  unfold updated
  rw [h]

theorem Settles.concludeAgreed_eq {data s : Snapshot} {k : RoundKind} {v : Vote} {u : Update}
    {e : Event} (h : Settles data k v u e) (hs : data.update? u = some s) :
    k.concludeAgreed v data = .ok (s, e) := by
  cases h with
  | validated periods hp =>
    have hr : reading validateTransaction data.periodCount = .ok periods := by
      rw [hp]
      rfl
    unfold concludeAgreed
    simp only [if_true, hr, ok_bind, updated_eq hs]
    rfl
  | refuted ok hok =>
    unfold concludeAgreed
    simp only [if_neg hok, updated_eq hs]
    rfl
  | _ =>
    unfold concludeAgreed
    simp only [updated_eq hs]
    rfl

/-- A vote of the kind that a round collects settles it. -/
theorem exists_settles {data : Snapshot} {k : RoundKind} {v : Vote}
    (hk : k.strategy = .sameUntilThreshold ∨ k.strategy = .onlyKeeperSends)
    (hv : k.votes? = some v.kind) (hp : ∃ periods, data.periodCount = .ok periods) :
    ∃ u e, Settles data k v u e := by
  cases v with
  | randomness round value =>
    obtain rfl : k = randomness := by cases k <;> first | rfl | cases hv
    exact ⟨_, _, .randomness round value⟩
  | selectKeeper pk =>
    obtain rfl : k = selectKeeper := by cases k <;> first | rfl | cases hv
    exact ⟨_, _, .selectKeeper pk⟩
  | finalization tx =>
    obtain rfl : k = finalization := by cases k <;> first | rfl | cases hv
    cases tx with
    | none => exact ⟨_, _, .unfinalized⟩
    | some tx => exact ⟨_, _, .finalized tx⟩
  | validate ok =>
    obtain rfl : k = validateTransaction := by cases k <;> first | rfl | cases hv
    obtain ⟨periods, hp⟩ := hp
    by_cases hok : ok = some true
    · subst hok
      exact ⟨_, _, .validated periods hp⟩
    · exact ⟨_, _, .refuted ok hok⟩
  | termination tx =>
    obtain rfl : k = termination := by cases k <;> first | rfl | cases hv
    exact ⟨_, _, .terminated tx⟩
  | registration =>
    obtain rfl : k = registrationStartup := by cases k <;> first | rfl | cases hv
    rcases hk with hk | hk <;> cases hk
  | signature sig =>
    obtain rfl : k = collectSignature := by cases k <;> first | rfl | cases hv
    rcases hk with hk | hk <;> cases hk

/-! ## Signatures that were collected -/

theorem foldlM_signatures (k : RoundKind) {es : List (PublicKey × Payload)}
    (m : SortedMap PublicKey Signature) (hs : es.Pairwise fun a b => a.1 ≠ b.1)
    (hv : ∀ e ∈ es, e.2.kind = .signature) :
    ∃ sigs : SortedMap PublicKey Signature, es.foldlM (fun m e =>
        match e.2.vote with
        | .signature sig => .ok (m.insert e.1 sig)
        | v => .error (.unexpectedPayload k v.kind)) m = (.ok sigs : Except FatalError _) ∧
      ∀ pk sig, sigs.get? pk = some sig ↔ (∃ p, (pk, p) ∈ es ∧ p.vote = .signature sig) ∨
        (∀ e ∈ es, e.1 ≠ pk) ∧ m.get? pk = some sig := by
  induction es generalizing m with
  | nil => exact ⟨m, rfl, fun pk sig => by simp⟩
  | cons e es ih =>
    obtain ⟨pk₀, p₀⟩ := e
    obtain ⟨hne, hs⟩ := List.pairwise_cons.1 hs
    obtain ⟨sig₀, hsig⟩ : ∃ sig, p₀.vote = .signature sig := by
      have h : p₀.vote.kind = .signature := hv _ List.mem_cons_self
      cases hp : p₀.vote with
      | signature sig => exact ⟨sig, rfl⟩
      | _ =>
        rw [hp] at h
        cases h
    obtain ⟨sigs, hf, hiff⟩ := ih (m.insert pk₀ sig₀) hs
      fun e he => hv e (List.mem_cons_of_mem _ he)
    refine ⟨sigs, ?_, fun pk sig => (hiff pk sig).trans ?_⟩
    · rw [List.foldlM_cons, hsig]
      exact hf
    · rw [SortedMap.get?_insert_of]
      by_cases hpk : pk = pk₀
      · subst hpk
        have hnot (p : Payload) : (pk, p) ∉ es := fun hm => hne _ hm rfl
        have hall : ∀ j p, (j, p) ∈ es → ¬ j = pk := fun j p hm => (hne _ hm).symm
        simp [hnot, hsig]
        exact fun _ => hall
      · have hne' : ¬ pk₀ = pk := fun h => hpk h.symm
        simp [hpk, hne']

/-- The map of the signatures holds the vote of every sender, if all of them voted with one. -/
theorem exists_signaturesOf (k : RoundKind) {payloads : SortedMap PublicKey Payload}
    (hv : ∀ pk p, payloads.get? pk = some p → p.kind = .signature) :
    ∃ sigs, k.signaturesOf payloads = .ok sigs ∧ ∀ pk sig, sigs.get? pk = some sig ↔
      ∃ p, payloads.get? pk = some p ∧ p.vote = .signature sig := by
  obtain ⟨sigs, hf, hiff⟩ := foldlM_signatures k SortedMap.empty
    (payloads.sorted.imp SortedMap.ne_of_compare_lt)
    fun e he => hv e.1 e.2 (SortedMap.get?_eq_some_iff.2 he)
  refine ⟨sigs, hf, fun pk sig => ?_⟩
  rw [hiff]
  simp [SortedMap.get?_eq_some_iff]

/-! ## Kinds by their strategy -/

theorem strategy_eq_sameUntilAll {k : RoundKind} :
    k.strategy = .sameUntilAll ↔ k = registrationStartup := by
  cases k <;> decide

theorem strategy_eq_differentUntilThreshold {k : RoundKind} :
    k.strategy = .differentUntilThreshold ↔ k = collectSignature := by
  cases k <;> decide

theorem strategy_eq_sameUntilThreshold {k : RoundKind} : k.strategy = .sameUntilThreshold ↔
    k ∈ [randomness, selectKeeper, validateTransaction, termination] := by
  cases k <;> decide

theorem strategy_eq_onlyKeeperSends {k : RoundKind} :
    k.strategy = .onlyKeeperSends ↔ k = finalization := by
  cases k <;> decide

end RoundKind

namespace Round

/-! ## Verdicts -/

/-- Every way in which a round can end, with what it writes and the event. -/
inductive Verdict (r : Round) (data : Snapshot) (height : Height) (timeout : UInt64) :
    Update → Event → Prop
  /-- Enough peers, or the keeper, hold the value of `p`. -/
  | agreed {pk : PublicKey} {p : Payload} {u : Update} {e : Event}
    (strategy : r.kind.strategy = .sameUntilThreshold ∨ r.kind.strategy = .onlyKeeperSends)
    (held : r.threshold ≤ r.held p.fingerprint) (get : r.payloads.get? pk = some p)
    (settles : r.kind.Settles data p.vote u e) : Verdict r data height timeout u e
  /-- Every peer registered. -/
  | registered (kind : r.kind = .registrationStartup)
    (all : r.participants.size ≤ r.payloads.size) :
    Verdict r data height timeout
      [Update.set Snapshot.Key.participants (PeerSet.ofList r.payloads.keys)] .done
  /-- Enough peers signed. -/
  | signed {sigs : SortedMap PublicKey Signature} (kind : r.kind = .collectSignature)
    (enough : r.threshold ≤ r.payloads.size)
    (get : ∀ pk sig, sigs.get? pk = some sig ↔
      ∃ p, r.payloads.get? pk = some p ∧ p.vote = .signature sig) :
    Verdict r data height timeout [Update.set Snapshot.Key.signatures sigs] .done
  /-- Every peer voted, and no value has enough votes. -/
  | noMajority (kind : r.kind.emits .noMajority = true)
    (all : r.payloads.size = r.participants.size) : Verdict r data height timeout [] .noMajority
  /-- The round took too long. -/
  | timeout (late : r.timedOut height timeout = true) :
    Verdict r data height timeout [] .roundTimeout

variable {r : Round} {data : Snapshot} {height : Height} {timeout : UInt64}

/-- A verdict of the background round ends the service, with a transaction that was agreed on. -/
theorem Verdict.of_termination {u : Update} {e : Event} (h : r.Verdict data height timeout u e)
    (hk : r.kind = .termination) : ∃ tx, r.threshold ≤ r.held (Vote.termination tx).fingerprint ∧
      u = [Update.set Snapshot.Key.terminationReached true,
        Update.set Snapshot.Key.terminationTx tx] ∧ e = .terminate := by
  cases h with
  | @agreed pk p u e _ held get settles =>
    have hf : p.fingerprint = p.vote.fingerprint := rfl
    rw [hk] at settles
    rw [hf] at held
    generalize p.vote = v at settles held
    cases settles with
    | terminated tx => exact ⟨tx, held, rfl, rfl⟩
  | registered kind => cases kind.symm.trans hk
  | signed kind => cases kind.symm.trans hk
  | noMajority kind =>
    rw [hk] at kind
    cases kind
  | timeout late =>
    unfold timedOut at late
    rw [hk] at late
    cases late

/-- A decision ends the round with a verdict, if there is a version for the next snapshot. -/
def Ends (r : Round) (data : Snapshot) (height : Height) (timeout : UInt64) (d : Decision) : Prop :=
  ∃ u e, r.Verdict data height timeout u e ∧
    ∀ s, data.update? u = some s → r.kind.conclude d data = .ok (s, e)

/-- A value with enough votes has a holder, whose vote settles the round. -/
theorem WellFormed.ends_agreed (h : r.WellFormed)
    (hk : r.kind.strategy = .sameUntilThreshold ∨ r.kind.strategy = .onlyKeeperSends)
    (hp : ∃ periods, data.periodCount = .ok periods) {fp : Fingerprint}
    (ht : r.threshold ≤ r.held fp) :
    ∃ p, r.holder? fp = some p ∧ r.Ends data height timeout (.agreed p) := by
  obtain ⟨pk, p, hh, hget, rfl⟩ := holder?_of_held (Nat.lt_of_lt_of_le h.threshold_pos ht)
  obtain ⟨u, e, hs⟩ := RoundKind.exists_settles hk (h.expects hget).1 hp
  exact ⟨p, hh, u, e, .agreed hk ht hget hs, fun s hu => hs.concludeAgreed_eq hu⟩

theorem ends_registered (hk : r.kind = .registrationStartup)
    (hall : r.participants.size ≤ r.payloads.size) :
    r.Ends data height timeout (.collected r.payloads) := by
  refine ⟨_, .done, .registered hk hall, fun s hu => ?_⟩
  rw [hk]
  unfold RoundKind.conclude RoundKind.concludeCollected
  simp only [RoundKind.updated_eq hu]
  rfl

theorem WellFormed.ends_signed (h : r.WellFormed) (hk : r.kind = .collectSignature)
    (ht : r.threshold ≤ r.payloads.size) :
    r.Ends data height timeout (.collected r.payloads) := by
  have hv : ∀ pk p, r.payloads.get? pk = some p → p.kind = .signature := fun pk p hg => by
    have := (h.expects hg).1
    rw [hk] at this
    exact (Option.some.inj this).symm
  obtain ⟨sigs, hs, hget⟩ := RoundKind.exists_signaturesOf .collectSignature hv
  refine ⟨_, .done, .signed hk ht hget, fun s hu => ?_⟩
  rw [hk]
  unfold RoundKind.conclude RoundKind.concludeCollected
  simp only [hs, ok_bind, RoundKind.updated_eq hu]
  rfl

theorem ends_noMajority (hk : r.kind.emits .noMajority = true)
    (hall : r.payloads.size = r.participants.size) : r.Ends data height timeout .noMajority := by
  refine ⟨[], .noMajority, .noMajority hk hall, fun s hu => ?_⟩
  unfold RoundKind.conclude
  rw [RoundKind.updated_eq hu]
  rfl

theorem ends_timeout (ht : r.timedOut height timeout = true) :
    r.Ends data height timeout .timeout := by
  refine ⟨[], .roundTimeout, .timeout ht, fun s hu => ?_⟩
  unfold RoundKind.conclude
  rw [RoundKind.updated_eq hu]
  rfl

theorem held_le_size (r : Round) (fp : Fingerprint) : r.held fp ≤ r.payloads.size := by
  have := List.count_le_length (a := fp) (l := r.payloads.values.map Payload.fingerprint)
  rwa [List.length_map, SortedMap.length_values] at this

/-- The votes alone decide nothing, or end the round. -/
theorem WellFormed.decideByVotes_cases (h : r.WellFormed) (height : Height) (timeout : UInt64)
    (hp : ∃ periods, data.periodCount = .ok periods) :
    r.decideByVotes = .ok none ∨
      ∃ d, r.decideByVotes = .ok (some d) ∧ r.Ends data height timeout d := by
  obtain ⟨w, hw, hiff⟩ := h.exists_winner
  unfold decideByVotes
  cases hk : r.kind.strategy with
  | terminal => exact .inl rfl
  | differentUntilThreshold =>
    by_cases ht : r.threshold ≤ r.payloads.size
    · exact .inr ⟨_, congrArg _ (if_pos ht),
        h.ends_signed (RoundKind.strategy_eq_differentUntilThreshold.1 hk) ht⟩
    · exact .inl (congrArg _ (if_neg ht))
  | sameUntilAll =>
    rw [hw]
    cases w with
    | none => exact .inl rfl
    | some fp =>
      have ht : r.threshold ≤ r.held fp := (hiff fp).1 rfl
      rw [h.threshold_eq, hk] at ht
      exact .inr ⟨_, rfl, ends_registered (RoundKind.strategy_eq_sameUntilAll.1 hk)
        (Nat.le_trans ht (r.held_le_size fp))⟩
  | sameUntilThreshold | onlyKeeperSends =>
    rw [hw]
    cases w with
    | some fp =>
      obtain ⟨p, hh, hends⟩ := h.ends_agreed (by simp [hk]) hp ((hiff fp).1 rfl)
      exact .inr ⟨.agreed p, by simp only [hh]; rfl, hends⟩
    | none =>
      by_cases hc : (r.kind.emits .noMajority && r.payloads.size = r.participants.size) = true
      · have hc' := hc
        rw [Bool.and_eq_true, decide_eq_true_eq] at hc'
        exact .inr ⟨_, congrArg _ (if_pos hc), ends_noMajority hc'.1 hc'.2⟩
      · exact .inl (congrArg _ (if_neg hc))

/-- **A block leaves a round as it is, because nothing is decided, or ends it with a verdict.** -/
theorem WellFormed.endBlock_cases (h : r.WellFormed) (height : Height) (timeout : UInt64)
    (hc : r.concluded = false) (hp : ∃ periods, data.periodCount = .ok periods)
    (hv : data.version.toNat + 1 < UInt64.size) :
    (r.endBlock data height timeout = (r, .ok none) ∧ r.decide height timeout = .ok none) ∨
      ∃ u e s, r.Verdict data height timeout u e ∧ data.update? u = some s ∧
        r.endBlock data height timeout = ({ r with concluded := true }, .ok (some (s, e))) := by
  -- a decision is carried out
  have ended {d : Decision} (hd : r.decide height timeout = .ok (some d))
      (he : r.Ends data height timeout d) : ∃ u e s, r.Verdict data height timeout u e ∧
        data.update? u = some s ∧
        r.endBlock data height timeout = ({ r with concluded := true }, .ok (some (s, e))) := by
    obtain ⟨u, e, hver, hcon⟩ := he
    obtain ⟨s, hs⟩ := Snapshot.exists_update? hv u
    refine ⟨u, e, s, hver, hs, ?_⟩
    unfold endBlock
    rw [hc, hd]
    simp only [hcon s hs]
    rfl
  rcases h.decideByVotes_cases height timeout hp with hnone | ⟨d, hd, he⟩
  · have hdecide : r.decide height timeout =
        .ok (if r.timedOut height timeout then some .timeout else none) := by
      unfold decide
      rw [hnone]
    by_cases ht : r.timedOut height timeout = true
    · rw [if_pos ht] at hdecide
      exact .inr (ended hdecide (ends_timeout ht))
    · rw [if_neg ht] at hdecide
      refine .inl ⟨?_, hdecide⟩
      unfold endBlock
      rw [hc, hdecide]
      rfl
  · refine .inr (ended ?_ he)
    unfold decide
    rw [hd]

/-- A round that a block does not end has decided nothing. -/
theorem decide_of_endBlock (hc : r.concluded = false)
    (h : (r.endBlock data height timeout).2 = .ok none) : r.decide height timeout = .ok none := by
  unfold endBlock at h
  rw [hc] at h
  cases hd : r.decide height timeout with
  | error e =>
    rw [hd] at h
    cases h
  | ok o =>
    cases o with
    | none => rfl
    | some d =>
      rw [hd] at h
      cases hcon : r.kind.conclude d data with
      | error e =>
        simp only [hcon] at h
        cases h
      | ok res =>
        simp only [hcon] at h
        cases h

/-- A round in which a value has enough votes decides, with the payloads that it holds or with one of
that value. -/
theorem WellFormed.decide_of_held (h : r.WellFormed) (hk : r.kind.strategy ≠ .terminal)
    {fp : Fingerprint} (ht : r.threshold ≤ r.held fp) (height : Height) (timeout : UInt64) :
    ∃ d, r.decide height timeout = .ok (some d) ∧
      if r.kind.strategy = .sameUntilAll ∨ r.kind.strategy = .differentUntilThreshold then
        d = .collected r.payloads
      else ∃ pk p, r.payloads.get? pk = some p ∧ p.fingerprint = fp ∧ d = .agreed p := by
  obtain ⟨pk, p, hh, hget, hf⟩ := holder?_of_held (Nat.lt_of_lt_of_le h.threshold_pos ht)
  have hw : r.winner? = .ok (some fp) := h.winner?_eq_some_iff.2 ht
  have hsize := Nat.le_trans ht (r.held_le_size fp)
  unfold decide decideByVotes
  cases hs : r.kind.strategy with
  | terminal => exact absurd hs hk
  | sameUntilAll => simp [hw, Except.map]
  | differentUntilThreshold => simp [hsize]
  | sameUntilThreshold | onlyKeeperSends => simpa [hw, hh] using ⟨⟨pk, hget⟩, hf⟩

/-- While nothing is decided no value has enough votes. -/
theorem WellFormed.held_lt (h : r.WellFormed)
    (hs : r.kind.strategy = .sameUntilThreshold ∨ r.kind.strategy = .sameUntilAll)
    (hd : r.decide height timeout = .ok none) (fp : Fingerprint) : r.held fp < r.threshold := by
  have hk : r.kind.strategy ≠ .terminal := by
    rcases hs with hs | hs <;> rw [hs] <;> decide
  refine Nat.lt_of_not_le fun ht => ?_
  obtain ⟨d, hsome, -⟩ := h.decide_of_held hk ht height timeout
  cases hd.symm.trans hsome

/-! ## Registration -/

/-- If as many peers registered as take part, every one of them did. -/
theorem WellFormed.perm_keys (h : r.WellFormed) (hall : r.participants.size ≤ r.payloads.size) :
    r.payloads.keys.Perm r.participants.peers := by
  have hsub : r.payloads.keys ⊆ r.participants.peers := fun k hk => by
    obtain ⟨p, hp⟩ := SortedMap.mem_keys_iff.1 hk
    exact h.mem_participants hp
  refine (List.subperm_of_subset r.payloads.nodup_keys hsub).perm_of_length_le ?_
  rwa [SortedMap.length_keys]

theorem WellFormed.ofList_keys (h : r.WellFormed)
    (hall : r.participants.size ≤ r.payloads.size) :
    PeerSet.ofList r.payloads.keys = PeerSet.ofList r.participants.peers := by
  have hp := h.perm_keys hall
  have hs := PeerSet.sorted_ofList r.payloads.keys
  have ht := PeerSet.sorted_ofList r.participants.peers
  have : (PeerSet.ofList r.payloads.keys).peers = (PeerSet.ofList r.participants.peers).peers :=
    PeerSet.eq_of_pairwise hs ht fun p => by
      rw [PeerSet.mem_ofList, PeerSet.mem_ofList, hp.mem_iff]
  exact congrArg PeerSet.mk this

end Round

end Quorum
