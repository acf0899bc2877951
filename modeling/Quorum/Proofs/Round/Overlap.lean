import Mathlib.Data.Finset.Card
import Quorum.Proofs.Round.Threshold

/-!
# Any two thresholds of peers share more than may be faulty

Less than a third of the peers may be faulty, and all others are a threshold. This is what makes the
decisions of a round safe: two of them share a peer that is not faulty, and a peer has one vote.

* `total_add_maxFaulty_lt`, `two_mul_total_lt` : the numbers;
* `card_add_card_le`, `maxFaulty_lt_card_inter` : so two thresholds of a set share more peers than
  may be faulty;
* `Round.Reaches` : the rounds that rounds on some terms come to, with payloads, submissions and ends
  of blocks in any order; they hold only what they may hold (`Reaches.wellFormed`);
* `Round.senders` : the senders that hold a value, participants all of them;
* `WellFormed.maxFaulty_lt_card_inter_senders` : in rounds among the same participants, be it the
  same round or another one, values that have a threshold share senders;
* `thresholds_share_honest_peer` : all of this for any set of peers, and that a round never has two
  such values.
-/

namespace Quorum

/-! ## Numbers of peers -/

namespace PeerCount

/-- Two thresholds are more than all peers, by more than may be faulty. -/
theorem total_add_maxFaulty_lt {n : PeerCount} (h : 0 < n.total) :
    n.total + n.maxFaulty < 2 * n.threshold := by
  unfold threshold maxFaulty
  omega

/-- A threshold is more than two thirds. -/
theorem two_mul_total_lt {n : PeerCount} (h : 0 < n.total) : 2 * n.total < 3 * n.threshold := by
  unfold threshold maxFaulty
  omega

end PeerCount

/-! ## Sets of peers -/

namespace PeerSet

variable {s : PeerSet} {n : PeerCount} {A B F : Finset PublicKey}

theorem exists_count? (h : s.size ≤ PeerCount.limit) :
    ∃ n, s.count? = some n ∧ n.total = s.size := by
  have hlt : s.size < 256 := Nat.lt_succ_of_le h
  refine ⟨⟨UInt8.ofNat s.size⟩, if_pos h, ?_⟩
  unfold PeerCount.total
  rw [UInt8.toNat_ofNat']
  exact Nat.mod_eq_of_lt hlt

/-- Peers that are counted twice are in both parts. -/
theorem card_add_card_le (hA : A ⊆ s.peers.toFinset) (hB : B ⊆ s.peers.toFinset) :
    A.card + B.card ≤ s.size + (A ∩ B).card := by
  have hunion : (A ∪ B).card ≤ s.peers.toFinset.card :=
    Finset.card_le_card (Finset.union_subset hA hB)
  have hsize : s.peers.toFinset.card ≤ s.size := s.peers.toFinset_card_le
  have hinter := Finset.card_union_add_card_inter A B
  omega

/-- **Two thresholds share more peers than may be faulty.** -/
theorem maxFaulty_lt_card_inter (hn : n.total = s.size) (hpos : 0 < s.size)
    (hA : A ⊆ s.peers.toFinset) (hB : B ⊆ s.peers.toFinset) (hAn : n.threshold ≤ A.card)
    (hBn : n.threshold ≤ B.card) : n.maxFaulty < (A ∩ B).card := by
  have hcount := PeerCount.total_add_maxFaulty_lt (hn ▸ hpos)
  have hcard := card_add_card_le hA hB
  omega

end PeerSet

namespace Round

/-! ## Rounds at any moment -/

/-- The rounds that a round on some terms can come to. What does not count, and what fails, leaves it
as it is. -/
inductive Terms.Reaches (t : Terms) : Round → Prop
  | start {r : Round} (hr : t.start = .ok r) : t.Reaches r
  | hear {r : Round} (before : t.Reaches r) (p : Payload) : t.Reaches (r.hear p)
  | collect {r : Round} (before : t.Reaches r) (s : Submission) : t.Reaches (r.collect s)
  | endBlock {r : Round} (before : t.Reaches r) (data : Snapshot) (height : Height)
    (timeout : UInt64) : t.Reaches (r.endBlock data height timeout).1

theorem collect_eq_hear (r : Round) (s : Submission) :
    r.collect s = r ∨ ∃ p, r.collect s = r.hear p := by
  unfold collect submit
  cases s.open with
  | error e => exact .inl rfl
  | ok p => exact .inr ⟨p, rfl⟩

theorem fst_endBlock (r : Round) (data : Snapshot) (height : Height) (timeout : UInt64) :
    (r.endBlock data height timeout).1 = r ∨
      (r.endBlock data height timeout).1 = { r with concluded := true } := by
  unfold endBlock
  split_ifs
  · exact .inl rfl
  · cases r.decide height timeout with
    | error e => exact .inl rfl
    | ok o =>
      cases o with
      | none => exact .inl rfl
      | some d =>
        dsimp only
        cases r.kind.conclude d data with
        | error e => exact .inl rfl
        | ok res => exact .inr rfl

/-- The end of a block leaves the votes as they are. -/
theorem held_endBlock (r : Round) (data : Snapshot) (height : Height) (timeout : UInt64)
    (fp : Fingerprint) : (r.endBlock data height timeout).1.held fp = r.held fp := by
  rcases r.fst_endBlock data height timeout with heq | heq <;> rw [heq]
  rfl

variable {t : Terms} {r r' : Round}

theorem Terms.Reaches.hearAll (h : t.Reaches r) (ps : List Payload) : t.Reaches (r.hearAll ps) := by
  induction ps using List.reverseRecOn with
  | nil => exact h
  | append_singleton ps p ih =>
    rw [hearAll_concat]
    exact ih.hear p

/-- What counting a payload and coming to an end keep, the round keeps. -/
theorem Terms.Reaches.keeps {P : Round → Prop} (h : t.Reaches r)
    (hstart : ∀ {r : Round}, t.start = .ok r → P r)
    (hcount : ∀ {r : Round} {p : Payload}, P r → r.check p = .ok () → P (r.count p))
    (hend : ∀ {r : Round}, P r → P { r with concluded := true }) : P r := by
  have hhear {r : Round} (h : P r) (p : Payload) : P (r.hear p) := by
    rcases r.hear_cases p with ⟨hck, -, heq⟩ | ⟨-, heq⟩ <;> rw [heq]
    · exact hcount h hck
    · exact h
  induction h with
  | start hr => exact hstart hr
  | hear _ p ih => exact hhear ih p
  | @collect r _ s ih =>
    rcases r.collect_eq_hear s with heq | ⟨p, heq⟩ <;> rw [heq]
    · exact ih
    · exact hhear ih p
  | @endBlock r _ data height timeout ih =>
    rcases r.fst_endBlock data height timeout with heq | heq <;> rw [heq]
    · exact ih
    · exact hend ih

theorem Terms.Reaches.participants_eq (h : t.Reaches r) : r.participants = t.participants :=
  h.keeps (P := fun r => r.participants = t.participants)
    (fun hr => by rw [eq_fresh_of_start hr]; rfl) (fun h _ => h) id

theorem Terms.Reaches.kind_eq (h : t.Reaches r) : r.kind = t.kind :=
  h.keeps (P := fun r => r.kind = t.kind)
    (fun hr => by rw [eq_fresh_of_start hr]; rfl) (fun h _ => h) id

/-- Rounds hold only what they may hold, at any moment. -/
theorem Terms.Reaches.wellFormed (h : t.Reaches r) (hne : t.participants.peers ≠ [])
    (hle : t.participants.size ≤ PeerCount.limit)
    (hk : t.kind.strategy = .onlyKeeperSends → ∃ pk, t.keeper = some pk) : r.WellFormed := by
  refine h.keeps (fun hr => ?_) (fun h hck => h.count hck) (fun h => { __ := h })
  obtain rfl := eq_fresh_of_start hr
  exact wellFormed_fresh hne hle hk

/-! ## Senders -/

/-- The senders that hold a value. -/
def senders (r : Round) (fp : Fingerprint) : Finset PublicKey := (r.holders fp).toFinset

theorem mem_senders_iff {fp : Fingerprint} {pk : PublicKey} :
    pk ∈ r.senders fp ↔ ∃ p, r.payloads.get? pk = some p ∧ p.fingerprint = fp :=
  List.mem_toFinset.trans mem_holders_iff

theorem card_senders (r : Round) (fp : Fingerprint) : (r.senders fp).card = r.held fp := by
  rw [← length_holders]
  exact List.toFinset_card_of_nodup (r.nodup_holders fp)

theorem WellFormed.senders_subset (h : r.WellFormed) (fp : Fingerprint) :
    r.senders fp ⊆ r.participants.peers.toFinset := fun pk hpk => by
  obtain ⟨p, hp, -⟩ := mem_senders_iff.1 hpk
  exact List.mem_toFinset.2 (h.mem_participants hp)

/-- A sender holds one value. -/
theorem eq_of_mem_senders {a b : Fingerprint} {pk : PublicKey} (ha : pk ∈ r.senders a)
    (hb : pk ∈ r.senders b) : a = b := by
  obtain ⟨p, hp, rfl⟩ := mem_senders_iff.1 ha
  obtain ⟨q, hq, rfl⟩ := mem_senders_iff.1 hb
  rw [Option.some.inj (hp.symm.trans hq)]

/-- **Values that have a threshold share senders**, also in two rounds among the same participants. -/
theorem WellFormed.maxFaulty_lt_card_inter_senders (h : r.WellFormed) (h' : r'.WellFormed)
    (hp : r'.participants = r.participants) {n : PeerCount} (hn : n.total = r.participants.size)
    {a b : Fingerprint} (ha : n.threshold ≤ (r.senders a).card)
    (hb : n.threshold ≤ (r'.senders b).card) :
    n.maxFaulty < (r.senders a ∩ r'.senders b).card :=
  PeerSet.maxFaulty_lt_card_inter hn (List.length_pos_iff.2 h.nonempty) (h.senders_subset a)
    (hp ▸ h'.senders_subset b) ha hb

/-- So one round has only one such value. -/
theorem WellFormed.eq_of_threshold_le_card (h : r.WellFormed) {n : PeerCount}
    (hn : n.total = r.participants.size) {a b : Fingerprint}
    (ha : n.threshold ≤ (r.senders a).card) (hb : n.threshold ≤ (r.senders b).card) : a = b := by
  have hshared := h.maxFaulty_lt_card_inter_senders h rfl hn ha hb
  obtain ⟨pk, hpk⟩ := Finset.card_pos.1 (Nat.zero_lt_of_lt hshared)
  obtain ⟨hpa, hpb⟩ := Finset.mem_inter.1 hpk
  exact eq_of_mem_senders hpa hpb

theorem WellFormed.threshold_eq_of_total (h : r.WellFormed)
    (hs : r.kind.strategy = .sameUntilThreshold) {n : PeerCount}
    (hn : n.total = r.participants.size) : r.threshold = n.threshold := by
  rw [h.threshold_eq, hs]
  unfold votesNeeded PeerSet.supermajority PeerCount.threshold PeerCount.maxFaulty
  rw [hn]

/-! ## Any set of peers -/

/-- **Any two thresholds share an honest peer.** Of any 1 to 255 peers, two parts with a threshold of
them each share more than may be faulty, so some that are not; and a threshold is more than two
thirds of them. So a round among these peers that looks for one value with a threshold never has two
such values, whatever it is given and whenever one looks, and looking for the winner never fails. -/
theorem thresholds_share_honest_peer {s : PeerSet} (hne : s.peers ≠ [])
    (hle : s.size ≤ PeerCount.limit) :
    ∃ n, s.count? = some n ∧ n.total = s.size ∧ s.threshold? = some n.threshold ∧
      (∀ A B : Finset PublicKey, A ⊆ s.peers.toFinset → B ⊆ s.peers.toFinset →
        n.threshold ≤ A.card → n.threshold ≤ B.card → n.maxFaulty < (A ∩ B).card ∧
          ∀ faulty : Finset PublicKey, faulty.card ≤ n.maxFaulty → ∃ pk ∈ A ∩ B, pk ∉ faulty) ∧
      (∀ A : Finset PublicKey, A ⊆ s.peers.toFinset → n.threshold ≤ A.card →
        2 * s.size < 3 * A.card) ∧
      ∀ (t : Terms) (r : Round), t.participants = s →
        t.kind.strategy = .sameUntilThreshold → t.Reaches r → r.threshold = n.threshold ∧
          (∀ a b, n.threshold ≤ (r.senders a).card → n.threshold ≤ (r.senders b).card → a = b) ∧
          ∃ w, r.winner? = .ok w ∧ ∀ fp, w = some fp ↔ n.threshold ≤ (r.senders fp).card := by
  obtain ⟨n, hcount, hn⟩ := PeerSet.exists_count? hle
  have hpos : 0 < s.size := List.length_pos_iff.2 hne
  refine ⟨n, hcount, hn, congrArg (Option.map PeerCount.threshold) hcount,
    fun A B hA hB hAn hBn => ?_, fun A _ hAn => ?_, fun t r ht hs hr => ?_⟩
  · have hshared := PeerSet.maxFaulty_lt_card_inter hn hpos hA hB hAn hBn
    exact ⟨hshared, fun faulty hfaulty =>
      Finset.exists_mem_notMem_of_card_lt_card (Nat.lt_of_le_of_lt hfaulty hshared)⟩
  · have hthirds := PeerCount.two_mul_total_lt (hn ▸ hpos)
    omega
  · subst ht
    have hw : r.WellFormed := hr.wellFormed hne hle fun hk => by
      rw [hs] at hk
      cases hk
    have hnr : n.total = r.participants.size := hr.participants_eq ▸ hn
    have hthreshold : r.threshold = n.threshold := hw.threshold_eq_of_total (hr.kind_eq ▸ hs) hnr
    obtain ⟨w, hwin, hiff⟩ := hw.exists_winner
    refine ⟨hthreshold, fun a b => hw.eq_of_threshold_le_card hnr, w, hwin, fun fp => ?_⟩
    rw [hiff, hthreshold, card_senders]

/-! ## Four peers -/

/-- The round of four peers at the end of the block with the votes of three of them. -/
def afterThree : Round :=
  ((choosing.fresh.hearAll [choice 0 8, choice 1 8, choice 2 8]).endBlock Snapshot.empty
    (Counter.ofNat 11) 100).1

theorem reaches_afterThree : choosing.Reaches afterThree := by
  have hstart : choosing.start = .ok choosing.fresh :=
    start_eq (by decide : choosing.participants.peers ≠ [])
      (by decide : choosing.participants.size ≤ PeerCount.limit)
  exact ((Terms.Reaches.start hstart).hearAll _).endBlock _ _ _

/-- All three hold the same fingerprint, whatever it is. -/
theorem card_senders_afterThree : (afterThree.senders (choice 0 8).fingerprint).card = 3 := by
  have hheld : (choosing.fresh.hearAll [choice 0 8, choice 1 8, choice 2 8]).held
      (choice 0 8).fingerprint = 3 :=
    List.count_replicate_self (a := (choice 0 8).fingerprint) (n := 3)
  rw [card_senders, afterThree, held_endBlock]
  exact hheld

/-- Of four peers one may be faulty, and three are a threshold: any two such parts share two peers,
and a value that three hold is the only one. -/
theorem thresholds_share_honest_peer_of_quartet :
    (choosing.participants.peers ≠ [] ∧ choosing.participants.size ≤ PeerCount.limit) ∧
      ∃ n, choosing.participants.count? = some n ∧ n.threshold = 3 ∧ n.maxFaulty = 1 ∧
        1 < (({Octets.fill 0, Octets.fill 1, Octets.fill 2} : Finset PublicKey) ∩
          {Octets.fill 1, Octets.fill 2, Octets.fill 3}).card ∧
        afterThree.winner? = .ok (some (choice 0 8).fingerprint) ∧
        ∀ b, n.threshold ≤ (afterThree.senders b).card → b = (choice 0 8).fingerprint := by
  have hne : choosing.participants.peers ≠ [] := by decide
  have hle : choosing.participants.size ≤ PeerCount.limit := by decide
  obtain ⟨n, hcount, hn, -, hshare, -, hround⟩ := thresholds_share_honest_peer hne hle
  obtain rfl : n = ⟨4⟩ := Option.some.inj (hcount.symm.trans (by decide))
  obtain ⟨-, hunique, w, hw, hiff⟩ := hround choosing afterThree rfl rfl reaches_afterThree
  have hthree : (⟨4⟩ : PeerCount).threshold ≤
      (afterThree.senders (choice 0 8).fingerprint).card :=
    Nat.le_of_eq card_senders_afterThree.symm
  refine ⟨⟨hne, hle⟩, _, hcount, by decide, by decide, ?_, ?_, fun b hb => hunique _ _ hb hthree⟩
  · exact (hshare _ _ (by decide) (by decide) (by decide) (by decide)).1
  · rw [hw, (hiff _).2 hthree]

end Round

end Quorum
