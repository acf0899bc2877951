import Quorum.Proofs.Application.Trace

/-!
# What a decision rests on

* `admitted` : the last payload that counts for a peer in a round, of its kind and, unless it is to
  end the service, of its round count;
* `Supermajority` : more than two thirds of the participants, each one once;
* `Backed` : what the submissions since the start of a round must hold for its decision;
* `Verdict.backed` : the votes of a round that holds these submissions back its verdict;
* `decision_backed` : in every run the submissions since the start of a round back its decision.
-/

namespace Quorum

open Snapshot

section
variable (kind : RoundKind) (roundCount : RoundCount) (subs : List Submission)

/-- The last payload that counts for a peer: signed by it, for the kind of the round and, unless it
is to end the service, for its round count. -/
def admitted (pk : PublicKey) : Option Payload :=
  lastBallot kind (if kind = .termination then none else some roundCount) subs pk

/-- The last payloads of some peers have the value of one that leads to the new data. -/
def Agree (old new : Snapshot) (event : Event) (peers : List PublicKey) : Prop :=
  ∃ agreed, (∃ pk ∈ peers, admitted kind roundCount subs pk = some agreed) ∧
    (∀ pk ∈ peers, ∃ p, admitted kind roundCount subs pk = some p ∧
      p.fingerprint = agreed.fingerprint) ∧
    kind.concludeAgreed agreed.vote old = .ok (new, event)

/-- More than two thirds of the participants, each one once. -/
def Supermajority (participants : PeerSet) (peers : List PublicKey) : Prop :=
  peers.Nodup ∧ peers ⊆ participants.peers ∧ 2 * participants.size < 3 * peers.length

/-- The submissions since the start of a round back its decision. -/
structure Backed (participants : PeerSet) (old new : Snapshot) (event : Event) : Prop where
  /-- More than two thirds agree, each with its last payload. -/
  agreed : kind ∈ [.randomness, .selectKeeper, .validateTransaction, .termination] →
    ∃ peers, Supermajority participants peers ∧ Agree kind roundCount subs old new event peers
  /-- Every participant registered. -/
  registered : kind = .registrationStartup → ∀ pk ∈ participants.peers, ∃ s ∈ subs, ∃ p,
    s.ballot? kind (some roundCount) pk = some p
  /-- More than two thirds signed, and their last signatures are stored. -/
  signed : kind = .collectSignature → ∃ peers sigs, Supermajority participants peers ∧
    new.signatures = .ok sigs ∧ (∀ pk, pk ∈ peers ↔ ∃ sig, sigs.get? pk = some sig) ∧
    ∀ pk sig, sigs.get? pk = some sig →
      ∃ p, admitted kind roundCount subs pk = some p ∧ p.vote = .signature sig
  /-- The keeper sent a transaction, or gave up. -/
  sent : kind = .finalization → ∃ keeper, old.keeper = .ok keeper ∧
    Agree kind roundCount subs old new event [keeper]

end

namespace Round

variable {r : Round} {subs : List Submission}

/-- The round asks for payloads of its round count, unless they are to end the service. -/
def Tagged (r : Round) : Prop :=
  r.countTag = if r.kind = .termination then none else some r.roundCount

theorem Holds.admitted (h : r.Holds subs) (ht : r.Tagged) {pk : PublicKey} {p : Payload}
    (hp : r.payloads.get? pk = some p) : admitted r.kind r.roundCount subs pk = some p := by
  have hb := h.ballot hp
  rw [ht] at hb
  exact hb

/-- The senders that hold a value are more than two thirds, if they are enough for the round. -/
theorem WellFormed.supermajority_holders (h : r.WellFormed)
    (hs : r.kind.strategy = .sameUntilThreshold) {fp : Fingerprint}
    (ht : r.threshold ≤ r.held fp) : Supermajority r.participants (r.holders fp) := by
  refine ⟨r.nodup_holders fp, fun pk hpk => ?_, ?_⟩
  · obtain ⟨p, hp, -⟩ := mem_holders_iff.1 hpk
    exact h.mem_participants hp
  · have hm := PeerSet.two_mul_size_lt h.nonempty
    have hthr : r.threshold = r.participants.supermajority := by
      rw [h.threshold_eq, hs]
      rfl
    rw [length_holders]
    omega

theorem WellFormed.supermajority_keys (h : r.WellFormed)
    (hs : r.kind.strategy = .differentUntilThreshold) (ht : r.threshold ≤ r.payloads.size) :
    Supermajority r.participants r.payloads.keys := by
  refine ⟨r.payloads.nodup_keys, fun pk hpk => ?_, ?_⟩
  · obtain ⟨p, hp⟩ := SortedMap.mem_keys_iff.1 hpk
    exact h.mem_participants hp
  · have hm := PeerSet.two_mul_size_lt h.nonempty
    have hthr : r.threshold = r.participants.supermajority := by
      rw [h.threshold_eq, hs]
      rfl
    rw [SortedMap.length_keys]
    omega

/-- The votes for an agreed value agree on it. -/
theorem Holds.agree (h : r.Holds subs) (htag : r.Tagged) {old new : Snapshot} {u : Update}
    {e : Event} {pk : PublicKey} {p : Payload} (hget : r.payloads.get? pk = some p)
    (hset : r.kind.Settles old p.vote u e) (hu : old.update? u = some new) {peers : List PublicKey}
    (hpk : pk ∈ peers) (hpeers : ∀ pk ∈ peers, pk ∈ r.holders p.fingerprint) :
    Agree r.kind r.roundCount subs old new e peers := by
  refine ⟨p, ⟨pk, hpk, h.admitted htag hget⟩, fun pk' hpk' => ?_, hset.concludeAgreed_eq hu⟩
  obtain ⟨q, hq, hf⟩ := mem_holders_iff.1 (hpeers pk' hpk')
  exact ⟨q, h.admitted htag hq, hf⟩

theorem WellFormed.exists_signature (h : r.WellFormed) (hk : r.kind = .collectSignature)
    {pk : PublicKey} {p : Payload} (hp : r.payloads.get? pk = some p) :
    ∃ sig, p.vote = .signature sig := by
  have hv := (h.expects hp).1
  rw [hk] at hv
  have hkind : p.vote.kind = .signature := (Option.some.inj hv).symm
  cases hvote : p.vote with
  | signature sig => exact ⟨sig, rfl⟩
  | _ =>
    rw [hvote] at hkind
    cases hkind

/-- **The submissions that a round holds back its verdict.** -/
theorem Verdict.backed {old new : Snapshot} {height : Height} {timeout : UInt64} {u : Update}
    {e : Event} (hver : r.Verdict old height timeout u e) (h : r.WellFormed) (hh : r.Holds subs)
    (htag : r.Tagged) (hkeeper : r.kind.keeper? old = .ok r.keeper)
    (hu : old.update? u = some new) (he : e ≠ .noMajority ∧ e ≠ .roundTimeout) :
    Backed r.kind r.roundCount subs r.participants old new e := by
  cases hver with
  | noMajority => exact absurd rfl he.1
  | timeout => exact absurd rfl he.2
  | @agreed pk p u e strategy held get settles =>
    have hpk : pk ∈ r.holders p.fingerprint := mem_holders_iff.2 ⟨p, get, rfl⟩
    refine ⟨fun hk => ?_, fun hk => ?_, fun hk => ?_, fun hk => ?_⟩
    · exact ⟨_, h.supermajority_holders (RoundKind.strategy_eq_sameUntilThreshold.2 hk) held,
        hh.agree htag get settles hu hpk fun _ hm => hm⟩
    · rw [hk] at strategy
      rcases strategy with hs | hs <;> cases hs
    · rw [hk] at strategy
      rcases strategy with hs | hs <;> cases hs
    · have hs : r.kind.strategy = .onlyKeeperSends := by
        rw [hk]
        rfl
      obtain ⟨keeper, hsome⟩ := h.keeper hs
      obtain rfl := h.eq_keeper hsome get
      refine ⟨pk, ?_, hh.agree htag get settles hu (List.mem_singleton_self pk) fun pk' hm => ?_⟩
      · unfold RoundKind.keeper? at hkeeper
        rw [if_pos hs, hsome] at hkeeper
        cases hr : old.keeper with
        | ok k =>
          rw [hr] at hkeeper
          cases hkeeper
          rfl
        | error e =>
          rw [hr] at hkeeper
          cases hkeeper
      · rwa [List.mem_singleton.1 hm]
  | registered kind all =>
    refine ⟨fun hk => ?_, fun _ pk hpk => ?_, fun hk => ?_, fun hk => ?_⟩
    · rw [kind] at hk
      exact absurd hk (by decide)
    · obtain ⟨p, hp⟩ := SortedMap.mem_keys_iff.1 ((h.perm_keys all).mem_iff.2 hpk)
      have ha := hh.admitted htag hp
      unfold Quorum.admitted at ha
      rw [if_neg (by rw [kind]; decide)] at ha
      obtain ⟨s, hs, hb⟩ := exists_ballot_of_lastBallot ha
      exact ⟨s, hs, p, hb⟩
    · cases kind.symm.trans hk
    · cases kind.symm.trans hk
  | @signed sigs kind enough get =>
    refine ⟨fun hk => ?_, fun hk => ?_, fun _ => ?_, fun hk => ?_⟩
    · rw [kind] at hk
      exact absurd hk (by decide)
    · cases kind.symm.trans hk
    · have hs : r.kind.strategy = .differentUntilThreshold := by
        rw [kind]
        rfl
      refine ⟨_, sigs, h.supermajority_keys hs enough, ?_, fun pk => ?_, fun pk sig hsig => ?_⟩
      · refine read_of_read? (read?_of_get? ?_ (decodeWhole_map (h.size_signatures_le get)
          (by decide)))
        rw [get?_update? hu]
        exact congrArg (Option.getD · _) (Update.last?_singleton _ _)
      · rw [SortedMap.mem_keys_iff]
        constructor
        · rintro ⟨p, hp⟩
          obtain ⟨sig, hsig⟩ := h.exists_signature kind hp
          exact ⟨sig, (get pk sig).2 ⟨p, hp, hsig⟩⟩
        · rintro ⟨sig, hsig⟩
          obtain ⟨p, hp, -⟩ := (get pk sig).1 hsig
          exact ⟨p, hp⟩
      · obtain ⟨p, hp, hv⟩ := (get pk sig).1 hsig
        exact ⟨p, hh.admitted htag hp, hv⟩
    · cases kind.symm.trans hk

end Round

namespace Application

variable {a : Application} {b : Block}

theorem Succeeds.backed {r next : Round} {subs : List Submission} {data : Snapshot}
    {event : Event} {roundCount : RoundCount} {target : RoundKind}
    (hs : a.Succeeds b r data event roundCount target next) (hr : a.Hosts r) (htag : r.Tagged)
    (hkeeper : r.kind.keeper? a.data = .ok r.keeper)
    (hh : (r.collectAll b.submissions).Holds subs)
    (he : event ≠ .noMajority ∧ event ≠ .roundTimeout) :
    Backed r.kind r.roundCount subs r.participants a.data data event := by
  obtain ⟨u, hver, hu⟩ := hs.verdict
  have htag' : (r.collectAll b.submissions).Tagged := by
    unfold Round.Tagged
    rw [Round.collectAll_countTag, Round.collectAll_kind, Round.collectAll_roundCount]
    exact htag
  have hkeeper' : (r.collectAll b.submissions).kind.keeper? a.data =
      .ok (r.collectAll b.submissions).keeper := by
    rw [Round.collectAll_kind, Round.collectAll_keeper]
    exact hkeeper
  have hb := hver.backed (hr.wellFormed.collectAll hr.collecting _) hh htag' hkeeper' hu he
  rwa [Round.collectAll_kind, Round.collectAll_roundCount, Round.collectAll_participants] at hb

/-- **Every decision is backed by an authenticated quorum.** In every run from the start, a round
that ends other than without a majority or by a timeout has the votes for it among the submissions
since its start. -/
theorem decision_backed {params : AppParams} (hstart : start params = .ok a) {bs : List Block}
    (hin : InOrder 0 (bs ++ [b])) {o : BlockOutcome}
    (ho : ((a.afterBlocks bs).processBlock b).2 = .ok o) {t : Transition}
    (ht : o.transition = some t) (he : t.event ≠ .noMajority ∧ t.event ≠ .roundTimeout) :
    ∃ r, (if t.preempted then (a.afterBlocks bs).background = some r
        else (a.afterBlocks bs).current = r) ∧
      r.kind = t.source ∧ (r.kind = .registrationStartup → r.participants = params.participants) ∧
      Backed r.kind r.roundCount (submissionsAfter r.startHeight.toNat (bs ++ [b])) r.participants
        (a.afterBlocks bs).data (a.afterBlocks (bs ++ [b])).data t.event := by
  obtain ⟨⟨hne, hle⟩, rfl⟩ := start_eq_ok_iff.1 hstart
  obtain ⟨hbs, hb⟩ := inOrder_concat.1 hin
  have htraced := traced_afterBlocks hne hle hbs
  obtain ⟨h, hheight⟩ := (coherent_initial hne hle).afterBlocks hbs
  have hzero : (initial params).height.toNat = 0 := rfl
  have hparams := (coherent_initial hne hle).params_afterBlocks hbs
  rw [afterBlocks_concat]
  generalize (initial params).afterBlocks bs = a at *
  have hb' : b.height.toNat = a.height.toNat + 1 := by omega
  obtain ⟨a', o', hproc, hs, -⟩ := h.processBlock hb'
  rw [hproc] at ho ⊢
  obtain rfl : o' = o := Except.ok.inj ho
  rw [ht] at hs
  have hstart := h.startHeight_le
  -- the round that ended is the background round or the current one, and either holds its votes
  cases hs with
  | terminates hf hbg hs =>
    obtain ⟨hw, hbgStart⟩ := h.background_watches hbg
    refine ⟨_, hbg, rfl, fun hk => ?_, hs.backed (h.hosts_background hbg) ?_ ?_ ?_ he⟩
    · cases hw.kind.symm.trans hk
    · unfold Round.Tagged Round.countTag
      rw [if_pos hw.anyRoundCount, if_pos hw.kind]
    · rw [hw.kind, hw.keeper]
      rfl
    · rw [← Round.collectAll_startHeight _ b.submissions]
      exact holds_concat (htraced.background _ hbg) hw.collecting (by omega)
  | moves hf hbg _ hs =>
    refine ⟨_, rfl, rfl, fun hk => ?_, hs.backed h.hosts_current ?_ h.current_keeper ?_ he⟩
    · exact (h.hosts_current.registers hk).trans (congrArg AppParams.participants hparams)
    · unfold Round.Tagged Round.countTag
      rw [h.current_anyRoundCount, if_neg h.foreground]
      rfl
    · rw [← Round.collectAll_startHeight _ b.submissions]
      exact holds_concat (htraced.current hf) h.collecting (by omega)

/-! ## A service of one peer -/

/-- The peer with the secret key `1`. -/
def firstPeer : PublicKey :=
  ⟨Bytes.ofNatBE 32 0x4cb5abf6ad79fbf5abbccafcc269d85cd2651ed4b885b5869f241aedf0a5ba29,
    Bytes.length_ofNatBE 32 _⟩

/-- Its vote to end the service. -/
def firstVote : Submission where
  payload := Wire.encode (⟨firstPeer, Counter.zero, .termination Octets.zero⟩ : Payload)
  sig := ⟨Bytes.ofNatBE 64 0x0ab9cfd8319b92c3fd4da288842c9dbed273643d8f68c3b01401d8be9797a66dc07ea3a514c47c56aeacbd75ab82c739b90ba9deafc762bcee2ca59b7b991f00,
    Bytes.length_ofNatBE 64 _⟩

theorem open_firstVote :
    firstVote.open = .ok ⟨firstPeer, Counter.zero, .termination Octets.zero⟩ := by decide +kernel

/-- A service of this peer alone. -/
def soloParams : AppParams where
  participants := ⟨[firstPeer]⟩

theorem start_solo : start soloParams = .ok (initial soloParams) := start_eq (by decide) (by decide)

theorem coherent_initial_solo : (initial soloParams).Coherent :=
  coherent_initial (by decide) (by decide)

/-- It decides alone. -/
theorem not_undecided_solo : ¬ (initial soloParams).Undecided (Block.first [firstVote]) := by
  intro h
  generalize hwatch : Round.watch soloParams.participants Counter.zero Counter.zero = r
  have hlt : (r.collectAll [firstVote]).held (Vote.termination Octets.zero).fingerprint < 1 := by
    subst hwatch
    exact h _ rfl _
  have hc : r.collect firstVote = r.count ⟨firstPeer, Counter.zero, .termination Octets.zero⟩ := by
    subst hwatch
    exact Round.collect_of_accepted open_firstVote
      (Round.accept_eq_ok_iff.2 ⟨⟨rfl, by decide, rfl, .inl rfl⟩, rfl⟩)
  have hget : (r.collect firstVote).payloads.get? firstPeer =
      some ⟨firstPeer, Counter.zero, .termination Octets.zero⟩ := by
    rw [hc, Round.get?_count, if_pos rfl]
  have hpos : 0 < (r.collect firstVote).held (Vote.termination Octets.zero).fingerprint :=
    Round.held_pos_iff.2 ⟨firstPeer, _, hget, rfl⟩
  rw [Round.collectAll_singleton] at hlt
  omega

/-- Its vote ends its service in the first block. -/
theorem decision_backed_of_one : ∃ r, (initial soloParams).background = some r ∧
    Backed r.kind r.roundCount (submissionsAfter r.startHeight.toNat [Block.first [firstVote]])
      r.participants Snapshot.empty
      ((initial soloParams).afterBlocks [Block.first [firstVote]]).data .terminate := by
  have hstart : start soloParams = .ok (initial soloParams) := start_eq (by decide) (by decide)
  have hin : InOrder 0 ([] ++ [Block.first [firstVote]]) := ⟨rfl, trivial⟩
  have h : (initial soloParams).Coherent := coherent_initial (by decide) (by decide)
  obtain ⟨a', o, hproc, hs, -⟩ := h.processBlock (b := Block.first [firstVote]) rfl
  have ho : (((initial soloParams).afterBlocks []).processBlock (Block.first [firstVote])).2 =
      .ok o := by rw [afterBlocks_nil, hproc]
  generalize ht : o.transition = t at hs
  cases hs with
  | finished hf => cases hf
  | waits _ undecided | moves _ _ undecided => exact absurd undecided not_undecided_solo
  | terminates _ hbg hsucc =>
    obtain ⟨u, hver, -⟩ := hsucc.verdict
    obtain ⟨-, -, -, rfl⟩ := hver.of_termination
      ((Round.collectAll_kind _ _).trans (h.background_watches hbg).1.kind)
    obtain ⟨r, hr, -, -, hb⟩ := decision_backed hstart hin ho ht ⟨nofun, nofun⟩
    exact ⟨r, hr, hb⟩

end Application

end Quorum
