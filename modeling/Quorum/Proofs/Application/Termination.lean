import Quorum.Proofs.Application.Evidence

/-!
# The end of the service

* `PeerSet.Agrees` : enough peers to decide voted for a value;
* `terminationVotes` : the last vote of each peer to end the service, over some blocks;
* `votesWith` : these votes on top of those that were cast before;
* `Round.Carries` : the background round holds exactly these votes;
* `Application.OnTime` : until the service ends its background round carries the votes, and it has
  ended exactly if the peers agreed after some block, with the transaction agreed on first;
* `OnTime.step`, `Coherent.onTime` : this is kept by every step, and so holds along every run;
* `termination_on_time` : so it holds from the start, for a set of peers that is in order.
-/

namespace Quorum

open Snapshot

/-- The peers that voted for a value are enough to decide. -/
def PeerSet.Agrees (s : PeerSet) (votes : PublicKey → Option Payload) (fp : Fingerprint) : Prop :=
  ∃ threshold, s.threshold? = some threshold ∧
    threshold ≤ s.peers.countP fun pk => (votes pk).map Payload.fingerprint = some fp

theorem PeerSet.agrees_iff {s : PeerSet} (h : s.size ≤ PeerCount.limit)
    {votes : PublicKey → Option Payload} {fp : Fingerprint} : s.Agrees votes fp ↔
      s.supermajority ≤ s.peers.countP fun pk => (votes pk).map Payload.fingerprint = some fp := by
  unfold Agrees
  rw [threshold?_eq h]
  constructor
  · rintro ⟨_, ht, hle⟩
    cases ht
    exact hle
  · exact fun hle => ⟨_, rfl, hle⟩

/-- Without votes nothing is agreed on. -/
theorem PeerSet.not_agrees_none {s : PeerSet} (hne : s.peers ≠ []) (hle : s.size ≤ PeerCount.limit)
    (fp : Fingerprint) : ¬ s.Agrees (fun _ => none) fp := by
  rw [agrees_iff hle]
  have hzero : s.peers.countP (fun _ => (none : Option Payload).map Payload.fingerprint = some fp) =
      0 := List.countP_eq_zero.2 fun _ _ => by simp
  have := supermajority_pos hne
  omega

/-- Votes that are added to do not lose peers. -/
theorem PeerSet.Agrees.mono {s : PeerSet} {votes more : PublicKey → Option Payload}
    {fp : Fingerprint} (h : s.Agrees votes fp)
    (hle : ∀ pk p, votes pk = some p → more pk = some p) : s.Agrees more fp := by
  obtain ⟨threshold, ht, hcount⟩ := h
  refine ⟨threshold, ht, Nat.le_trans hcount (List.countP_mono_left fun pk _ hpk => ?_)⟩
  rw [decide_eq_true_eq] at hpk ⊢
  obtain ⟨p, hp, hf⟩ := Option.map_eq_some_iff.1 hpk
  rw [hle pk p hp, Option.map_some, hf]

/-- The last vote of a peer to end the service, over all submissions of some blocks. -/
def terminationVotes (bs : List Block) (pk : PublicKey) : Option Payload :=
  lastBallot .termination none (bs.flatMap Block.submissions) pk

/-- These votes on top of those that were cast before. -/
def votesWith (old : PublicKey → Option Payload) (bs : List Block) (pk : PublicKey) :
    Option Payload :=
  (terminationVotes bs pk).or (old pk)

theorem votesWith_nil (old : PublicKey → Option Payload) : votesWith old [] = old := by
  funext pk
  exact Option.none_or

theorem votesWith_none : votesWith (fun _ => none) = terminationVotes := by
  funext bs pk
  exact Option.or_none

theorem votesWith_concat (old : PublicKey → Option Payload) (bs : List Block) (b : Block)
    (pk : PublicKey) : votesWith old (bs ++ [b]) pk =
      (lastBallot .termination none b.submissions pk).or (votesWith old bs pk) := by
  unfold votesWith terminationVotes
  rw [List.flatMap_append, List.flatMap_singleton, lastBallot_append, Option.or_assoc]

/-- A configured set that is in order is the one that registration agrees on. -/
theorem RoundKind.asked_eq_of_sorted {configured : PeerSet} (hs : configured.Sorted)
    (k : RoundKind) (data : Snapshot) : k.asked data configured = configured := by
  unfold asked
  rw [PeerSet.ofList_eq_of_pairwise hs, ite_self, ite_self]

namespace Round

variable {r : Round} {peers : PeerSet} {votes : PublicKey → Option Payload}

/-- The background round holds the votes of the peers, and nothing else. -/
structure Carries (r : Round) (peers : PeerSet) (votes : PublicKey → Option Payload) : Prop where
  watches : r.Watches peers
  get? : ∀ pk, r.payloads.get? pk = if pk ∈ peers.peers then votes pk else none

/-- A value has as many senders as peers whose vote it is. -/
theorem Carries.held_eq (h : r.Carries peers votes) (hs : peers.Sorted) (fp : Fingerprint) :
    r.held fp = peers.peers.countP fun pk => (votes pk).map Payload.fingerprint = some fp := by
  have hw := h.watches
  have hnd : r.participants.peers.Nodup := by
    rw [hw.participants]
    exact SortedMap.nodup_of_pairwise hs
  rw [hw.wellFormed.held_eq_countP hnd, hw.participants]
  refine List.countP_congr fun pk hpk => ?_
  rw [h.get? pk, if_pos hpk]

theorem Carries.agrees_iff (h : r.Carries peers votes) (hs : peers.Sorted) (fp : Fingerprint) :
    peers.Agrees votes fp ↔ r.threshold ≤ r.held fp := by
  have hw := h.watches
  have hle : peers.size ≤ PeerCount.limit := hw.participants ▸ hw.wellFormed.bounded
  rw [PeerSet.agrees_iff hle, h.held_eq hs fp, hw.wellFormed.threshold_eq, hw.kind,
    hw.participants]
  rfl

theorem Carries.collectAll {old : PublicKey → Option Payload} {bs : List Block}
    (h : r.Carries peers (votesWith old bs)) (hs : peers.Sorted) (b : Block) :
    (r.collectAll b.submissions).Carries peers (votesWith old (bs ++ [b])) := by
  have hw := h.watches
  refine ⟨hw.collectAll b.submissions, fun pk => ?_⟩
  have htag : r.countTag = none := if_pos hw.anyRoundCount
  have hhears : r.hears pk = true ↔ pk ∈ peers.peers := by
    unfold hears
    rw [hw.participants, hw.keeper, ← PeerSet.contains_iff hs]
    simp
  rw [get?_collectAll hw.collecting, hw.kind, htag, h.get? pk, votesWith_concat]
  by_cases hpk : pk ∈ peers.peers
  · rw [if_pos (hhears.2 hpk), if_pos hpk, if_pos hpk]
  · rw [if_neg (mt hhears.1 hpk), if_neg hpk, if_neg hpk]

theorem carries_watch (hne : peers.peers ≠ []) (hle : peers.size ≤ PeerCount.limit)
    (roundCount : RoundCount) (height : Height) :
    (watch peers roundCount height).Carries peers fun _ => none :=
  ⟨watches_watch hne hle roundCount height, fun _ => (ite_self _).symm⟩

end Round

namespace Application

variable {a a' : Application} {b : Block} {bs : List Block} {peers : PeerSet}
  {old : PublicKey → Option Payload}

/-- The peers agreed on a transaction after some of the blocks, and on none before. -/
def EndedBy (peers : PeerSet) (votes : List Block → PublicKey → Option Payload) (bs : List Block)
    (tx : TxHash) : Prop :=
  ∃ pre, pre <+: bs ∧ peers.Agrees (votes pre) (Vote.termination tx).fingerprint ∧
    ∀ p, p <+: pre → p ≠ pre → ∀ fp, ¬ peers.Agrees (votes p) fp

theorem EndedBy.concat {votes : List Block → PublicKey → Option Payload} {tx : TxHash}
    (h : EndedBy peers votes bs tx) (b : Block) : EndedBy peers votes (bs ++ [b]) tx := by
  obtain ⟨pre, hpre, hrest⟩ := h
  exact ⟨pre, hpre.trans (List.prefix_append bs [b]), hrest⟩

/-- Until the service ends its background round carries the votes and the peers have not agreed, and
once it has ended the snapshot says with which transaction. -/
structure OnTime (peers : PeerSet) (old : PublicKey → Option Payload) (bs : List Block)
    (a : Application) : Prop where
  configured : a.params.participants = peers
  carries : a.isFinished = false →
    ∃ bg, a.background = some bg ∧ bg.Carries peers (votesWith old bs)
  open_ : a.isFinished = false → ∀ pre, pre <+: bs → ∀ fp, ¬ peers.Agrees (votesWith old pre) fp
  ended : a.isFinished = true → ∃ tx, EndedBy peers (votesWith old) bs tx ∧
    a.data.terminationReached = .ok true ∧ a.data.terminationTx = .ok tx

theorem readings_of_update {data new : Snapshot} {tx : TxHash}
    (hu : data.update? [Update.set Key.terminationReached true, Update.set Key.terminationTx tx] =
      some new) : new.terminationReached = .ok true ∧ new.terminationTx = .ok tx := by
  have hne : Key.terminationTx ≠ Key.terminationReached := by decide
  obtain ⟨hr, ht⟩ := Update.last?_pair hne (some (Wire.encode true)) (some (Wire.encode tx))
  constructor
  · refine readOr_of_read? (read?_of_get? ?_ (decodeWhole_lawful (by decide) true)) false
    rw [get?_update? hu]
    exact congrArg (Option.getD · _) hr
  · refine read_of_read? (read?_of_get? ?_ (decodeWhole_lawful (by decide) tx))
    rw [get?_update? hu]
    exact congrArg (Option.getD · _) ht

/-- Nothing was agreed on up to a block, if nothing was before and nothing is after it. -/
theorem open_concat {votes : List Block → PublicKey → Option Payload}
    (h : ∀ pre, pre <+: bs → ∀ fp, ¬ peers.Agrees (votes pre) fp)
    (hlast : ∀ fp, ¬ peers.Agrees (votes (bs ++ [b])) fp) :
    ∀ pre, pre <+: bs ++ [b] → ∀ fp, ¬ peers.Agrees (votes pre) fp := by
  intro pre hpre
  rcases List.prefix_concat_iff.1 hpre with rfl | hpre
  · exact hlast
  · exact h pre hpre

theorem Undecided.not_agrees (h : a.Undecided b) {bg : Round} (hbg : a.background = some bg)
    (hs : peers.Sorted) (hc : bg.Carries peers (votesWith old bs)) (fp : Fingerprint) :
    ¬ peers.Agrees (votesWith old (bs ++ [b])) fp := by
  rw [(hc.collectAll hs b).agrees_iff hs, Round.collectAll_threshold]
  exact Nat.not_le_of_lt (h bg hbg fp)

/-- **A step keeps the votes, and ends the service exactly if the peers agree.** -/
theorem OnTime.step {t : Option Transition} (ho : OnTime peers old bs a) (hsorted : peers.Sorted)
    (h : a.Coherent) (hs : Step a b a' t) : OnTime peers old (bs ++ [b]) a' := by
  cases hs with
  | finished hf =>
    refine ⟨ho.configured, fun hf' => ?_, fun hf' => ?_, fun _ => ?_⟩
    · cases hf.symm.trans hf'
    · cases hf.symm.trans hf'
    · obtain ⟨tx, hend, hdata⟩ := ho.ended hf
      exact ⟨tx, hend.concat b, hdata⟩
  | waits hf undecided _ =>
    obtain ⟨bg, hbg, hc⟩ := ho.carries hf
    refine ⟨ho.configured, fun _ => ?_, fun _ => ?_, fun hf' => ?_⟩
    · exact ⟨_, received_background hbg b, hc.collectAll hsorted b⟩
    · exact open_concat (ho.open_ hf) (undecided.not_agrees hbg hsorted hc)
    · rw [received_isFinished, hf] at hf'
      cases hf'
  | moves hf hbg undecided hs =>
    obtain ⟨bg, hbg', hc⟩ := ho.carries hf
    cases hbg.symm.trans hbg'
    obtain ⟨-, ⟨_, hfol⟩, -, keeper, -, rfl⟩ := h.of_succeeds h.hosts_current hs
    have hc' := hc.collectAll hsorted b
    -- registration agrees on exactly the configured peers, so the round is kept with its votes
    refine ⟨ho.configured, fun _ => ⟨_, rfl, ?_⟩, fun _ => ?_, fun hf' => ?_⟩
    · rw [ho.configured, RoundKind.asked_eq_of_sorted hsorted,
        Round.kept_of_asks hc'.watches.participants]
      exact hc'
    · exact open_concat (ho.open_ hf) (undecided.not_agrees hbg hsorted hc)
    · exact absurd (hfol.isTerminal.1 hf') h.foreground
  | terminates hf hbg hs =>
    obtain ⟨bg, hbg', hc⟩ := ho.carries hf
    cases hbg.symm.trans hbg'
    obtain ⟨-, ⟨_, hfol⟩, -, keeper, -, rfl⟩ := h.of_succeeds (h.hosts_background hbg) hs
    have hc' := hc.collectAll hsorted b
    obtain ⟨u, hver, hu⟩ := hs.verdict
    obtain ⟨tx, hheld, rfl, -⟩ := hver.of_termination hc'.watches.kind
    have hend := hfol.isTerminal.2 hc.watches.kind
    refine ⟨ho.configured, fun hf' => ?_, fun hf' => ?_, fun _ => ⟨tx, ?_, readings_of_update hu⟩⟩
    · cases hend.symm.trans hf'
    · cases hend.symm.trans hf'
    · refine ⟨bs ++ [b], List.prefix_refl _, (hc'.agrees_iff hsorted _).2 hheld, ?_⟩
      intro p hp hne
      -- the service was still running, so nothing was agreed on before this block
      exact ho.open_ hf p ((List.prefix_concat_iff.1 hp).resolve_left hne)

/-- Along every run the service ends on time. -/
theorem Coherent.onTime (h : a.Coherent) (hsorted : peers.Sorted) (h0 : OnTime peers old [] a)
    (hin : InOrder a.height.toNat bs) : OnTime peers old bs (a.afterBlocks bs) :=
  (h.run_induction h0 (fun _ _ _ _ _ hcoh _ _ hs ho => ho.step hsorted hcoh hs) hin).1

/-- The service has ended exactly if the peers agreed after some of the blocks. -/
theorem OnTime.isFinished_iff (ho : OnTime peers old bs a) : a.isFinished = true ↔
    ∃ pre, pre <+: bs ∧ ∃ fp, peers.Agrees (votesWith old pre) fp := by
  constructor
  · intro hf
    obtain ⟨tx, ⟨pre, hpre, hag, -⟩, -⟩ := ho.ended hf
    exact ⟨pre, hpre, _, hag⟩
  · rintro ⟨pre, hpre, fp, hag⟩
    cases hf : a.isFinished with
    | true => rfl
    | false => exact absurd hag (ho.open_ hf pre hpre fp)

theorem onTime_initial {params : AppParams} (hne : params.participants.peers ≠ [])
    (hle : params.participants.size ≤ PeerCount.limit) :
    OnTime params.participants (fun _ => none) [] (initial params) where
  configured := rfl
  carries := fun _ => by
    rw [votesWith_nil]
    exact ⟨_, rfl, Round.carries_watch hne hle _ _⟩
  open_ := fun _ pre hpre fp => by
    rw [List.prefix_nil.1 hpre, votesWith_nil]
    exact PeerSet.not_agrees_none hne hle fp
  ended := fun hf => by cases hf

/-- **Votes to end the service persist, and end it exactly on time.** In every run from the start
the background round holds the last vote of every peer over all blocks, the service has ended
exactly if the peers agreed after some block, and from then on a block changes nothing but the
height. -/
theorem termination_on_time {params : AppParams} (hbuilt : params.participants.Built)
    (hstart : start params = .ok a) (hin : InOrder 0 bs) :
    ((a.afterBlocks bs).isFinished = false → ∃ bg, (a.afterBlocks bs).background = some bg ∧
      bg.kind = .termination ∧ ∀ pk, bg.payloads.get? pk =
        if pk ∈ params.participants.peers then terminationVotes bs pk else none) ∧
    ((a.afterBlocks bs).isFinished = true ↔
      ∃ pre, pre <+: bs ∧ ∃ fp, params.participants.Agrees (terminationVotes pre) fp) ∧
    ((a.afterBlocks bs).isFinished = true →
      (∃ tx, EndedBy params.participants terminationVotes bs tx ∧
        (a.afterBlocks bs).data.terminationReached = .ok true ∧
        (a.afterBlocks bs).data.terminationTx = .ok tx) ∧
      (a.afterBlocks bs).background = none ∧
      ∀ b, b.height.toNat = bs.length + 1 → (a.afterBlocks bs).processBlock b =
        ({ a.afterBlocks bs with height := b.height }, .ok ⟨b.height, 0, 0, none⟩)) := by
  obtain ⟨⟨hne, hle⟩, rfl⟩ := start_eq_ok_iff.1 hstart
  have hinit := coherent_initial hne hle
  obtain ⟨h, hheight⟩ := hinit.afterBlocks hin
  have ho := hinit.onTime hbuilt.sorted (onTime_initial hne hle) hin
  rw [← votesWith_none]
  refine ⟨fun hf => ?_, ho.isFinished_iff, fun hf => ⟨ho.ended hf, h.ended hf, fun b hb => ?_⟩⟩
  · obtain ⟨bg, hbg, hc⟩ := ho.carries hf
    exact ⟨bg, hbg, hc.watches.kind, hc.get?⟩
  · have hzero : (initial params).height.toNat = 0 := rfl
    exact processBlock_of_finished hf (by omega)

theorem ballot?_firstVote (pk : PublicKey) : firstVote.ballot? .termination none pk =
    if pk = firstPeer then some ⟨firstPeer, Counter.zero, .termination Octets.zero⟩ else none := by
  rw [Submission.ballot?_of_open open_firstVote]
  exact ite_cond_congr (propext (and_iff_left ⟨rfl, .inl rfl⟩))

/-- The service of one peer has ended with its vote, and the next block changes the height only. -/
theorem termination_on_time_of_one :
    ((initial soloParams).afterBlocks [Block.first [firstVote]]).isFinished = true ∧
      ((initial soloParams).afterBlocks [Block.first [firstVote]]).processBlock
          ⟨Counter.ofNat 2, Octets.zero, [firstVote]⟩ =
        ({ (initial soloParams).afterBlocks [Block.first [firstVote]] with
          height := Counter.ofNat 2 }, .ok ⟨Counter.ofNat 2, 0, 0, none⟩) := by
  have hbuilt : soloParams.participants.Built := by
    have h : PeerSet.ofList [firstPeer] = soloParams.participants :=
      PeerSet.ofList_eq_of_pairwise (List.pairwise_singleton _ _)
    exact h ▸ .ofList [firstPeer]
  have hstart : start soloParams = .ok (initial soloParams) := start_eq (by decide) (by decide)
  have hin : InOrder 0 [Block.first [firstVote]] := ⟨rfl, trivial⟩
  have hvote : (terminationVotes [Block.first [firstVote]] firstPeer).map Payload.fingerprint =
      some (Vote.termination Octets.zero).fingerprint := by
    show (lastBallot _ _ [firstVote] firstPeer).map _ = _
    rw [lastBallot_singleton, ballot?_firstVote, if_pos rfl]
    rfl
  have hagrees : soloParams.participants.Agrees (terminationVotes [Block.first [firstVote]])
      (Vote.termination Octets.zero).fingerprint := by
    have hone : soloParams.participants.peers.countP (fun pk =>
        (terminationVotes [Block.first [firstVote]] pk).map Payload.fingerprint =
          some (Vote.termination Octets.zero).fingerprint) = 1 := by
      rw [show soloParams.participants.peers = [firstPeer] from rfl, List.countP_singleton,
        if_pos (decide_eq_true hvote)]
    exact ⟨1, by decide, Nat.le_of_eq hone.symm⟩
  obtain ⟨-, hiff, hend⟩ := termination_on_time hbuilt hstart hin
  have hf := hiff.2 ⟨_, List.prefix_refl _, _, hagrees⟩
  exact ⟨hf, (hend hf).2.2 _ rfl⟩

end Application

end Quorum
