import Quorum.Proofs.Application.Termination

/-!
# The end of a service that was resumed

A checkpoint does not hold the votes of the background round, so an application that is resumed from
it counts the votes to end the service anew.

* `Application.Started` : the current round has just started, as after every transition;
* `Coherent.restore_eq`, `Coherent.resumedFrom` : such an application resumes as it was, but for the
  history and the background round, and is coherent;
* `OnTime.resumes` : the one that goes on ends with the votes since the start, and the one that
  resumes with those since the checkpoint;
* `restart_ends_with` : so they end at the same block exactly if the votes since the checkpoint
  suffice whenever those since the start do;
* `restart_ends_late` : two peers for which they do not.
-/

namespace Quorum

theorem terminationVotes_append (xs ys : List Block) :
    terminationVotes (xs ++ ys) = votesWith (terminationVotes xs) ys := by
  funext pk
  unfold votesWith terminationVotes
  rw [List.flatMap_append, lastBallot_append]

theorem InOrder.of_prefix {height : Nat} {pre bs : List Block} (h : InOrder height bs)
    (hp : pre <+: bs) : InOrder height pre := by
  obtain ⟨rest, rfl⟩ := hp
  exact (inOrder_append.1 h).1

namespace Application

variable {a a' : Application} {b : Block} {bs : List Block} {peers : PeerSet}

/-! ## Resuming after a transition -/

/-- The current round has just started. -/
structure Started (a : Application) : Prop where
  height : a.current.startHeight = a.height
  payloads : a.current.payloads = SortedMap.empty
  seen : a.current.seen = []

theorem Step.started {t : Transition} (hs : Step a b a' (some t)) (h : a.Coherent) :
    a'.Started := by
  cases hs with
  | terminates hf hbg hs =>
    obtain ⟨-, -, -, keeper, -, rfl⟩ := h.of_succeeds (h.hosts_background hbg) hs
    exact ⟨rfl, rfl, rfl⟩
  | moves hf hbg _ hs =>
    obtain ⟨-, -, -, keeper, -, rfl⟩ := h.of_succeeds h.hosts_current hs
    exact ⟨rfl, rfl, rfl⟩

theorem Coherent.started_afterBlocks (h : a.Coherent) (hin : InOrder a.height.toNat (bs ++ [b]))
    {o : BlockOutcome} (ho : ((a.afterBlocks bs).processBlock b).2 = .ok o) {t : Transition}
    (ht : o.transition = some t) : (a.afterBlocks (bs ++ [b])).Started := by
  obtain ⟨hbs, hb⟩ := inOrder_concat.1 hin
  obtain ⟨h', hheight⟩ := h.afterBlocks hbs
  obtain ⟨a', o', hproc, hs, -⟩ := h'.processBlock (b := b) (by omega)
  rw [hproc] at ho
  obtain rfl : o' = o := Except.ok.inj ho
  rw [ht] at hs
  rw [afterBlocks_concat, hproc]
  exact hs.started h'

/-- What the application resumes as from its own checkpoint. -/
def resumedFrom (a : Application) : Application := resumed a.params a.table a.checkpoint a.current

theorem Started.current_eq (hs : a.Started) :
    { a.current with payloads := SortedMap.empty, seen := [] } = a.current := by
  rw [← hs.payloads, ← hs.seen]

theorem Coherent.restore_eq (h : a.Coherent) (hs : a.Started) :
    restore a.params a.checkpoint = .ok a.resumedFrom := by
  have hi : instantiate a.params a.checkpoint.data a.checkpoint.round a.checkpoint.roundCount
      a.checkpoint.height = .ok a.current := by
    have hi := h.instantiated
    rw [hs.height, hs.current_eq] at hi
    exact hi
  unfold restore
  rw [h.table]
  exact restoreWith_eq h.table h.conforms h.nonempty h.bounded hi rfl

theorem Coherent.resumedFrom (h : a.Coherent) : a.resumedFrom.Coherent where
  __ := h
  running := fun hf => by
    obtain ⟨hne, hle⟩ := h.asked_bounds .termination a.data
    exact ⟨_, if_neg (Bool.eq_false_iff.1 hf), Round.watches_watch hne hle a.roundCount a.height,
      Nat.le_refl _⟩
  ended := fun hf => if_pos hf

/-! ## Votes on both sides -/

theorem OnTime.carried (ho : OnTime peers (fun _ => none) bs a) (hf : a.isFinished = false) :
    OnTime peers (terminationVotes bs) [] a where
  configured := ho.configured
  carries := fun _ => by
    rw [votesWith_nil, ← votesWith_none]
    exact ho.carries hf
  open_ := fun _ pre hpre => by
    rw [List.prefix_nil.1 hpre, votesWith_nil, ← votesWith_none]
    exact ho.open_ hf bs (List.prefix_refl bs)
  ended := fun hf' => by cases hf.symm.trans hf'

/-- The resumed application counts the votes anew. -/
theorem Coherent.onTime_resumedFrom (h : a.Coherent) (hsorted : a.params.participants.Sorted)
    (hf : a.isFinished = false) :
    OnTime a.params.participants (fun _ => none) [] a.resumedFrom where
  configured := rfl
  carries := fun _ => by
    have hasked := RoundKind.asked_eq_of_sorted hsorted .termination a.data
    refine ⟨_, if_neg (Bool.eq_false_iff.1 hf), ?_⟩
    rw [votesWith_nil]
    show (Round.watch (RoundKind.termination.asked a.data a.params.participants) _ _).Carries _ _
    rw [hasked]
    exact Round.carries_watch h.nonempty h.bounded _ _
  open_ := fun _ pre hpre fp => by
    rw [List.prefix_nil.1 hpre, votesWith_nil]
    exact PeerSet.not_agrees_none h.nonempty h.bounded fp
  ended := fun hf' => by cases hf.symm.trans hf'

/-- An application that goes on, and the one that resumes from it without its votes. -/
theorem OnTime.resumes (ho : OnTime peers (fun _ => none) bs a) (h : a.Coherent)
    (hsorted : peers.Sorted) (hf : a.isFinished = false) {post : List Block}
    (hin : InOrder a.height.toNat post) :
    OnTime peers (terminationVotes bs) post (a.afterBlocks post) ∧
      OnTime peers (fun _ => none) post (a.resumedFrom.afterBlocks post) := by
  have hresumed := h.onTime_resumedFrom (ho.configured ▸ hsorted) hf
  rw [ho.configured] at hresumed
  exact ⟨h.onTime hsorted (ho.carried hf) hin, h.resumedFrom.onTime hsorted hresumed hin⟩

theorem Step.isFinished {t : Option Transition} (hs : Step a b a' t) (hf : a.isFinished = true) :
    a'.isFinished = true := by
  cases hs with
  | finished => exact hf
  | waits hf' | terminates hf' | moves hf' => cases hf'.symm.trans hf

/-- A service that has ended stays so. -/
theorem Coherent.isFinished_afterBlocks (h : a.Coherent) (hf : a.isFinished = true)
    (hin : InOrder a.height.toNat bs) : (a.afterBlocks bs).isFinished = true :=
  (h.run_induction (P := fun _ x => x.isFinished = true) hf
    (fun _ _ _ _ _ _ _ _ hs hfin => hs.isFinished hfin) hin).1

/-- When two applications end at the same block, if one counts votes from before and the other does
not: whenever the votes suffice, later ones alone have sufficed. -/
theorem ends_together_iff {x y : Application} {old : PublicKey → Option Payload}
    (hx : ∀ pre, pre <+: bs → OnTime peers old pre (x.afterBlocks pre))
    (hy : ∀ pre, pre <+: bs → OnTime peers (fun _ => none) pre (y.afterBlocks pre)) :
    (∀ pre, pre <+: bs → (y.afterBlocks pre).isFinished = (x.afterBlocks pre).isFinished) ↔
      ∀ pre, pre <+: bs → (∃ fp, peers.Agrees (votesWith old pre) fp) →
        ∃ p, p <+: pre ∧ ∃ fp, peers.Agrees (terminationVotes p) fp := by
  rw [← votesWith_none]
  constructor
  · intro hsame pre hpre hag
    rw [← (hy pre hpre).isFinished_iff, hsame pre hpre]
    exact (hx pre hpre).isFinished_iff.2 ⟨pre, List.prefix_refl _, hag⟩
  · intro hsuffice pre hpre
    -- later votes replace older ones, so `y` never ends before `x` does
    refine Bool.eq_iff_iff.2 ⟨fun hf => ?_, fun hf => ?_⟩
    · obtain ⟨p, hp, fp, hag⟩ := (hy pre hpre).isFinished_iff.1 hf
      refine (hx pre hpre).isFinished_iff.2 ⟨p, hp, fp, hag.mono fun pk q hq => ?_⟩
      rw [votesWith_none] at hq
      unfold votesWith
      rw [hq]
      rfl
    · obtain ⟨p, hp, hag⟩ := (hx pre hpre).isFinished_iff.1 hf
      obtain ⟨q, hq, hag'⟩ := hsuffice p (hp.trans hpre) hag
      exact (hy pre hpre).isFinished_iff.2 ⟨q, hq.trans hp, hag'⟩

/-- **When a resumed application ends together with the one that went on.** Right after a transition
an application resumes from its checkpoint, and for every continuation both end at the same block
exactly if the service had ended, or whenever the votes since its start suffice, those since the
checkpoint have sufficed. -/
theorem restart_ends_with {params : AppParams} (hbuilt : params.participants.Built)
    (hstart : start params = .ok a) (hin : InOrder 0 (bs ++ [b])) {o : BlockOutcome}
    (ho : ((a.afterBlocks bs).processBlock b).2 = .ok o) {t : Transition}
    (ht : o.transition = some t) :
    ∃ resumed, restore params (a.afterBlocks (bs ++ [b])).checkpoint = .ok resumed ∧
      ∀ post, InOrder (bs.length + 1) post →
        ((∀ pre, pre <+: post → (resumed.afterBlocks pre).isFinished =
            ((a.afterBlocks (bs ++ [b])).afterBlocks pre).isFinished) ↔
          (a.afterBlocks (bs ++ [b])).isFinished = true ∨
            ∀ pre, pre <+: post →
              (∃ fp, params.participants.Agrees (terminationVotes (bs ++ [b] ++ pre)) fp) →
              ∃ p, p <+: pre ∧ ∃ fp, params.participants.Agrees (terminationVotes p) fp) := by
  obtain ⟨⟨hne, hle⟩, rfl⟩ := start_eq_ok_iff.1 hstart
  have hinit := coherent_initial hne hle
  obtain ⟨h, hheight⟩ := hinit.afterBlocks hin
  have hparams := hinit.params_afterBlocks hin
  have hon := hinit.onTime hbuilt.sorted (onTime_initial hne hle) hin
  have hstarted := hinit.started_afterBlocks hin ho ht
  have hlen : ((initial params).afterBlocks (bs ++ [b])).height.toNat = bs.length + 1 := by
    rw [hheight, List.length_append]
    exact Nat.zero_add _
  generalize (initial params).afterBlocks (bs ++ [b]) = x at *
  have hres := h.restore_eq hstarted
  rw [hparams] at hres
  refine ⟨x.resumedFrom, hres, fun post hpost => ?_⟩
  rw [← hlen] at hpost
  have hpre {pre : List Block} (hp : pre <+: post) : InOrder x.height.toNat pre :=
    hpost.of_prefix hp
  -- a service that has ended stays so on both sides, and one that runs counts votes on both
  cases hf : x.isFinished with
  | true =>
    refine iff_of_true (fun pre hp => ?_) (.inl rfl)
    rw [h.isFinished_afterBlocks hf (hpre hp)]
    exact h.resumedFrom.isFinished_afterBlocks hf (hpre hp)
  | false =>
    have hvotes (pre : List Block) : terminationVotes (bs ++ [b] ++ pre) =
        votesWith (terminationVotes (bs ++ [b])) pre := terminationVotes_append _ _
    simp only [Bool.false_eq_true, false_or, hvotes]
    exact ends_together_iff (fun pre hp => (hon.resumes h hbuilt.sorted hf (hpre hp)).1)
      fun pre hp => (hon.resumes h hbuilt.sorted hf (hpre hp)).2

/-! ## A pair of peers -/

/-- The peer with the secret key `2`. -/
def secondPeer : PublicKey :=
  ⟨Bytes.ofNatBE 32 0x7422b9887598068e32c4448a949adb290d0f4e35b9e01b0ee5f1a1e600fe2674,
    Bytes.length_ofNatBE 32 _⟩

/-- A service of both peers. -/
def pairParams : AppParams where
  participants := ⟨[firstPeer, secondPeer]⟩

/-- The first peer registers. -/
def firstRegistration : Submission where
  payload := Wire.encode (⟨firstPeer, Counter.zero, .registration⟩ : Payload)
  sig := ⟨Bytes.ofNatBE 64 0x8e91ac229fa8b28f58e3492777ad742826bb76bb192efc4d72789a82a67ff92805d178a621018af473e3e211116ca6e1a8b9bd6e7d86dacf266e9e74d84b9d0f,
    Bytes.length_ofNatBE 64 _⟩

/-- The second peer registers. -/
def secondRegistration : Submission where
  payload := Wire.encode (⟨secondPeer, Counter.zero, .registration⟩ : Payload)
  sig := ⟨Bytes.ofNatBE 64 0xbbaf29035b1035832169f2fbea3a847ccb4b26059bb7239ab94fe2baed0261e73a3804e89176f5aa14bd35a8b21456844ef47e0f1776e39f6a9c3ddb2fc74306,
    Bytes.length_ofNatBE 64 _⟩

/-- The vote of the second peer to end the service, cast in the next round. -/
def secondVote : Submission where
  payload := Wire.encode (⟨secondPeer, Counter.ofNat 1, .termination Octets.zero⟩ : Payload)
  sig := ⟨Bytes.ofNatBE 64 0x1d557fb23e4a06d0086334b84abcad1c9f76567690b91e09dd5eb6e5a6add51b8397ff86c522b88ac9ea4ccf88e68ea7a8da2b60d7cba7bd86b09007d0e93600,
    Bytes.length_ofNatBE 64 _⟩

/-- Both peers register, and the first one votes to end the service. -/
def pairBlock : Block := Block.first [firstRegistration, secondRegistration, firstVote]

/-- The second peer votes as well. -/
def lateBlock : Block := ⟨Counter.ofNat 2, pairBlock.hash, [secondVote]⟩

/-- Both peers vote. -/
def againBlock : Block := ⟨Counter.ofNat 2, pairBlock.hash, [firstVote, secondVote]⟩

/-- What the signed submissions say. -/
theorem opened_pair :
    firstRegistration.open = .ok ⟨firstPeer, Counter.zero, .registration⟩ ∧
      secondRegistration.open = .ok ⟨secondPeer, Counter.zero, .registration⟩ ∧
      secondVote.open = .ok ⟨secondPeer, Counter.ofNat 1, .termination Octets.zero⟩ := by
  decide +kernel

theorem firstPeer_lt_secondPeer : compare firstPeer secondPeer = .lt := rfl

theorem secondPeer_ne_firstPeer : secondPeer ≠ firstPeer :=
  (SortedMap.ne_of_compare_lt firstPeer_lt_secondPeer).symm

theorem built_pair : pairParams.participants.Built := by
  have h : PeerSet.ofList [firstPeer, secondPeer] = pairParams.participants :=
    PeerSet.ofList_eq_of_pairwise (List.pairwise_pair.2 firstPeer_lt_secondPeer)
  exact h ▸ .ofList [firstPeer, secondPeer]

theorem start_pair : start pairParams = .ok (initial pairParams) :=
  start_eq (by decide) (by decide)

theorem coherent_initial_pair : (initial pairParams).Coherent :=
  coherent_initial (by decide) (by decide)

/-- The registration with both peers in it. -/
def pairRegistered : Round :=
  ((initial pairParams).current.count ⟨firstPeer, Counter.zero, .registration⟩).count
    ⟨secondPeer, Counter.zero, .registration⟩

theorem hears_pair {pk : PublicKey} (hpk : pk ∈ [firstPeer, secondPeer]) :
    (initial pairParams).current.hears pk = true := by
  unfold Round.hears
  rw [show (initial pairParams).current.participants = pairParams.participants from rfl,
    (PeerSet.contains_iff built_pair.sorted).2 hpk]
  rfl

theorem collectAll_pairBlock :
    (initial pairParams).current.collectAll pairBlock.submissions = pairRegistered := by
  have hfirst : (initial pairParams).current.collect firstRegistration = _ :=
    Round.collect_of_accepted opened_pair.1
      (Round.accept_eq_ok_iff.2 ⟨⟨rfl, hears_pair (by simp), rfl, .inr rfl⟩, rfl⟩)
  have hsecond : ((initial pairParams).current.count
      ⟨firstPeer, Counter.zero, .registration⟩).collect secondRegistration = _ :=
    Round.collect_of_accepted opened_pair.2.1
      (Round.accept_eq_ok_iff.2 ⟨⟨rfl, hears_pair (by simp), rfl, .inr rfl⟩, rfl⟩)
  rw [show pairBlock.submissions = [firstRegistration, secondRegistration, firstVote] from rfl,
    Round.collectAll_cons, hfirst, Round.collectAll_cons, hsecond, Round.collectAll_singleton]
  refine Round.collect_of_votes open_firstVote ?_
  show RoundKind.registrationStartup.votes? ≠ some .termination
  decide

theorem get?_pairRegistered {pk : PublicKey} (hpk : pk ∈ [firstPeer, secondPeer]) :
    (pairRegistered.payloads.get? pk).map Payload.fingerprint =
      some Vote.registration.fingerprint := by
  unfold pairRegistered
  rw [Round.get?_count, Round.get?_count]
  rcases List.mem_pair.1 hpk with rfl | rfl
  · rw [if_neg secondPeer_ne_firstPeer.symm, if_pos rfl]
    rfl
  · rw [if_pos rfl]
    rfl

/-- The first block ends the registration. -/
theorem exists_transition_pairBlock : ∃ o t,
    ((initial pairParams).processBlock pairBlock).2 = .ok o ∧ o.transition = some t := by
  have h := coherent_initial_pair
  obtain ⟨a', o, hproc, hs, -⟩ := h.processBlock (b := pairBlock) rfl
  refine ⟨o, ?_⟩
  rw [hproc]
  generalize o.transition = t at hs
  cases hs with
  | finished hf => cases hf
  | terminates | moves => exact ⟨_, rfl, rfl⟩
  | waits _ _ idle =>
    have hw := h.wellFormed.collectAll h.collecting pairBlock.submissions
    rw [received_current, collectAll_pairBlock] at idle
    rw [collectAll_pairBlock] at hw
    have hlt := hw.held_lt (.inr rfl) idle Vote.registration.fingerprint
    have hall : pairRegistered.held Vote.registration.fingerprint =
        [firstPeer, secondPeer].length := by
      rw [hw.held_eq_countP (SortedMap.nodup_of_pairwise built_pair.sorted)]
      exact List.countP_eq_length.2 fun pk hpk => decide_eq_true (get?_pairRegistered hpk)
    rw [hall, show pairRegistered.threshold = 2 from rfl] at hlt
    exact absurd hlt (by decide)

/-- The pair agrees on what both peers vote for. -/
theorem agrees_pair_iff {votes : PublicKey → Option Payload} {fp : Fingerprint} :
    pairParams.participants.Agrees votes fp ↔
      (votes firstPeer).map Payload.fingerprint = some fp ∧
        (votes secondPeer).map Payload.fingerprint = some fp := by
  have hpeers : pairParams.participants.peers = [firstPeer, secondPeer] := rfl
  have htwo : pairParams.participants.supermajority = [firstPeer, secondPeer].length := rfl
  rw [PeerSet.agrees_iff (by decide), htwo, hpeers]
  constructor
  · intro h
    have hall := List.countP_eq_length.1 (Nat.le_antisymm List.countP_le_length h)
    exact ⟨of_decide_eq_true (hall firstPeer (by simp)),
      of_decide_eq_true (hall secondPeer (by simp))⟩
  · rintro ⟨hfirst, hsecond⟩
    refine Nat.le_of_eq (List.countP_eq_length.2 fun pk hpk => decide_eq_true ?_).symm
    rcases List.mem_pair.1 hpk with rfl | rfl
    · exact hfirst
    · exact hsecond

/-- A peer that has not voted keeps the pair from agreeing. -/
theorem not_agrees_pair (pk : PublicKey) (hpk : pk ∈ [firstPeer, secondPeer])
    (hv : terminationVotes bs pk = none) {pre : List Block} (hp : pre <+: bs) (fp : Fingerprint) :
    ¬ pairParams.participants.Agrees (terminationVotes pre) fp := by
  obtain ⟨rest, rfl⟩ := hp
  rw [terminationVotes_append, votesWith, Option.or_eq_none_iff] at hv
  intro h
  obtain ⟨hfirst, hsecond⟩ := agrees_pair_iff.1 h
  rcases List.mem_pair.1 hpk with rfl | rfl
  · rw [hv.2] at hfirst
    cases hfirst
  · rw [hv.2] at hsecond
    cases hsecond

section
variable (pk : PublicKey)

theorem ballot?_firstRegistration : firstRegistration.ballot? .termination none pk = none := by
  rw [Submission.ballot?_of_open opened_pair.1]
  exact if_neg fun h => by cases h.2.1

theorem ballot?_secondRegistration : secondRegistration.ballot? .termination none pk = none := by
  rw [Submission.ballot?_of_open opened_pair.2.1]
  exact if_neg fun h => by cases h.2.1

theorem ballot?_secondVote : secondVote.ballot? .termination none pk =
    if pk = secondPeer then some ⟨secondPeer, Counter.ofNat 1, .termination Octets.zero⟩
    else none := by
  rw [Submission.ballot?_of_open opened_pair.2.2]
  exact ite_cond_congr (propext (and_iff_left ⟨rfl, .inl rfl⟩))

/-- Only the first peer votes in the first block. -/
theorem terminationVotes_pairBlock : terminationVotes [pairBlock] pk =
    if pk = firstPeer then some ⟨firstPeer, Counter.zero, .termination Octets.zero⟩ else none := by
  show lastBallot _ _ ([firstRegistration] ++ ([secondRegistration] ++ [firstVote])) pk = _
  rw [lastBallot_append, lastBallot_append, lastBallot_singleton, lastBallot_singleton,
    lastBallot_singleton, ballot?_firstRegistration, ballot?_secondRegistration, Option.or_none,
    Option.or_none, ballot?_firstVote]

/-- Only the second peer votes in the second block. -/
theorem terminationVotes_lateBlock : terminationVotes [lateBlock] pk =
    if pk = secondPeer then some ⟨secondPeer, Counter.ofNat 1, .termination Octets.zero⟩
    else none := (lastBallot_singleton _ _ _ _).trans (ballot?_secondVote pk)

end

/-- The pair that votes again agrees. -/
theorem agrees_againBlock : pairParams.participants.Agrees (terminationVotes [againBlock])
    (Vote.termination Octets.zero).fingerprint := by
  have hvotes (pk : PublicKey) : terminationVotes [againBlock] pk =
      (secondVote.ballot? .termination none pk).or (firstVote.ballot? .termination none pk) := by
    show lastBallot _ _ ([firstVote] ++ [secondVote]) pk = _
    rw [lastBallot_append, lastBallot_singleton, lastBallot_singleton]
  refine agrees_pair_iff.2 ⟨?_, ?_⟩
  · rw [hvotes, ballot?_secondVote, if_neg secondPeer_ne_firstPeer.symm, ballot?_firstVote,
      if_pos rfl]
    rfl
  · rw [hvotes, ballot?_secondVote, if_pos rfl]
    rfl

/-- The pair whose first peer votes again after the checkpoint. -/
theorem restart_ends_with_of_pair : ∃ resumed,
    restore pairParams ((initial pairParams).afterBlocks [pairBlock]).checkpoint = .ok resumed ∧
      ∀ pre, pre <+: [againBlock] → (resumed.afterBlocks pre).isFinished =
        (((initial pairParams).afterBlocks [pairBlock]).afterBlocks pre).isFinished := by
  obtain ⟨o, t, ho, ht⟩ := exists_transition_pairBlock
  have hin : InOrder 0 ([] ++ [pairBlock]) := ⟨rfl, trivial⟩
  obtain ⟨resumed, hres, hiff⟩ := restart_ends_with built_pair start_pair hin ho ht
  refine ⟨resumed, hres, (hiff [againBlock] ⟨rfl, trivial⟩).2 (.inr fun pre hp ⟨fp, hag⟩ => ?_)⟩
  rcases List.prefix_concat_iff.1 (show pre <+: [] ++ [againBlock] from hp) with rfl | hnil
  · exact ⟨_, List.prefix_refl _, _, agrees_againBlock⟩
  · obtain rfl := List.prefix_nil.1 hnil
    refine absurd hag (not_agrees_pair secondPeer (by simp) ?_ (List.prefix_refl _) fp)
    exact (terminationVotes_pairBlock _).trans (if_neg secondPeer_ne_firstPeer)

/-- **A resumed application can miss the end of the service.** The pair agrees after the second
block, but the vote in the first one is lost to an application that resumes between them. -/
theorem restart_ends_late : ∃ o t resumed,
    ((initial pairParams).processBlock pairBlock).2 = .ok o ∧ o.transition = some t ∧
      restore pairParams ((initial pairParams).afterBlocks [pairBlock]).checkpoint = .ok resumed ∧
      (((initial pairParams).afterBlocks [pairBlock]).afterBlocks [lateBlock]).isFinished = true ∧
      (resumed.afterBlocks [lateBlock]).isFinished = false := by
  obtain ⟨o, t, ho, ht⟩ := exists_transition_pairBlock
  have hin : InOrder 0 ([] ++ [pairBlock]) := ⟨rfl, trivial⟩
  have hstarted := coherent_initial_pair.started_afterBlocks hin ho ht
  rw [List.nil_append] at hin hstarted
  obtain ⟨h, hheight⟩ := coherent_initial_pair.afterBlocks hin
  have hparams := coherent_initial_pair.params_afterBlocks hin
  have hon := coherent_initial_pair.onTime built_pair.sorted
    (onTime_initial (by decide) (by decide)) hin
  have hlate : InOrder (initial pairParams).height.toNat.succ [lateBlock] := ⟨rfl, trivial⟩
  rw [show (initial pairParams).height.toNat.succ = _ from hheight.symm] at hlate
  generalize (initial pairParams).afterBlocks [pairBlock] = x at *
  have hres := h.restore_eq hstarted
  rw [hparams] at hres
  have hopen : x.isFinished = false := by
    refine Bool.eq_false_iff.2 fun hf => ?_
    obtain ⟨pre, hpre, fp, hag⟩ := hon.isFinished_iff.1 hf
    rw [votesWith_none] at hag
    refine not_agrees_pair secondPeer (by simp) ?_ hpre fp hag
    exact (terminationVotes_pairBlock _).trans (if_neg secondPeer_ne_firstPeer)
  obtain ⟨hgoes, hresumes⟩ := hon.resumes h built_pair.sorted hopen hlate
  refine ⟨o, t, x.resumedFrom, ho, ht, hres, ?_, Bool.eq_false_iff.2 fun hf => ?_⟩
  · refine hgoes.isFinished_iff.2 ⟨_, List.prefix_refl _,
      (Vote.termination Octets.zero).fingerprint, agrees_pair_iff.2 ⟨?_, ?_⟩⟩
    · unfold votesWith
      rw [terminationVotes_lateBlock, if_neg secondPeer_ne_firstPeer.symm,
        terminationVotes_pairBlock, if_pos rfl]
      rfl
    · unfold votesWith
      rw [terminationVotes_lateBlock, if_pos rfl]
      rfl
  · obtain ⟨pre, hpre, fp, hag⟩ := hresumes.isFinished_iff.1 hf
    rw [votesWith_none] at hag
    refine not_agrees_pair firstPeer (by simp) ?_ hpre fp hag
    exact (terminationVotes_lateBlock _).trans (if_neg secondPeer_ne_firstPeer.symm)

end Application

end Quorum
