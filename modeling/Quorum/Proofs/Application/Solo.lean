import Quorum.Proofs.Application.Instance

/-!
# A peer alone

The only peer of a service decides every round by itself, so that a run can be followed without
counting votes.

* `WellFormed.decide_alone` : a round of one peer decides once the peer has voted;
* `Application.Alone` : the service after so many votes of its only peer, in a fresh round;
* `Alone.vote` : its next vote ends this round as well.
-/

namespace Quorum

/-- What the only vote of a round comes to. -/
def RoundKind.soleDecision (k : RoundKind) (p : Payload) : Decision :=
  if k.strategy = .sameUntilAll ∨ k.strategy = .differentUntilThreshold then
    .collected (SortedMap.empty.insert p.sender p)
  else .agreed p

namespace Round

variable {r : Round} {pk : PublicKey} {p : Payload}

theorem WellFormed.threshold_alone (h : r.WellFormed) (hone : r.participants.peers = [pk]) :
    r.threshold = 1 := by
  have hsize : r.participants.size = 1 := congrArg List.length hone
  rw [h.threshold_eq]
  unfold votesNeeded PeerSet.supermajority
  rw [hsize]
  cases r.kind.strategy <;> rfl

/-- **A round of one peer decides once the peer has voted.** -/
theorem WellFormed.decide_alone (h : r.WellFormed) (hone : r.participants.peers = [pk])
    (hk : r.kind.strategy ≠ .terminal) (hp : r.payloads = SortedMap.empty.insert p.sender p)
    (height : Height) (timeout : UInt64) :
    r.decide height timeout = .ok (some (r.kind.soleDecision p)) := by
  have hget (k : PublicKey) (q : Payload) (hq : r.payloads.get? k = some q) : q = p := by
    rw [hp, SortedMap.get?_insert_of] at hq
    split_ifs at hq
    · exact (Option.some.inj hq).symm
    · cases hq
  have hheld : r.threshold ≤ r.held p.fingerprint := by
    rw [h.threshold_alone hone]
    refine held_pos_iff.2 ⟨p.sender, p, ?_, rfl⟩
    rw [hp, SortedMap.get?_insert_of, if_pos rfl]
  obtain ⟨d, hd, hcases⟩ := h.decide_of_held hk hheld height timeout
  rw [hd]
  unfold RoundKind.soleDecision
  split_ifs at hcases ⊢
  · rw [hcases, hp]
  · obtain ⟨k, q, hq, -, rfl⟩ := hcases
    rw [hget k q hq]

theorem endBlock_of_decided {data data' : Snapshot} {e : Event} {height : Height} {timeout : UInt64}
    {d : Decision} (hc : r.concluded = false) (hd : r.decide height timeout = .ok (some d))
    (hdata : r.kind.conclude d data = .ok (data', e)) :
    (r.endBlock data height timeout).2 = .ok (some (data', e)) := by
  unfold endBlock
  simp [hc, hd, hdata]

/-- A background round that nobody has voted in does not end. -/
theorem Watches.endBlock_quiet {peers : PeerSet} (h : r.Watches peers)
    (hq : r.payloads = SortedMap.empty) {data : Snapshot} {height : Height} {timeout : UInt64}
    {v : Option (Snapshot × Event)} (hperiods : ∃ periods, data.periodCount = .ok periods)
    (hversion : data.version.toNat + 1 < UInt64.size)
    (hv : (r.endBlock data height timeout).2 = .ok v) : v = none := by
  rcases h.wellFormed.endBlock_cases height timeout h.collecting hperiods hversion with
    ⟨hend, -⟩ | ⟨u, e, data', hver, -, -⟩
  · rw [hend] at hv
    cases hv
    rfl
  · obtain ⟨tx, hheld, -⟩ := hver.of_termination h.kind
    obtain ⟨k, q, hget, -⟩ := held_pos_iff.1 (Nat.lt_of_lt_of_le h.wellFormed.threshold_pos hheld)
    rw [hq] at hget
    cases hget

end Round

namespace Application

/-- The service of one peer after `n` votes, in a round of a kind that nobody has voted in. -/
structure Alone (pk : PublicKey) (n : Nat) (k : RoundKind) (data : Snapshot) (x : Application) :
    Prop where
  coherent : x.Coherent
  peers : x.params.participants = ⟨[pk]⟩
  kind : x.current.kind = k
  data : x.data = data
  roundCount : x.roundCount.toNat = n
  height : x.height.toNat = n
  fresh : x.current.payloads = SortedMap.empty
  /-- The peer has not voted to end the service. -/
  quiet : ∀ bg, x.background = some bg → bg.payloads = SortedMap.empty

variable {x : Application} {b : Block} {pk : PublicKey} {n : Nat} {k target : RoundKind}
  {data data' : Snapshot} {e : Event} {s : Submission} {p : Payload}

theorem sorted_singleton (pk : PublicKey) : (⟨[pk]⟩ : PeerSet).Sorted := List.pairwise_singleton _ _

theorem Alone.participants (h : Alone pk n k data x) : x.current.participants = ⟨[pk]⟩ := by
  rw [h.coherent.current_participants, h.peers, RoundKind.asked_eq_of_sorted (sorted_singleton pk)]

theorem Alone.check (h : Alone pk n k data x) (hvotes : k.votes? = some p.kind)
    (hsender : p.sender = pk) (hcount : p.roundCount.toNat = n)
    (hkeeper : ∀ keeper, k.keeper? data = .ok (some keeper) → keeper = pk) :
    x.current.check p = .ok () := by
  refine Round.check_eq_ok_iff.2 ⟨h.coherent.collecting, ?_, by rw [h.kind, hvotes], .inr ?_⟩
  · have hread := h.coherent.current_keeper
    rw [h.kind, h.data] at hread
    unfold Round.hears
    rw [h.participants, hsender, (PeerSet.contains_iff (sorted_singleton pk)).2 List.mem_cons_self]
    cases hk : x.current.keeper with
    | none => simp
    | some keeper =>
      rw [hk] at hread
      simp [hkeeper keeper hread]
  · rw [h.coherent.current_roundCount, ← Counter.toNat_inj, hcount, h.roundCount]

/-- A vote that counts settles the current round. -/
theorem Alone.verdict_current (h : Alone pk n k data x) (hcheck : x.current.check p = .ok ())
    (hcollect : x.current.collectAll b.submissions = x.current.count p)
    (hc : k.conclude (k.soleDecision p) data = .ok (data', e)) :
    x.isFinished = false ∧ x.verdict b x.current = .ok (some (data', e)) := by
  have hstrategy : x.current.kind.strategy ≠ .terminal := by
    have hvotes := (Round.check_eq_ok_iff.1 hcheck).2.2.1
    intro hs
    cases hk : x.current.kind <;> rw [hk] at hs hvotes <;>
      first | exact absurd hs (by decide) | cases hvotes
  have hpayloads : (x.current.count p).payloads = SortedMap.empty.insert p.sender p :=
    congrArg (SortedMap.insert · p.sender p) h.fresh
  have hdecide := (h.coherent.wellFormed.count hcheck).decide_alone
    (congrArg PeerSet.peers h.participants) hstrategy hpayloads b.height x.params.roundTimeout
  rw [← h.kind, ← h.data] at hc
  refine ⟨decide_eq_false hstrategy, ?_⟩
  unfold verdict
  rw [hcollect]
  exact Round.endBlock_of_decided (r := x.current.count p) h.coherent.collecting hdecide hc

section
variable (h : Alone pk n k data x) (hsub : b.submissions = [s]) (hs : s.open = .ok p)
  (hvotes : k.votes? = some p.kind)
include h hsub hs hvotes

/-- The background round does not listen to the votes of the current one. -/
theorem Alone.verdict_background (hb : b.height.toNat = n + 1) {bg : Round}
    (hbg : x.background = some bg) :
    bg.collectAll b.submissions = bg ∧ ∀ v, x.verdict b bg = .ok v → v = none := by
  have hw := (h.coherent.background_watches hbg).1
  have hdrop : bg.collectAll b.submissions = bg := by
    rw [hsub]
    refine Round.collect_of_votes hs ?_
    rw [hw.kind, ← hvotes, ← h.kind]
    exact votes?_ne_termination h.coherent.foreground
  have hversion := h.coherent.version_lt (b := b) (by rw [hb, h.height])
  refine ⟨hdrop, fun v hv => ?_⟩
  unfold verdict at hv
  rw [hdrop] at hv
  exact hw.endBlock_quiet (h.quiet bg hbg) h.coherent.exists_periodCount hversion hv

/-- **The next vote of the only peer ends the round.** -/
theorem Alone.vote (hb : b.height.toNat = n + 1) (hsender : p.sender = pk)
    (hcount : p.roundCount.toNat = n)
    (hkeeper : ∀ keeper, k.keeper? data = .ok (some keeper) → keeper = pk)
    (hc : k.conclude (k.soleDecision p) data = .ok (data', e))
    (ht : (⟨.registrationStartup, Table.bundledEdges, some Table.bundledBackground⟩ : Table).target
      k e = .ok target) : Alone pk (n + 1) target data' (x.processBlock b).1 := by
  have hcheck := h.check hvotes hsender hcount hkeeper
  have hcollect : x.current.collectAll b.submissions = x.current.count p := by
    rw [hsub]
    exact Round.collect_of_accepted hs
      (Round.accept_eq_ok_iff.2 ⟨Round.check_eq_ok_iff.1 hcheck, rfl⟩)
  obtain ⟨hf, hcurrent⟩ := h.verdict_current hcheck hcollect hc
  have hb' : b.height.toNat = x.height.toNat + 1 := by rw [hb, h.height]
  obtain ⟨bg, hbg, -⟩ := h.coherent.running hf
  obtain ⟨hdrop, hquiet⟩ := h.verdict_background hsub hs hvotes hb hbg
  obtain ⟨v, w, y, t, hv, hw, hend, hending⟩ := h.coherent.ending hbg hb'
  obtain rfl := hquiet v hv
  cases hcurrent.symm.trans hw
  have hcoherent := h.coherent.next b
  rw [processBlock_of_running h.coherent.apart hf hb', hend] at hcoherent ⊢
  cases hending with
  | moves hbg' hsucc =>
    cases hbg.symm.trans hbg'
    obtain ⟨-, -, -, keeper, -, rfl⟩ := h.coherent.of_succeeds h.coherent.hosts_current hsucc
    have hfollows := hsucc.follows
    rw [← Except.ok.inj (Table.bundled_eq.symm.trans h.coherent.table), h.kind, ht] at hfollows
    refine ⟨hcoherent, h.peers, (Except.ok.inj hfollows).symm, rfl, ?_, hb, rfl, ?_⟩
    · rw [← h.roundCount]
      exact Counter.next?_eq_some.1 hsucc.counts
    · rintro _ ⟨⟩
      rw [hdrop]
      by_cases hasked : bg.participants = RoundKind.termination.asked data' x.params.participants
      · rw [Round.kept_of_asks hasked]
        exact h.quiet bg hbg
      · rw [Round.kept_of_others fun r hr => by cases hr; exact hasked]
        rfl

end

/-- Its next vote of a run ends the last round. -/
theorem Alone.concat {a : Application} {bs : List Block}
    (h : Alone pk n k data (a.afterBlocks bs)) (b : Block) (hsub : b.submissions = [s])
    (hs : s.open = .ok p) (hvotes : k.votes? = some p.kind) (hb : b.height.toNat = n + 1)
    (hsender : p.sender = pk) (hcount : p.roundCount.toNat = n)
    (hkeeper : ∀ keeper, k.keeper? data = .ok (some keeper) → keeper = pk)
    (hc : k.conclude (k.soleDecision p) data = .ok (data', e))
    (ht : (⟨.registrationStartup, Table.bundledEdges, some Table.bundledBackground⟩ : Table).target
      k e = .ok target) : Alone pk (n + 1) target data' (a.afterBlocks (bs ++ [b])) := by
  rw [afterBlocks_concat]
  exact h.vote hsub hs hvotes hb hsender hcount hkeeper hc ht

/-- A service of one peer starts like this. -/
theorem alone_initial {params : AppParams} (h : params.participants = ⟨[pk]⟩) :
    Alone pk 0 .registrationStartup Snapshot.empty (initial params) where
  coherent := by
    apply coherent_initial <;> rw [h]
    · exact List.cons_ne_nil _ _
    · exact Nat.succ_le_of_lt (by decide : 0 < PeerCount.limit)
  peers := h
  kind := rfl
  data := rfl
  roundCount := rfl
  height := rfl
  fresh := rfl
  quiet := by
    rintro _ ⟨⟩
    rfl

end Application

end Quorum
