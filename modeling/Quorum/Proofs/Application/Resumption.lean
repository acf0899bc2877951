import Quorum.Proofs.Application.Restart
import Quorum.Proofs.Application.SideBySide

/-!
# A resumed application follows the one that went on

* `Round.Lags` : a background round that holds some of the votes of another one; what it decides the
  other one decides as well (`Lags.endBlock_eq_none`);
* `Application.BackgroundEnds`, `Undisturbed` : the background round ends at a block, and at none of
  a list of blocks;
* `Alike.undisturbed` : two applications whose background rounds lag one behind the other have the
  same foreground for as long as the first one is undisturbed, and so is the second one;
* `resumption_follows` : so has an application that resumes from a checkpoint.
-/

namespace Quorum

namespace Round

/-! ## Background rounds with fewer votes -/

/-- The second round asks the same peers for the same votes as the first one, and holds no vote that
the first one does not hold. -/
structure Lags (r r' : Round) : Prop where
  kind : r'.kind = r.kind
  countTag : r'.countTag = r.countTag
  participants : r'.participants = r.participants
  keeper : r'.keeper = r.keeper
  threshold : r'.threshold = r.threshold
  concluded : r'.concluded = r.concluded
  votes : ∀ {pk p}, r'.payloads.get? pk = some p → r.payloads.get? pk = some p

variable {r r' : Round}

theorem Lags.refl (r : Round) : r.Lags r := ⟨rfl, rfl, rfl, rfl, rfl, rfl, id⟩

theorem Lags.hears (h : r.Lags r') : r'.hears = r.hears := by
  unfold Round.hears
  rw [h.participants, h.keeper]

/-- A fresh round lags behind one that runs. -/
theorem Watches.lags {peers : PeerSet} (h : r.Watches peers) (roundCount : RoundCount)
    (height : Height) : r.Lags (watch peers roundCount height) where
  kind := h.kind.symm
  countTag := by
    unfold Round.countTag
    rw [h.anyRoundCount]
    rfl
  participants := h.participants.symm
  keeper := h.keeper.symm
  threshold := by
    rw [h.wellFormed.threshold_eq, h.kind, h.participants]
    rfl
  concluded := h.collecting.symm
  votes hp := by cases hp

theorem Lags.collectAll (h : r.Lags r') (hc : r.concluded = false) (subs : List Submission) :
    (r.collectAll subs).Lags (r'.collectAll subs) where
  kind := by rw [collectAll_kind, collectAll_kind, h.kind]
  countTag := by rw [collectAll_countTag, collectAll_countTag, h.countTag]
  participants := by rw [collectAll_participants, collectAll_participants, h.participants]
  keeper := by rw [collectAll_keeper, collectAll_keeper, h.keeper]
  threshold := by rw [collectAll_threshold, collectAll_threshold, h.threshold]
  concluded := by rw [collectAll_concluded, collectAll_concluded, h.concluded]
  votes {pk p} hp := by
    rw [get?_collectAll (h.concluded.trans hc), h.hears, h.kind, h.countTag] at hp
    rw [get?_collectAll hc]
    split_ifs at hp ⊢
    · cases hl : lastBallot r.kind r.countTag subs pk with
      | some q =>
        rw [hl] at hp
        exact hp
      | none =>
        rw [hl] at hp
        exact h.votes hp
    · exact h.votes hp

theorem Lags.held_le (h : r.Lags r') (fp : Fingerprint) : r'.held fp ≤ r.held fp := by
  rw [← length_holders, ← length_holders]
  refine (r'.nodup_holders fp).length_le_of_subset fun pk hpk => ?_
  obtain ⟨p, hp, hf⟩ := mem_holders_iff.1 hpk
  exact mem_holders_iff.2 ⟨p, h.votes hp, hf⟩

/-- **A round that lags behind one that decides nothing decides nothing either.** -/
theorem Lags.endBlock_eq_none (h : r.Lags r') {peers : PeerSet} (hw : r.Watches peers)
    (hw' : r'.Watches peers) {data : Snapshot} {height : Height} {timeout : UInt64}
    (hp : ∃ periods, data.periodCount = .ok periods) (hv : data.version.toNat + 1 < UInt64.size)
    (hnone : (r.endBlock data height timeout).2 = .ok none) :
    (r'.endBlock data height timeout).2 = .ok none := by
  have hstrategy : r.kind.strategy = .sameUntilThreshold := by
    rw [hw.kind]
    rfl
  have hlt := hw.wellFormed.held_lt (.inl hstrategy) (decide_of_endBlock hw.collecting hnone)
  rcases hw'.wellFormed.endBlock_cases height timeout hw'.collecting hp hv with
    ⟨hend, -⟩ | ⟨u, e, data', hver, -, -⟩
  · exact congrArg Prod.snd hend
  · obtain ⟨tx, ht, -⟩ := hver.of_termination hw'.kind
    have := h.held_le (Vote.termination tx).fingerprint
    have := hlt (Vote.termination tx).fingerprint
    have := h.threshold
    omega

end Round

namespace Application

open Round (Lags)

theorem matching_lags : Matching Eq Lags where
  refl _ := rfl
  kind h := h ▸ rfl
  takes h := h ▸ rfl
  refl_background := .refl
  takes_background h := Round.takes_congr h.concluded h.hears h.kind h.countTag
  participants h := h.participants

/-! ## Until the background round ends -/

/-- The background round ends at a block. -/
def BackgroundEnds (a : Application) (b : Block) : Prop :=
  ∃ res, ((({ a with height := b.height } : Application).routeAll b.submissions).1.endBackground
    b.height).2 = .ok (some res)

/-- The background round ends at none of the blocks. -/
def Undisturbed (a : Application) : List Block → Prop
  | [] => True
  | b :: bs => ¬ a.BackgroundEnds b ∧ (a.processBlock b).1.Undisturbed bs

/-- The rounds in the foreground and the agreed data are the same. -/
structure SameForeground (x y : Application) : Prop where
  current : y.current = x.current
  previous : y.previous = x.previous
  roundCount : y.roundCount = x.roundCount
  height : y.height = x.height
  data : y.data = x.data

variable {a x y : Application} {b : Block} {bs : List Block}

theorem Alike.sameForeground {B : Round → Round → Prop} (h : Alike Eq B x y) :
    SameForeground x y :=
  ⟨h.current.symm, h.previous, h.roundCount, h.height, h.data⟩

theorem not_backgroundEnds (h : x.Apart) (hbg : x.background = none) : ¬ x.BackgroundEnds b := by
  rintro ⟨res, hres⟩
  rw [routeAll_eq_countP (a := { x with height := b.height }) h] at hres
  unfold endBackground Application.collectAll at hres
  simp only [hbg] at hres
  cases hres

theorem backgroundEnds_iff (h : x.Apart) {bg : Round} (hbg : x.background = some bg)
    {v : Option (Snapshot × Event)} (hv : x.verdict b bg = .ok v) :
    x.BackgroundEnds b ↔ v.isSome := by
  have hbg' : (({ x with height := b.height } : Application).collectAll b.submissions).background =
      some (bg.collectAll b.submissions) := received_background hbg b
  unfold BackgroundEnds
  rw [routeAll_eq_countP (a := { x with height := b.height }) h,
    endBackground_eq hbg' (Prod.ext rfl hv)]
  cases v with
  | none =>
    refine iff_of_false ?_ Bool.false_ne_true
    rintro ⟨res, hres⟩
    cases hres
  | some res => exact iff_of_true ⟨_, rfl⟩ rfl

/-- A block at which the background round ends is the last one of the service. -/
theorem Coherent.isFinished_of_backgroundEnds (h : x.Coherent)
    (hb : b.height.toNat = x.height.toNat + 1) (he : x.BackgroundEnds b) :
    (x.processBlock b).1.isFinished = true := by
  cases hbg : x.background with
  | none => exact absurd he (not_backgroundEnds h.apart hbg)
  | some bg =>
    have hf : x.isFinished = false := Bool.eq_false_iff.2 fun hf => by
      rw [h.ended hf] at hbg
      cases hbg
    obtain ⟨v, o, x', t, hv, -, hend, hending⟩ := h.ending hbg hb
    rw [backgroundEnds_iff h.apart hbg hv] at he
    rw [processBlock_of_running h.apart hf hb, hend]
    cases hending with
    | waits => cases he
    | moves => cases he
    | preempts hbg' hs =>
      obtain ⟨-, ⟨_, hfol⟩, -, keeper, -, rfl⟩ := h.of_succeeds (h.hosts_background hbg') hs
      exact hfol.isTerminal.2 (h.background_watches hbg').1.kind

/-- A background round that does not end at a block has no verdict after it. -/
theorem Coherent.verdict_eq_none (h : x.Coherent) {bg : Round} (hbg : x.background = some bg)
    (hb : b.height.toNat = x.height.toNat + 1) (hu : ¬ x.BackgroundEnds b) :
    x.verdict b bg = .ok none := by
  obtain ⟨v, o, x', t, hv, -⟩ := h.ending hbg hb
  have hnone := mt (backgroundEnds_iff h.apart hbg hv).2 hu
  rw [Option.not_isSome_iff_eq_none] at hnone
  rw [hv, hnone]

/-- Nor has the one that lags behind it. -/
theorem Alike.verdict_eq_none (h : Alike Eq Lags x y) (hx : x.Coherent) (hy : y.Coherent)
    (hb : b.height.toNat = x.height.toNat + 1) {r r' : Round} (hr : x.background = some r)
    (hr' : y.background = some r') (hnone : x.verdict b r = .ok none) :
    y.verdict b r' = .ok none := by
  have hw := (hx.background_watches hr).1
  have hw' := (hy.background_watches hr').1
  have hlags := h.background
  rw [hr, hr', Option.rel_some_some] at hlags
  rw [h.data, h.params] at hw'
  have hversion := hx.version_le
  have hheight := b.height.toNat_lt
  unfold verdict
  rw [h.data, h.params]
  exact (hlags.collectAll hw.collecting b.submissions).endBlock_eq_none (hw.collectAll _)
    (hw'.collectAll _) hx.exists_periodCount (by omega) hnone

/-- **While the first of two such applications is undisturbed, the next block does the same to
both, and does not disturb the second one.** -/
theorem Alike.undisturbed_step (h : Alike Eq Lags x y) (hx : x.Coherent) (hy : y.Coherent)
    (hb : b.height.toNat = x.height.toNat + 1) (hu : ¬ x.BackgroundEnds b) :
    (y.processBlock b).2 = (x.processBlock b).2 ∧
      Alike Eq Lags (x.processBlock b).1 (y.processBlock b).1 ∧ ¬ y.BackgroundEnds b := by
  -- neither background round has a verdict, and the current rounds are the same
  have hnone {r : Round} (hr : x.background = some r) := hx.verdict_eq_none hr hb hu
  have hnone' {r r' : Round} (hr : x.background = some r) (hr' : y.background = some r') :=
    h.verdict_eq_none hx hy hb hr hr' (hnone hr)
  have hcurrent : y.verdict b y.current = x.verdict b x.current := by
    unfold verdict
    rw [h.data, h.params, h.current]
  have hreceived := h.received (b := b) rfl (fun hcur => hcur ▸ rfl) fun hr hl =>
    hl.collectAll (hx.background_watches hr).1.collecting b.submissions
  obtain ⟨hout, hnext, -⟩ := h.processBlock matching_lags hreceived hx hy hb (.refl b.submissions)
    hcurrent fun r r' hr hr' => (hnone' hr hr').trans (hnone hr).symm
  refine ⟨hout, hnext, ?_⟩
  cases hr' : y.background with
  | none => exact not_backgroundEnds hy.apart hr'
  | some r' =>
    obtain ⟨r, hr, -⟩ : ∃ r, x.background = some r ∧ r.Lags r' := by
      have hl := h.background
      rw [hr'] at hl
      generalize x.background = p at hl
      cases hl with
      | some hl => exact ⟨_, rfl, hl⟩
    rw [backgroundEnds_iff hy.apart hr' (hnone' hr hr')]
    exact Bool.false_ne_true

theorem Alike.undisturbed (h : Alike Eq Lags x y) (hx : x.Coherent) (hy : y.Coherent)
    (hin : InOrder x.height.toNat bs) (hu : x.Undisturbed bs) :
    y.outcomes bs = x.outcomes bs ∧ Alike Eq Lags (x.afterBlocks bs) (y.afterBlocks bs) ∧
      y.Undisturbed bs := by
  induction bs generalizing x y with
  | nil => exact ⟨rfl, h, trivial⟩
  | cons b bs ih =>
    obtain ⟨hb, hin⟩ := hin
    obtain ⟨hub, hu⟩ := hu
    obtain ⟨hout, hnext, hyb⟩ := h.undisturbed_step hx hy hb hub
    rw [← hb, ← hx.height_next hb] at hin
    obtain ⟨houts, hafter, hy'⟩ := ih hnext (hx.next b) (hy.next b) hin hu
    exact ⟨List.cons_eq_cons.2 ⟨hout, houts⟩, hafter, hyb, hy'⟩

/-! ## Resuming -/

theorem Coherent.alike_resumedFrom (h : a.Coherent) : Alike Eq Lags a a.resumedFrom where
  params := rfl
  table := rfl
  previous := rfl
  data := rfl
  roundCount := rfl
  height := rfl
  current := rfl
  background := by
    cases hf : a.isFinished with
    | true =>
      rw [h.ended hf, show a.resumedFrom.background = none from if_pos hf]
      exact .none
    | false =>
      obtain ⟨bg, hbg, hw, -⟩ := h.running hf
      rw [hbg, show a.resumedFrom.background = some _ from if_neg (Bool.eq_false_iff.1 hf)]
      exact .some (hw.lags _ _)

/-- **A resumed application follows the one that went on.** Right after a transition an application
resumes from its checkpoint, and until the background round of the one that goes on ends, every
block has the same outcome for both and leaves both with the same foreground; that of the resumed
one does not end before. -/
theorem resumption_follows {params : AppParams} (hstart : start params = .ok a)
    (hin : InOrder 0 (bs ++ [b])) {o : BlockOutcome}
    (ho : ((a.afterBlocks bs).processBlock b).2 = .ok o) {t : Transition}
    (ht : o.transition = some t) :
    ∃ resumed, restore params (a.afterBlocks (bs ++ [b])).checkpoint = .ok resumed ∧
      resumed.checkpoint = (a.afterBlocks (bs ++ [b])).checkpoint ∧
      ∀ post, InOrder (bs.length + 1) post → (a.afterBlocks (bs ++ [b])).Undisturbed post →
        (∃ os : List BlockOutcome, (a.afterBlocks (bs ++ [b])).outcomes post = os.map .ok ∧
          resumed.outcomes post = os.map .ok) ∧
        SameForeground ((a.afterBlocks (bs ++ [b])).afterBlocks post) (resumed.afterBlocks post) ∧
        resumed.Undisturbed post := by
  obtain ⟨h, hheight, hparams⟩ := coherent_of_start hstart hin
  have hstarted : (a.afterBlocks (bs ++ [b])).Started := by
    obtain ⟨⟨hne, hle⟩, rfl⟩ := start_eq_ok_iff.1 hstart
    exact (coherent_initial hne hle).started_afterBlocks hin ho ht
  rw [List.length_append, List.length_singleton] at hheight
  generalize a.afterBlocks (bs ++ [b]) = x at *
  have hres := h.restore_eq hstarted
  rw [hparams] at hres
  refine ⟨x.resumedFrom, hres, rfl, fun post hpost hu => ?_⟩
  rw [← hheight] at hpost
  obtain ⟨hout, hafter, hu'⟩ := h.alike_resumedFrom.undisturbed h h.resumedFrom hpost hu
  obtain ⟨os, hos⟩ := h.exists_outcomes hpost
  exact ⟨⟨os, hos, hout.trans hos⟩, hafter.sameForeground, hu'⟩

/-! ## A pair that resumes -/

/-- The first peer votes again. -/
def repeatBlock : Block := ⟨Counter.ofNat 2, pairBlock.hash, [firstVote]⟩

/-- The pair resumes after its first block, and after the next one only the first peer has voted to
end the service. -/
theorem resumption_follows_of_pair : ∃ resumed,
    restore pairParams ((initial pairParams).afterBlocks [pairBlock]).checkpoint = .ok resumed ∧
      resumed.outcomes [repeatBlock] =
        ((initial pairParams).afterBlocks [pairBlock]).outcomes [repeatBlock] ∧
      SameForeground ((initial pairParams).afterBlocks [pairBlock, repeatBlock])
        (resumed.afterBlocks [repeatBlock]) := by
  obtain ⟨o, t, ho, ht⟩ := exists_transition_pairBlock
  have hfirst : InOrder 0 ([] ++ [pairBlock]) := ⟨rfl, trivial⟩
  have hboth : InOrder 0 ([pairBlock] ++ [repeatBlock]) := ⟨rfl, rfl, trivial⟩
  obtain ⟨resumed, hres, -, hpost⟩ := resumption_follows start_pair hfirst ho ht
  rw [List.nil_append] at hres hpost
  have hafter : ((initial pairParams).afterBlocks ([pairBlock] ++ [repeatBlock])) =
      (((initial pairParams).afterBlocks [pairBlock]).processBlock repeatBlock).1 :=
    afterBlocks_concat _ _ _
  have hquiet : ¬ ((initial pairParams).afterBlocks [pairBlock]).BackgroundEnds repeatBlock := by
    intro he
    obtain ⟨h, hheight⟩ := coherent_initial_pair.afterBlocks hfirst
    rw [List.nil_append] at h hheight
    have hfin := h.isFinished_of_backgroundEnds (b := repeatBlock) (by rw [hheight]; rfl) he
    rw [← hafter] at hfin
    have hon := coherent_initial_pair.onTime built_pair.sorted
      (onTime_initial (by decide) (by decide)) hboth
    obtain ⟨pre, hpre, fp, hag⟩ := hon.isFinished_iff.1 hfin
    rw [votesWith_none] at hag
    refine not_agrees_pair secondPeer (by simp) ?_ hpre fp hag
    have hrepeat : terminationVotes [repeatBlock] secondPeer = none :=
      (lastBallot_singleton _ _ _ _).trans
        ((ballot?_firstVote secondPeer).trans (if_neg secondPeer_ne_firstPeer))
    rw [terminationVotes_append, votesWith, hrepeat, terminationVotes_pairBlock,
      if_neg secondPeer_ne_firstPeer]
    rfl
  obtain ⟨⟨os, hos, hos'⟩, hsame, -⟩ := hpost [repeatBlock] ⟨rfl, trivial⟩ ⟨hquiet, trivial⟩
  rw [← afterBlocks_append, List.singleton_append] at hsame
  exact ⟨resumed, hres, hos'.trans hos.symm, hsame⟩

end Application

end Quorum
