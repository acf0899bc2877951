import Quorum.Proofs.Application.Preemption
import Quorum.Proofs.Application.Transitions
import Quorum.Proofs.Application.Versions

/-!
# Rounds that take too long

A round that can time out does so at the first block that is late, unless votes end it there.

* `Round.timedOut_iff` : a round is late once it has lasted as many blocks as it may;
* `Round.endBlock_timeout_iff` : it times out exactly if it is late and its votes decide nothing;
* `Application.Timed`, `Application.due` : whether the current round can time out, and the last block
  that it can see;
* `Coherent.inTime_next` : no block leads past it;
* `Coherent.timeout_iff` : and the round times out at that block only;
* `rounds_end_in_time` : so rounds end in time, and time out exactly then.
-/

namespace Quorum

/-! ## One round -/

namespace RoundKind

variable {k : RoundKind} {data s : Snapshot}

/-- Registration, the last round and the one in the background never time out. -/
theorem emits_roundTimeout : k.emits .roundTimeout = true ↔
    k ≠ .registrationStartup ∧ k ≠ .termination ∧ k ≠ .terminated := by
  cases k <;> decide

theorem event_of_updated {u : Update} {event e : Event}
    (h : (do let t ← updated data u; pure (t, event)) = Except.ok (s, e)) : e = event := by
  obtain ⟨t, -, h⟩ := bind_eq_ok.1 h
  cases h
  rfl

theorem concludeCollected_ne_timeout {payloads : SortedMap PublicKey Payload} :
    k.concludeCollected payloads data ≠ .ok (s, .roundTimeout) := by
  intro h
  unfold concludeCollected at h
  split at h
  · cases event_of_updated h
  · obtain ⟨sigs, -, h⟩ := bind_eq_ok.1 h
    cases event_of_updated h
  · cases h

theorem concludeAgreed_ne_timeout {v : Vote} :
    k.concludeAgreed v data ≠ .ok (s, .roundTimeout) := by
  intro h
  unfold concludeAgreed at h
  split at h
  case h_5 ok =>
    split_ifs at h
    · obtain ⟨periods, -, h⟩ := bind_eq_ok.1 h
      cases event_of_updated h
    · cases event_of_updated h
  case h_7 => cases h
  all_goals cases event_of_updated h

/-- Only the decision that a round took too long ends it with a timeout. -/
theorem timeout_of_conclude {d : Decision} (h : k.conclude d data = .ok (s, .roundTimeout)) :
    d = .timeout := by
  cases d with
  | timeout => rfl
  | agreed p => exact absurd h concludeAgreed_ne_timeout
  | collected payloads => exact absurd h concludeCollected_ne_timeout
  | noMajority =>
    unfold conclude at h
    simp only at h
    rw [← bind_pure_comp] at h
    cases event_of_updated h

end RoundKind

namespace Round

variable {r : Round} {data : Snapshot} {height : Height} {timeout : UInt64}

theorem timedOut_iff : r.timedOut height timeout = true ↔
    (r.kind ≠ .registrationStartup ∧ r.kind ≠ .termination ∧ r.kind ≠ .terminated) ∧
      timeout.toNat ≤ height.toNat - r.startHeight.toNat := by
  unfold timedOut
  rw [Bool.and_eq_true, RoundKind.emits_roundTimeout, decide_eq_true_eq, UInt64.le_iff_toNat_le,
    Counter.toNat_distance]

theorem decide_eq_none_iff : r.decide height timeout = .ok none ↔
    r.decideByVotes = .ok none ∧ ¬ r.timedOut height timeout = true := by
  unfold decide
  cases r.decideByVotes with
  | error e => simp
  | ok o => cases o <;> simp

theorem decideByVotes_ne_timeout : r.decideByVotes ≠ .ok (some .timeout) := by
  intro h
  unfold decideByVotes at h
  split at h
  · cases h
  · split_ifs at h <;> cases h
  · cases hw : r.winner? with
    | error e =>
      rw [hw] at h
      cases h
    | ok w =>
      rw [hw] at h
      cases w <;> cases h
  all_goals
    split at h
    · cases h
    · rename_i fp _
      cases hh : r.holder? fp <;> rw [hh] at h <;> cases h
    · split_ifs at h <;> cases h

theorem decided_of_endBlock {res : Snapshot × Event}
    (h : (r.endBlock data height timeout).2 = .ok (some res)) :
    ∃ d, r.decide height timeout = .ok (some d) ∧ r.kind.conclude d data = .ok res := by
  unfold endBlock at h
  split_ifs at h
  · cases h
  split at h
  · cases h
  · cases h
  · rename_i d hd
    refine ⟨d, hd, ?_⟩
    split at h
    · cases h
    · rename_i hcon
      cases h
      exact hcon

/-- **A round times out exactly if it is late and its votes decide nothing.** -/
theorem endBlock_timeout_iff (hc : r.concluded = false)
    (hv : data.version.toNat + 1 < UInt64.size) :
    (∃ s, (r.endBlock data height timeout).2 = .ok (some (s, .roundTimeout))) ↔
      r.decideByVotes = .ok none ∧ r.timedOut height timeout = true := by
  constructor
  · rintro ⟨s, h⟩
    obtain ⟨d, hd, hcon⟩ := decided_of_endBlock h
    obtain rfl := RoundKind.timeout_of_conclude hcon
    unfold decide at hd
    split at hd
    · cases hd
    · rename_i d hvotes
      cases hd
      exact absurd hvotes decideByVotes_ne_timeout
    · rename_i hvotes
      refine ⟨hvotes, ?_⟩
      split_ifs at hd with hlate
      · exact hlate
      · cases hd
  · rintro ⟨hvotes, hlate⟩
    have hd : r.decide height timeout = .ok (some .timeout) := by
      unfold decide
      rw [hvotes]
      exact congrArg _ (if_pos hlate)
    obtain ⟨s, hs⟩ := Snapshot.exists_update? hv []
    refine ⟨s, endBlock_of_decided hc hd ?_⟩
    unfold RoundKind.conclude
    simp only [RoundKind.updated_eq hs]
    rfl

theorem WellFormed.decideByVotes_of_empty (h : r.WellFormed)
    (hp : r.payloads = SortedMap.empty) : r.decideByVotes = .ok none := by
  have hheld (fp : Fingerprint) : r.held fp < r.threshold := by
    refine Nat.lt_of_not_le fun hle => ?_
    obtain ⟨k, p, hget, -⟩ := held_pos_iff.1 (Nat.lt_of_lt_of_le h.threshold_pos hle)
    rw [hp] at hget
    cases hget
  have hw := h.winner?_eq_none_iff.2 hheld
  have hsize : r.payloads.size = 0 := by rw [hp]; rfl
  have hpeers : r.participants.size ≠ 0 := fun hnil => h.nonempty (List.length_eq_zero_iff.1 hnil)
  have hthreshold := h.threshold_pos
  unfold decideByVotes
  cases r.kind.strategy with
  | terminal => rfl
  | differentUntilThreshold => exact congrArg _ (if_neg (by omega))
  | sameUntilAll => rw [hw]; rfl
  | sameUntilThreshold | onlyKeeperSends =>
    rw [hw, hsize]
    simp [hpeers.symm]

end Round

namespace Application

/-! ## The current round -/

/-- The current round is one that can time out. -/
def Timed (x : Application) : Prop :=
  x.current.kind ≠ .registrationStartup ∧ x.current.kind ≠ .terminated

/-- The height of the last block that the current round can see, if it can time out. -/
def due (x : Application) : Nat :=
  x.current.startHeight.toNat + max x.params.roundTimeout.toNat 1

/-- The current round has not seen its last block yet. -/
def InTime (x : Application) : Prop := x.Timed → x.height.toNat < x.due

/-- With the submissions of a block the votes decide nothing, neither those of the current round nor
those in the background. -/
structure Silent (x : Application) (b : Block) : Prop where
  current : (x.routeAll b.submissions).1.current.decideByVotes = .ok none
  background : ¬ x.BackgroundEnds b

variable {a x : Application} {b : Block} {bs : List Block} {t : Transition}

theorem Coherent.timed_iff (h : x.Coherent) : x.Timed ↔ x.current.kind ≠ .registrationStartup ∧
    x.current.kind ≠ .termination ∧ x.current.kind ≠ .terminated :=
  and_congr_right fun _ => (and_iff_right h.foreground).symm

theorem not_timed_of_finished (hf : x.isFinished = true) : ¬ x.Timed := by
  intro ht
  have hall : ∀ k : RoundKind, k.isTerminal = true → k = .terminated := fun k => by
    cases k <;> decide
  exact ht.2 (hall _ hf)

/-- The next block ends with the verdicts of the two rounds, unless the service has ended. -/
theorem Coherent.ends (h : x.Coherent) (hf : x.isFinished = false)
    (hb : b.height.toNat = x.height.toNat + 1) : ∃ bg v o, x.background = some bg ∧
      x.verdict b bg = .ok v ∧ x.verdict b x.current = .ok o ∧
        Ending x b v o (x.processBlock b).1 (x.transitionAt b) := by
  obtain ⟨bg, hbg, -⟩ := h.running hf
  obtain ⟨v, o, y, t, hv, ho, hend, hending⟩ := h.ending hbg hb
  refine ⟨bg, v, o, hbg, hv, ho, ?_⟩
  unfold transitionAt
  rw [processBlock_of_running h.apart hf hb, hend]
  exact hending

/-- The next block finds the current round late and its votes undecided, or the round does not time
out. -/
theorem Coherent.verdict_timeout_iff (h : x.Coherent) (hb : b.height.toNat = x.height.toNat + 1) :
    (∃ s, x.verdict b x.current = .ok (some (s, .roundTimeout))) ↔
      (x.routeAll b.submissions).1.current.decideByVotes = .ok none ∧ x.Timed ∧
        x.params.roundTimeout.toNat ≤ b.height.toNat - x.current.startHeight.toNat := by
  have hv := h.version_lt hb
  unfold verdict
  rw [Round.endBlock_timeout_iff ((x.current.collectAll_concluded _).trans h.collecting) hv,
    Round.timedOut_iff, Round.collectAll_kind, Round.collectAll_startHeight, h.timed_iff,
    routeAll_eq_countP h.apart]
  rfl

/-! ## No block leads past the last one -/

theorem Coherent.startHeight_next (h : x.Coherent) (b : Block) :
    (x.processBlock b).1.current.startHeight =
      if (x.transitionAt b).isSome then (x.processBlock b).1.height
      else x.current.startHeight := by
  have hadvance := h.advances b
  generalize x.transitionAt b = o at hadvance ⊢
  cases hadvance with
  | stays same => exact (congrArg Round.startHeight same.current :)
  | moves hm =>
    obtain ⟨peers, keeper, -, -, hstart⟩ := of_instantiate_eq_ok hm.starts
    exact (congrArg Round.startHeight (Round.eq_fresh_of_start hstart) :)

/-- A round that goes on after a block is not late. -/
theorem Coherent.not_late (h : x.Coherent) (hb : b.height.toNat = x.height.toNat + 1)
    (ht : x.Timed) (hnone : x.transitionAt b = none) : b.height.toNat < x.due := by
  have hf : x.isFinished = false := Bool.eq_false_iff.2 fun hf => not_timed_of_finished hf ht
  obtain ⟨bg, v, o, -, -, ho, hending⟩ := h.ends hf hb
  rw [hnone] at hending
  generalize (x.processBlock b).1 = y at hending
  cases hending with
  | waits =>
    have hopen := Round.decide_of_endBlock ((x.current.collectAll_concluded _).trans h.collecting) ho
    have hlate := (Round.decide_eq_none_iff.1 hopen).2
    rw [Round.timedOut_iff, Round.collectAll_kind, Round.collectAll_startHeight] at hlate
    have hstart := h.startHeight_le
    have hlt : ¬ x.params.roundTimeout.toNat ≤ b.height.toNat - x.current.startHeight.toNat :=
      fun hle => hlate ⟨h.timed_iff.1 ht, hle⟩
    unfold due
    omega

/-- **No block leads past the last one that the current round can see.** -/
theorem Coherent.inTime_next (h : x.Coherent) (hx : x.InTime) (b : Block) :
    (x.processBlock b).1.InTime := by
  intro ht
  have hstart := h.startHeight_next b
  cases htrans : x.transitionAt b with
  | some t =>
    rw [htrans, Option.isSome_some, if_pos rfl] at hstart
    unfold due
    rw [hstart]
    omega
  | none =>
    have hadvance := h.advances b
    rw [htrans] at hadvance
    rw [htrans, Option.isSome_none, if_neg Bool.false_ne_true] at hstart
    cases hadvance with
    | stays same =>
      have htimed : x.Timed := by
        unfold Timed at ht
        rwa [same.kind] at ht
      have hdue : (x.processBlock b).1.due = x.due := by
        unfold due
        rw [hstart, same.params]
      rw [hdue]
      by_cases hb : b.height.toNat = x.height.toNat + 1
      · rw [(h.height_next hb)]
        exact h.not_late hb htimed htrans
      · rw [processBlock_of_refused hb]
        exact hx htimed

/-! ## Timeouts -/

/-- The current round has a timeout as its verdict at the last block that it can see, unless its
votes decide. -/
theorem Coherent.late_iff (h : x.Coherent) (hx : x.InTime) (hb : b.height.toNat = x.height.toNat + 1) :
    ((∃ s, x.verdict b x.current = .ok (some (s, .roundTimeout))) ∧ ¬ x.BackgroundEnds b) ↔
      x.Timed ∧ b.height.toNat = x.due ∧ x.Silent b := by
  have hstart := h.startHeight_le
  rw [h.verdict_timeout_iff hb]
  constructor
  · rintro ⟨⟨hvotes, htimed, hlate⟩, hends⟩
    have hdue := hx htimed
    refine ⟨htimed, ?_, hvotes, hends⟩
    unfold due at hdue ⊢
    omega
  · rintro ⟨htimed, hdue, hvotes, hends⟩
    refine ⟨⟨hvotes, htimed, ?_⟩, hends⟩
    unfold due at hdue
    omega

/-- **The current round times out at the last block that it can see, unless votes end it there.** -/
theorem Coherent.timeout_iff (h : x.Coherent) (hx : x.InTime)
    (hb : b.height.toNat = x.height.toNat + 1) :
    (∃ t, x.transitionAt b = some t ∧ t.event = .roundTimeout) ↔
      x.Timed ∧ b.height.toNat = x.due ∧ x.Silent b := by
  rw [← h.late_iff hx hb]
  cases hf : x.isFinished with
  | true =>
    refine iff_of_false ?_ fun hlate => not_timed_of_finished hf ((h.late_iff hx hb).1 hlate).1
    rintro ⟨t, ht, -⟩
    rw [transitionAt_of_ok (processBlock_of_finished hf hb)] at ht
    cases ht
  | false =>
    obtain ⟨bg, v, o, hbg, hv, ho, hending⟩ := h.ends hf hb
    rw [backgroundEnds_iff h.apart hbg hv, ho]
    generalize (x.processBlock b).1 = y at hending
    generalize x.transitionAt b = t at hending
    cases hending with
    | waits => simp
    | preempts hbg' hs =>
      -- the background round ends with an event of its own
      obtain ⟨u, hver, -⟩ := hs.verdict
      have hkind := (h.background_watches hbg').1.kind
      obtain ⟨tx, -, -, rfl⟩ := hver.of_termination ((Round.collectAll_kind _ _).trans hkind)
      simp
    | moves => simp

theorem Coherent.source_of_timeout (h : x.Coherent) (ht : x.transitionAt b = some t)
    (he : t.event = .roundTimeout) : t.source = x.current.kind ∧ t.preempted = false := by
  have hedges : ∀ edge ∈ Table.bundledBackground :: Table.bundledEdges,
      edge.event = .roundTimeout → edge.source ≠ .termination := by decide
  have hp : t.preempted = false := Bool.eq_false_iff.2 fun hp =>
    hedges _ (h.edge_of_transitionAt ht) he (h.source_of_preempted ht hp)
  exact ⟨h.source_of_transitionAt ht hp, hp⟩

/-- The current round of a run has not seen its last block yet. -/
theorem Coherent.inTime_after (h : a.Coherent) (ha : a.InTime) (bs : List Block) :
    (a.afterBlocks bs).InTime := by
  induction bs using List.reverseRecOn with
  | nil => exact ha
  | append_singleton bs b ih =>
    rw [afterBlocks_concat]
    exact (h.after bs).inTime_next ih b

/-- **Rounds end in time, and time out exactly then.** In every run from the start, over blocks in
order, the current round has seen fewer blocks than it may after each block, unless it is the
registration or the service has ended. So no round sees more, from the block that starts it on. It
times out exactly at the last one that it may see, if with the submissions of that block neither its
votes nor those in the background decide anything. -/
theorem rounds_end_in_time {params : AppParams} (hstart : start params = .ok a)
    (hin : InOrder 0 (bs ++ [b])) :
    ((a.afterBlocks (bs ++ [b])).Timed → (a.afterBlocks (bs ++ [b])).height.toNat <
        (a.afterBlocks (bs ++ [b])).current.startHeight.toNat + max params.roundTimeout.toNat 1) ∧
      (a.afterBlocks (bs ++ [b])).current.startHeight =
        (if ((a.afterBlocks bs).transitionAt b).isSome then b.height
          else (a.afterBlocks bs).current.startHeight) ∧
      ((a.afterBlocks bs).Timed → b.height.toNat ≤
        (a.afterBlocks bs).current.startHeight.toNat + max params.roundTimeout.toNat 1) ∧
      ((∃ t, (a.afterBlocks bs).transitionAt b = some t ∧ t.event = .roundTimeout) ↔
        (a.afterBlocks bs).Timed ∧ b.height.toNat =
            (a.afterBlocks bs).current.startHeight.toNat + max params.roundTimeout.toNat 1 ∧
          (a.afterBlocks bs).Silent b) ∧
      ∀ t, (a.afterBlocks bs).transitionAt b = some t → t.event = .roundTimeout →
        t.source = (a.afterBlocks bs).current.kind ∧ t.preempted = false := by
  obtain ⟨hbs, hb⟩ := inOrder_concat.1 hin
  obtain ⟨h, hheight, hparams⟩ := coherent_of_start hstart hbs
  have hx : (a.afterBlocks bs).InTime := by
    obtain ⟨⟨hne, hle⟩, rfl⟩ := start_eq_ok_iff.1 hstart
    exact (coherent_initial hne hle).inTime_after (fun ht => absurd rfl ht.1) bs
  have hnext : b.height.toNat = (a.afterBlocks bs).height.toNat + 1 := by omega
  rw [afterBlocks_concat]
  generalize a.afterBlocks bs = x at h hx hnext hparams ⊢
  obtain rfl := hparams
  have hparams : (x.processBlock b).1.params = x.params := by
    obtain ⟨y, o, hproc, hs, -⟩ := h.processBlock hnext
    rw [hproc]
    exact hs.params_eq
  have hsteps := h.startHeight_next b
  rw [h.height_next hnext] at hsteps
  refine ⟨fun ht => ?_, hsteps, fun ht => ?_, h.timeout_iff hx hnext,
    fun t => h.source_of_timeout⟩
  · have hlt := h.inTime_next hx b ht
    unfold due at hlt
    rwa [hparams] at hlt
  · have hlt := hx ht
    unfold due at hlt
    omega

/-! ## A round that nobody votes in -/

theorem Alone.silent {pk : PublicKey} {n : Nat} {k : RoundKind} {data : Snapshot}
    (h : Alone pk n k data x) (hb : b.height.toNat = n + 1) (hsub : b.submissions = []) :
    x.Silent b := by
  constructor
  · rw [hsub]
    exact h.coherent.wellFormed.decideByVotes_of_empty h.fresh
  · intro hends
    obtain ⟨bg, data', e, hbg, hv⟩ := h.coherent.verdict_of_backgroundEnds (by rw [hb, h.height]) hends
    have hversion := h.coherent.version_lt (b := b) (by rw [hb, h.height])
    unfold verdict at hv
    rw [hsub] at hv
    cases (h.coherent.background_watches hbg).1.endBlock_quiet (h.quiet bg hbg)
      h.coherent.exists_periodCount hversion hv

/-- The second block is empty. -/
def idleBlock : Block := ⟨Counter.ofNat 2, soloBlock.hash, []⟩

/-- A round that may last one block times out at a block without votes. -/
theorem rounds_end_in_time_of_one : ∃ t,
    ((initial brief).afterBlocks [soloBlock]).transitionAt idleBlock = some t ∧
      t.event = .roundTimeout ∧ t.source = .randomness := by
  have h : Alone firstPeer 0 .registrationStartup Snapshot.empty
      ((initial brief).afterBlocks []) := alone_initial rfl
  have h' := h.concat (e := .done) soloBlock rfl opened_pair.1 rfl rfl rfl rfl nofun rfl rfl
  rw [List.nil_append] at h'
  have hstart : start brief = .ok (initial brief) := start_eq (by decide) (by decide)
  have hin : InOrder 0 ([soloBlock] ++ [idleBlock]) := ⟨rfl, rfl, trivial⟩
  obtain ⟨-, -, hspan, htimeout, hsource⟩ := rounds_end_in_time hstart hin
  have hkind : ((initial brief).afterBlocks [soloBlock]).current.kind = .randomness := h'.kind
  have htimed : ((initial brief).afterBlocks [soloBlock]).Timed := by
    unfold Timed
    rw [hkind]
    decide
  have hdue : idleBlock.height.toNat =
      ((initial brief).afterBlocks [soloBlock]).current.startHeight.toNat +
        max brief.roundTimeout.toNat 1 := by
    have hsecond : idleBlock.height.toNat = 2 := rfl
    have hone : max brief.roundTimeout.toNat 1 = 1 := rfl
    have hle := h'.coherent.startHeight_le
    have hlast := hspan htimed
    rw [h'.height] at hle
    omega
  have hsilent : ((initial brief).afterBlocks [soloBlock]).Silent idleBlock := h'.silent rfl rfl
  obtain ⟨t, ht, he⟩ := htimeout.2 ⟨htimed, hdue, hsilent⟩
  exact ⟨t, ht, he, (hsource t ht he).1.trans hkind⟩

end Application

end Quorum
