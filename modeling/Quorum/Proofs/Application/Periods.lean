import Quorum.Proofs.Application.Transitions

/-!
# Completed periods

The number of completed periods stands in the agreed data, and a validation that ends as planned
reads it and writes the next one.

* `Transition.completes`, `Transition.finalizes` : the transitions that end a period, and those that
  end its finalization;
* `Coherent.periodCount_next` : the number grows with the transitions that complete a period, and with
  no others;
* `getLast?_finalizes` : right before such a transition comes the end of a finalization;
* `periods_counted` : so the number is that of the periods completed in the run, and one more can
  always be counted.
-/

namespace Quorum

open Snapshot

/-- The transition completes a period. -/
def Transition.completes (t : Transition) : Bool :=
  t.source = .validateTransaction && t.event = .done && !t.preempted

/-- The transition ends a finalization as planned. -/
def Transition.finalizes (t : Transition) : Bool := t.source = .finalization && t.event = .done

theorem Transition.completes_iff {t : Transition} : t.completes = true ↔
    t.source = .validateTransaction ∧ t.event = .done ∧ t.preempted = false := by
  simp [completes, and_assoc]

/-- Only a validation that ends as planned writes the number of periods. -/
theorem RoundKind.of_periodCount_mem_writes {k : RoundKind} {e : Event}
    (h : Key.periodCount ∈ k.writes e) : k = .validateTransaction ∧ e = .done := by
  cases k <;> cases e <;> first | exact ⟨rfl, rfl⟩ | exact absurd h (by decide)

theorem Snapshot.periodCount_update? {s t : Snapshot} {n : UInt64}
    (h : s.update? [Update.set Key.periodCount n] = some t) : t.periodCount = .ok n := by
  refine readOr_of_read? (a := some n) (read?_of_get? ?_ (decodeWhole_lawful (by decide) n)) 0
  rw [get?_update? h]
  exact congrArg (Option.getD · _) (Update.last?_singleton _ _)

/-- A validation that ends as planned writes one more period than it reads. -/
theorem Round.Verdict.of_validated {r : Round} {data : Snapshot} {height : Height}
    {timeout : UInt64} {u : Update} (h : r.Verdict data height timeout u .done)
    (hk : r.kind = .validateTransaction) : ∃ periods, data.periodCount = .ok periods ∧
      u = [Update.set Key.periodCount (periods + 1)] := by
  generalize he : Event.done = e at h
  cases h with
  | @agreed pk p u e strategy held get settles =>
    rw [hk] at settles
    generalize p.vote = v at settles
    cases settles with
    | validated periods hp => exact ⟨periods, hp, rfl⟩
    | refuted => cases he
  | registered kind => cases kind.symm.trans hk
  | signed kind => cases kind.symm.trans hk
  | noMajority | timeout => cases he

namespace Application

variable {a x : Application} {b : Block} {bs : List Block} {xs : List Transition}
  {t u : Transition}

/-! ## One block -/

theorem Coherent.periodCount_of_completes (h : x.Coherent) (ht : x.transitionAt b = some t)
    (hc : t.completes = true) {n : UInt64} (hn : x.data.periodCount = .ok n) :
    (x.processBlock b).1.data.periodCount = .ok (n + 1) := by
  obtain ⟨hsource, hevent, -⟩ := Transition.completes_iff.1 hc
  have hstarted : StartedBy x [b] [] b t := ⟨List.prefix_refl _, ht, .refl _⟩
  have htarget : t.target ≠ .terminated := by
    intro hend
    have hedge := h.edge_of_transitionAt ht
    rw [hsource, hevent, hend] at hedge
    revert hedge
    decide
  obtain ⟨hkind, u, hver, hu⟩ := hstarted.verdict h htarget
  rw [hevent] at hver
  obtain ⟨periods, hp, rfl⟩ := hver.of_validated
    ((Round.collectAll_kind _ _).trans (hkind.symm.trans hsource))
  cases hn.symm.trans hp
  exact periodCount_update? hu

/-- The number of periods grows with the transitions that complete one, and with no others. -/
theorem Coherent.periodCount_next (h : x.Coherent) (b : Block) {n : UInt64}
    (hn : x.data.periodCount = .ok n) : (x.processBlock b).1.data.periodCount =
      .ok (if (x.transitionAt b).any Transition.completes then n + 1 else n) := by
  cases ht : x.transitionAt b with
  | none =>
    have hadvance := h.advances b
    rw [ht] at hadvance
    cases hadvance with
    | stays same =>
      rw [same.data]
      exact hn
  | some t =>
    rw [Option.any_some]
    by_cases hc : t.completes = true
    · rw [if_pos hc]
      exact h.periodCount_of_completes ht hc hn
    · rw [if_neg hc]
      have hwrites : Key.periodCount ∉ t.source.writes t.event := by
        intro hmem
        obtain ⟨hsource, hevent⟩ := RoundKind.of_periodCount_mem_writes hmem
        refine hc (Transition.completes_iff.2 ⟨hsource, hevent, Bool.eq_false_iff.2 fun hp => ?_⟩)
        cases hsource.symm.trans (h.source_of_preempted ht hp)
      have hadvance := h.advances b
      rw [ht] at hadvance
      cases hadvance with
      | moves hm =>
        rw [periodCount_congr (hm.revises.frame _ hwrites)]
        exact hn

/-! ## Runs -/

/-- The agreed data counts the periods that were completed in the run. -/
theorem Coherent.exists_periodCount_eq (h : a.Coherent) (hcount : a.roundCount.toNat = 0)
    (hzero : a.data.periodCount = .ok 0) (bs : List Block) :
    ∃ n, (a.afterBlocks bs).data.periodCount = .ok n ∧
      n.toNat = (a.transitions bs).countP Transition.completes := by
  induction bs using List.reverseRecOn with
  | nil => exact ⟨0, hzero, rfl⟩
  | append_singleton bs b ih =>
    obtain ⟨n, hn, hcountP⟩ := ih
    refine ⟨_, by rw [afterBlocks_concat]; exact (h.after bs).periodCount_next b hn, ?_⟩
    -- there are at most as many periods as rounds, so the number does not wrap around
    have hroom : n.toNat + ((a.afterBlocks bs).transitionAt b).toList.countP Transition.completes <
        UInt64.size := by
      have hlt := (a.afterBlocks (bs ++ [b])).roundCount.toNat_lt
      rw [h.length_transitions, hcount, Nat.zero_add] at hlt
      rw [hcountP, ← List.countP_append, ← transitions_concat]
      exact Nat.lt_of_le_of_lt List.countP_le_length hlt
    rw [transitions_concat, List.countP_append, ← hcountP]
    generalize (a.afterBlocks bs).transitionAt b = o at hroom ⊢
    cases o with
    | none => rfl
    | some t =>
      rw [Option.toList_some, List.countP_singleton] at hroom ⊢
      rw [Option.any_some]
      by_cases hc : t.completes = true
      · rw [if_pos hc] at hroom ⊢
        rw [if_pos hc, UInt64.toNat_add]
        exact Nat.mod_eq_of_lt hroom
      · rw [if_neg hc, if_neg hc]
        rfl

theorem getLast?_finalizes (h : a.Coherent) (hk : a.current.kind ≠ .validateTransaction)
    {ys : List Transition} (hsplit : a.transitions bs = xs ++ u :: ys) (hu : u.completes = true) :
    ∃ v, xs.getLast? = some v ∧ v.finalizes = true := by
  obtain ⟨hsource, -, hp⟩ := Transition.completes_iff.1 hu
  have hafter := h.source_after hsplit hp
  rw [hsource] at hafter
  cases hlast : xs.getLast? with
  | none =>
    rw [hlast] at hafter
    exact absurd hafter.symm hk
  | some v =>
    rw [hlast] at hafter
    have hmem : v ∈ a.transitions bs := by
      rw [hsplit]
      exact List.mem_append_left _ (List.mem_of_getLast? hlast)
    have hedges : ∀ edge ∈ Table.bundledBackground :: Table.bundledEdges,
        edge.target = .validateTransaction → edge.source = .finalization ∧ edge.event = .done := by
      decide
    have hv : v.source = .finalization ∧ v.event = .done :=
      hedges _ (h.edge_of_mem hmem) hafter.symm
    exact ⟨v, rfl, by simp [Transition.finalizes, hv.1, hv.2]⟩

/-- The first transition completes no period. -/
theorem Coherent.countP_completes_lt (h : a.Coherent) (hk : a.current.kind ≠ .validateTransaction)
    (bs : List Block) (hne : a.transitions bs ≠ []) :
    (a.transitions bs).countP Transition.completes < (a.transitions bs).length := by
  obtain ⟨t, ts, hts⟩ := List.exists_cons_of_ne_nil hne
  have ht : ¬ t.completes = true := by
    intro hc
    obtain ⟨v, hv, -⟩ : ∃ v, ([] : List Transition).getLast? = some v ∧ _ :=
      getLast?_finalizes h hk hts hc
    cases hv
  rw [hts, List.countP_cons_of_neg ht, List.length_cons]
  exact Nat.lt_succ_of_le List.countP_le_length

/-- **The number of periods is that of the periods completed in the run, and never runs out.** After
every run from the start, of any blocks, the agreed data counts the transitions of the run by which a
validation of the current round ended as planned. Between two of these a finalization ended as
planned. So there are at most as many periods as rounds, and one more can be counted in every state
that a run leads to. -/
theorem periods_counted {params : AppParams} (hstart : start params = .ok a) (bs : List Block) :
    (∃ n, (a.afterBlocks bs).data.periodCount = .ok n ∧
        n.toNat = (a.transitions bs).countP Transition.completes ∧
        n.toNat ≤ (a.afterBlocks bs).roundCount.toNat ∧ (n + 1).toNat = n.toNat + 1) ∧
      ∀ xs ys zs t u, a.transitions bs = xs ++ t :: (ys ++ u :: zs) → t.completes = true →
        u.completes = true → ∃ v ∈ ys, v.finalizes = true := by
  obtain ⟨⟨hne, hle⟩, rfl⟩ := start_eq_ok_iff.1 hstart
  have h := coherent_initial hne hle
  have hkind : (initial params).current.kind ≠ .validateTransaction := nofun
  constructor
  · obtain ⟨n, hn, hcount⟩ := h.exists_periodCount_eq rfl rfl bs
    have hlength : ((initial params).afterBlocks bs).roundCount.toNat =
        ((initial params).transitions bs).length :=
      (h.length_transitions bs).trans (Nat.zero_add _)
    have hlt := ((initial params).afterBlocks bs).roundCount.toNat_lt
    have hle := List.countP_le_length (p := Transition.completes)
      (l := (initial params).transitions bs)
    have hroom : n.toNat + 1 < UInt64.size := by
      by_cases hnil : (initial params).transitions bs = []
      · rw [hcount, hnil]
        decide
      · have := h.countP_completes_lt hkind bs hnil
        omega
    refine ⟨n, hn, hcount, by omega, ?_⟩
    rw [UInt64.toNat_add]
    exact Nat.mod_eq_of_lt hroom
  · intro xs ys zs t u hsplit ht hu
    rw [← List.cons_append, ← List.append_assoc] at hsplit
    obtain ⟨v, hv, hfinal⟩ := getLast?_finalizes h hkind hsplit hu
    rw [List.getLast?_append, List.getLast?_cons] at hv
    -- the last one before `u` is not `t`, which ended a validation
    cases hlast : ys.getLast? with
    | none =>
      rw [hlast] at hv
      cases hv
      rw [Transition.completes_iff] at ht
      simp [Transition.finalizes, ht.1] at hfinal
    | some w =>
      rw [hlast] at hv
      cases hv
      exact ⟨w, List.mem_of_getLast? hlast, hfinal⟩

/-! ## A period of one peer -/

/-- The first peer finds that its transaction was carried out. -/
def goodVote : Submission where
  payload := Wire.encode (⟨firstPeer, Counter.ofNat 5, .validate (some true)⟩ : Payload)
  sig := ⟨Bytes.ofNatBE 64 0x8c9b1e24847e39f8032f4229e49c076030e705d2a6f19d27999ca32963c94016f128a7383b99463ef38457f9b1b3837a511d62a539a9ebfac71c8e641f2eea01,
    Bytes.length_ofNatBE 64 _⟩

theorem open_goodVote :
    goodVote.open = .ok ⟨firstPeer, Counter.ofNat 5, .validate (some true)⟩ := by decide +kernel

/-- The votes of the first peer in its first period. -/
def periodBlocks : List Block :=
  signingBlocks ++ [sentBlock] ++ [⟨Counter.ofNat 6, Octets.zero, [goodVote]⟩]

/-- The first peer has completed a period. -/
theorem periods_counted_of_one :
    ((initial soloParams).afterBlocks periodBlocks).data.periodCount = .ok 1 ∧
      ((initial soloParams).transitions periodBlocks).countP Transition.completes = 1 := by
  obtain ⟨data, hperiods, h⟩ := alone_sentBlock
  have hversion : data.version.toNat + 1 < UInt64.size := by
    have hle := h.coherent.version_le
    rw [h.data, h.height] at hle
    exact Nat.lt_of_le_of_lt (Nat.add_le_add_right hle 1) (by decide)
  obtain ⟨data', hdata'⟩ := Snapshot.exists_update? hversion
    [Update.set Key.periodCount ((0 : UInt64) + 1)]
  have hend := h.concat (e := .done) ⟨Counter.ofNat 6, Octets.zero, [goodVote]⟩ rfl open_goodVote
    rfl rfl rfl rfl nofun ((RoundKind.Settles.validated 0 hperiods).concludeAgreed_eq hdata') rfl
  have hone : ((initial soloParams).afterBlocks periodBlocks).data.periodCount = .ok 1 := by
    rw [show ((initial soloParams).afterBlocks periodBlocks).data = data' from hend.data]
    exact periodCount_update? hdata'
  obtain ⟨⟨n, hn, hcount, -⟩, -⟩ := periods_counted start_solo periodBlocks
  cases hone.symm.trans hn
  exact ⟨hone, hcount.symm⟩

end Application

end Quorum
