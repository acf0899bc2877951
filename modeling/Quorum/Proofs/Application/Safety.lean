import Quorum.Proofs.Application.Run

/-!
# No fatal error is reachable

* `Application.Applies` : a block is applied without an error, and what the code takes for granted
  on the way holds: a value with enough votes has a holder, and the periods can be counted;
* `Coherent.applies` : a coherent application applies every next block;
* `no_fatal_error` : a service that starts applies every block of every run, whatever the blocks
  carry.
-/

namespace Quorum.Application

variable {a : Application} {b : Block}

/-- The rounds that run. -/
def rounds (a : Application) : List Round := a.current :: a.background.toList

/-- The block is applied, and what is taken for granted on the way holds. -/
structure Applies (a : Application) (b : Block) : Prop where
  /-- No error ends the block. -/
  succeeds : ∃ o, (a.processBlock b).2 = .ok o
  /-- Once the votes of the block are counted, a value that has won has a holder. -/
  holder : ∀ r ∈ (a.routeAll b.submissions).1.rounds, ∀ fp, r.winner? = .ok (some fp) →
    ∃ p, r.holder? fp = some p
  /-- One more period can be counted. -/
  periods : ∀ n, a.data.periodCount = .ok n → n.toNat + 1 < UInt64.size

theorem wellFormed_of_mem_rounds (h : a.Coherent) {subs : List Submission} {r : Round}
    (hr : r ∈ (a.collectAll subs).rounds) : r.WellFormed := by
  unfold rounds at hr
  rcases List.mem_cons.1 hr with rfl | hr
  · exact h.wellFormed.collectAll h.collecting subs
  · obtain ⟨bg, hbg, rfl⟩ := Option.map_eq_some_iff.1 (Option.mem_toList.1 hr)
    exact ((h.background_watches hbg).1.collectAll subs).wellFormed

theorem Coherent.applies (h : a.Coherent) (hb : b.height.toNat = a.height.toNat + 1) :
    a.Applies b where
  succeeds := by
    obtain ⟨a', o, hp, -⟩ := h.processBlock hb
    rw [hp]
    exact ⟨o, rfl⟩
  holder := by
    intro r hr fp hw
    obtain ⟨accepted, rejected, hroute, -⟩ := routeAll_eq h.apart b.submissions
    rw [hroute] at hr
    have hwf := wellFormed_of_mem_rounds h hr
    have ht := hwf.winner?_eq_some_iff.1 hw
    obtain ⟨_, p, hp, -⟩ := Round.holder?_of_held (Nat.lt_of_lt_of_le hwf.threshold_pos ht)
    exact ⟨p, hp⟩
  periods := by
    intro n hn
    obtain ⟨m, hm, hle⟩ := h.conforms.exists_periodCount
    cases hn.symm.trans hm
    -- there are at most as many periods as rounds, and as many rounds as blocks
    have := h.roundCount_le
    have := b.height.toNat_lt
    omega

/-- **No fatal error is reachable.** A service with peers that can be counted starts, and whatever
the blocks carry it applies every block of every run. -/
theorem no_fatal_error {params : AppParams} (hne : params.participants.peers ≠ [])
    (hle : params.participants.size ≤ PeerCount.limit) :
    ∃ a, start params = .ok a ∧ ∀ bs b, InOrder 0 (bs ++ [b]) → (a.afterBlocks bs).Applies b := by
  refine ⟨initial params, start_eq hne hle, fun bs b hin => ?_⟩
  obtain ⟨hbs, hb⟩ := inOrder_concat.1 hin
  have hinit : (initial params).height.toNat = 0 := rfl
  obtain ⟨hcoh, hheight⟩ := (coherent_initial hne hle).afterBlocks (hinit ▸ hbs)
  exact hcoh.applies (by omega)

/-- One peer, a round that times out at once, and a block with bytes that are no payload. -/
theorem no_fatal_error_of_one : ∃ a, start ⟨⟨[Octets.zero]⟩, 0, 1⟩ = .ok a ∧
    (a.afterBlocks []).Applies (Block.first [⟨[0xff], Octets.zero⟩]) := by
  obtain ⟨a, ha, hrun⟩ :=
    no_fatal_error (by decide : (⟨⟨[Octets.zero]⟩, 0, 1⟩ : AppParams).participants.peers ≠ [])
      (by decide)
  exact ⟨a, ha, hrun [] _ ⟨rfl, trivial⟩⟩

end Quorum.Application
