import Quorum.Gateway
import Quorum.Proofs.Application.Run

/-!
# The chain behind a gateway

* `Gateway.Holds` : a gateway has committed a chain of blocks after a height, and keeps the newest
  of them;
* `Holds.produce?` : a block that is committed stands at the end of the chain;
* `Holds.block?_eq` : a lookup is answered from the chain alone, whatever was submitted meanwhile.
-/

namespace Quorum

theorem InOrder.height_of_getElem? {height : Nat} {bs : List Block} (h : InOrder height bs)
    {i : Nat} {b : Block} (hb : bs[i]? = some b) : b.height.toNat = height + i + 1 := by
  induction bs generalizing height i with
  | nil => cases hb
  | cons c bs ih =>
    cases i with
    | zero =>
      cases hb
      exact h.1
    | succ i =>
      have := ih h.2 (List.getElem?_cons_succ.symm.trans hb)
      omega

namespace Counter

variable {role : CounterRole} {a b : Counter role}

theorem le_iff_toNat_le : a ≤ b ↔ a.toNat ≤ b.toNat := UInt64.le_iff_toNat_le

theorem lt_iff_toNat_lt : a < b ↔ a.toNat < b.toNat := UInt64.lt_iff_toNat_lt

end Counter

namespace Gateway

/-- The gateway has committed a chain of blocks after a height, and keeps the newest of them. -/
structure Holds (g : Gateway) (start : Height) (chain : List Block) : Prop where
  startHeight : g.startHeight = start
  blocks : g.blocks = chain.reverse.take maxKept
  inOrder : InOrder start.toNat chain

variable {g g' : Gateway} {start : Height} {chain : List Block}

theorem holds_start (height : Height) : (Gateway.start height).Holds height [] :=
  ⟨rfl, rfl, trivial⟩

/-- A submission waits for the next block, or is lost. -/
theorem Holds.submit (h : g.Holds start chain) (s : Submission) :
    (g.submit s).1.Holds start chain := by
  unfold Gateway.submit
  split <;> exact ⟨h.startHeight, h.blocks, h.inOrder⟩

/-! ## Committing -/

theorem Holds.height_nextBlock? (h : g.Holds start chain) {b : Block}
    (hb : g.nextBlock? = some b) : b.height.toNat = start.toNat + chain.length + 1 := by
  unfold nextBlock? at hb
  rw [h.blocks, h.startHeight] at hb
  rcases List.eq_nil_or_concat chain with rfl | ⟨init, last, rfl⟩
  · obtain ⟨height, hnext, rfl⟩ := Option.map_eq_some_iff.1 hb
    exact Counter.next?_eq_some.1 hnext
  · rw [List.concat_eq_append, List.reverse_append] at hb
    obtain ⟨height, hnext, rfl⟩ := Option.map_eq_some_iff.1 hb
    -- the last block of the chain is the newest one that is kept
    have hlast := (inOrder_concat.1 (List.concat_eq_append ▸ h.inOrder)).2
    have hheight : height.toNat = last.height.toNat + 1 := Counter.next?_eq_some.1 hnext
    show height.toNat = _
    rw [hheight, hlast, List.length_concat, Nat.add_assoc start.toNat]

theorem take_cons_take {α : Type} (n : Nat) (x : α) (xs : List α) :
    (x :: xs.take n).take n = (x :: xs).take n := by
  cases n with
  | zero => rfl
  | succ n => rw [List.take_succ_cons, List.take_succ_cons, List.take_take, Nat.min_eq_left n.le_succ]

/-- **A block that is committed stands at the end of the chain.** -/
theorem Holds.produce? (h : g.Holds start chain) {b : Block} (hp : g.produce? = some (g', b)) :
    g'.Holds start (chain ++ [b]) := by
  obtain ⟨c, hc, heq⟩ := Option.map_eq_some_iff.1 hp
  cases heq
  refine ⟨h.startHeight, ?_, inOrder_concat.2 ⟨h.inOrder, h.height_nextBlock? hc⟩⟩
  show (b :: g.blocks).take maxKept = _
  rw [h.blocks, List.reverse_append, take_cons_take]
  rfl

/-! ## Looking up -/

/-- The blocks that are kept, the oldest one first. -/
theorem Holds.reverse_blocks (h : g.Holds start chain) :
    g.blocks.reverse = chain.drop (chain.length - maxKept) := by
  rw [h.blocks, List.reverse_take, List.reverse_reverse, List.length_reverse]

/-- **A lookup is answered from the chain.** Blocks that are no longer kept are pruned; at every
other height stands the block of the chain, or none yet. -/
theorem Holds.block?_eq (h : g.Holds start chain) (height : Height) :
    g.block? height =
      if height.toNat ≤ start.toNat + (chain.length - maxKept) then .error (.pruned height)
      else .ok chain[height.toNat - start.toNat - 1]? := by
  have holdest : g.blocks.getLast? = chain[chain.length - maxKept]? := by
    rw [← List.head?_reverse, h.reverse_blocks, List.head?_drop]
  unfold Gateway.block?
  rw [holdest]
  cases hfirst : chain[chain.length - maxKept]? with
  | none =>
    -- the newest block is always kept, so there is none
    have hpos : 0 < maxKept := by decide
    have hnil : chain.length = 0 := by
      have := List.getElem?_eq_none_iff.1 hfirst
      omega
    obtain rfl := List.length_eq_zero_iff.1 hnil
    simp only [h.startHeight, Counter.le_iff_toNat_le]
    rfl
  | some oldest =>
    have holdest := h.inOrder.height_of_getElem? hfirst
    simp only [Counter.lt_iff_toNat_lt]
    by_cases hpruned : height.toNat ≤ start.toNat + (chain.length - maxKept)
    · rw [if_pos hpruned, if_pos (by omega)]
    · rw [if_neg hpruned, if_neg (by omega), h.reverse_blocks, List.getElem?_drop,
        Counter.toNat_distance]
      congr 2
      omega

end Gateway

end Quorum
