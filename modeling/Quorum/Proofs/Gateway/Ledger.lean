import Quorum.Proofs.Data.Transcript
import Quorum.Proofs.Gateway.Chain

/-!
# The ledger of a gateway

What a gateway was asked to do and what it answered, entry by entry.

* `Gateway.Operation`, `Gateway.Entry` : a request, and the request with its answer;
* `Gateway.step?`, `Gateway.run?` : a gateway after one operation and after many, with what was
  written down; nothing, once the heights have run out;
* `acknowledged`, `produced`, `reached`, `unanswered` : what the entries say was acknowledged and
  committed, the height that was reached, and how many submissions will go unanswered;
* `Linked` : every block names the hash of the one before it;
* `Gateway.Accounts` : the gateway stands where its ledger says (`Accounts.step`, `Accounts.run`);
* `nothing_lost_or_reordered` : so what was acknowledged is what was committed and what waits.
-/

namespace Quorum

/-! ## Chains -/

/-- Every block names the hash of the one before it, the first one a given hash. -/
def Linked : BlockHash → List Block → Prop
  | _, [] => True
  | prev, b :: bs => b.prevHash = prev ∧ Linked b.hash bs

theorem linked_concat {prev : BlockHash} {bs : List Block} {b : Block} :
    Linked prev (bs ++ [b]) ↔
      Linked prev bs ∧ b.prevHash = bs.getLast?.elim prev Block.hash := by
  induction bs generalizing prev with
  | nil => exact (iff_of_eq (and_true _)).trans (iff_of_eq (true_and _)).symm
  | cons c bs ih =>
    have hlast : (c :: bs).getLast?.elim prev Block.hash =
        bs.getLast?.elim c.hash Block.hash := by
      cases bs with
      | nil => rfl
      | cons d bs =>
        rw [List.getLast?_cons_cons]
        cases hl : (d :: bs).getLast? with
        | none => exact absurd (List.getLast?_eq_none_iff.1 hl) (List.cons_ne_nil d bs)
        | some last => rfl
    show _ ∧ Linked c.hash (bs ++ [b]) ↔ (_ ∧ _) ∧ _
    rw [ih, hlast, and_assoc]

/-- The height of the last block, or the one before the first block. -/
theorem InOrder.toNat_last {start : Height} {chain : List Block} (h : InOrder start.toNat chain) :
    (chain.getLast?.elim start Block.height).toNat = start.toNat + chain.length := by
  rcases List.eq_nil_or_concat chain with rfl | ⟨init, last, rfl⟩
  · rfl
  · rw [List.concat_eq_append] at h ⊢
    rw [List.getLast?_concat, List.length_append, List.length_singleton, ← Nat.add_assoc]
    exact (inOrder_concat.1 h).2

theorem InOrder.lt_size {start : Height} {chain : List Block} (h : InOrder start.toNat chain) :
    start.toNat + chain.length < UInt64.size :=
  h.toNat_last ▸ (chain.getLast?.elim start Block.height).toNat_lt

namespace Gateway

/-! ## Operations and their answers -/

/-- What a gateway is asked to do. -/
inductive Operation where
  | submit (s : Submission)
  /-- The next submissions will go unanswered. -/
  | fail (n : Nat)
  | produce
  deriving DecidableEq

/-- An operation and what came of it. -/
inductive Entry where
  | submitted (s : Submission) (answer : Except GatewayError Height)
  | failing (n : Nat)
  | produced (b : Block)

/-- The operation of an entry. -/
def Entry.operation : Entry → Operation
  | submitted s _ => .submit s
  | failing n => .fail n
  | produced _ => .produce

/-- The submission of an entry, if it was acknowledged. -/
def Entry.acknowledged? : Entry → Option Submission
  | submitted s (.ok _) => some s
  | _ => none

/-- The block of an entry. -/
def Entry.block? : Entry → Option Block
  | produced b => some b
  | _ => none

/-- The acknowledged submissions, in order. -/
def acknowledged (es : List Entry) : List Submission := es.filterMap Entry.acknowledged?

/-- The committed blocks, in order. -/
def produced (es : List Entry) : List Block := es.filterMap Entry.block?

/-- The height of the last committed block, a height before the first one. -/
def reached (start : Height) (es : List Entry) : Height :=
  (produced es).getLast?.elim start Block.height

/-- The number of submissions that go unanswered after these entries. -/
def unanswered (es : List Entry) : Nat :=
  es.foldl (fun n e =>
    match e with
    | .submitted .. => n - 1
    | .failing m => m
    | .produced _ => n) 0

/-- The answer to a submission after these entries. -/
def answer (start : Height) (es : List Entry) : Except GatewayError Height :=
  if unanswered es = 0 then .ok (reached start es) else .error .timeout

/-- The gateway after an operation, and what came of it, unless the heights have run out. -/
def step? (g : Gateway) : Operation → Option (Gateway × Entry)
  | .submit s => some ((g.submit s).1, .submitted s (g.submit s).2)
  | .fail n => some ({ g with failNext := n }, .failing n)
  | .produce => g.produce?.map fun (g, b) => (g, .produced b)

/-- The gateway after operations, and its ledger, unless the heights have run out. -/
def run? (g : Gateway) : List Operation → Option (Gateway × List Entry)
  | [] => some (g, [])
  | op :: ops => (g.step? op).bind fun s => (s.1.run? ops).map fun t => (t.1, s.2 :: t.2)

/-! ## The gateway and its ledger -/

/-- The gateway stands where its ledger says that it does. -/
structure Accounts (g : Gateway) (start : Height) (es : List Entry) : Prop where
  holds : g.Holds start (produced es)
  linked : Linked Octets.zero (produced es)
  height : g.height = reached start es
  failNext : g.failNext = unanswered es
  conserves : (produced es).flatMap Block.submissions ++ g.pending = acknowledged es
  answers : ∀ {before s r after}, es = before ++ .submitted s r :: after → r = answer start before

variable {g g' : Gateway} {start : Height} {es es' : List Entry} {e : Entry} {op : Operation}
  {ops : List Operation} {chain : List Block} {b : Block}

theorem accounts_start (height : Height) : (Gateway.start height).Accounts height [] where
  holds := holds_start height
  linked := trivial
  height := rfl
  failNext := rfl
  conserves := rfl
  answers h := by simp at h

theorem produced_concat (es : List Entry) (e : Entry) :
    produced (es ++ [e]) = produced es ++ e.block?.toList := filterMap_concat ..

theorem acknowledged_concat (es : List Entry) (e : Entry) :
    acknowledged (es ++ [e]) = acknowledged es ++ e.acknowledged?.toList := filterMap_concat ..

/-! ## The next block -/

/-- The next block holds all that waits, and names the last block of the chain. -/
theorem Holds.nextBlock?_eq (h : g.Holds start chain) : g.nextBlock? =
    (chain.getLast?.elim start Block.height).next?.map fun height =>
      ⟨height, chain.getLast?.elim Octets.zero Block.hash, g.pending⟩ := by
  unfold nextBlock?
  rw [h.blocks, h.startHeight]
  rcases List.eq_nil_or_concat chain with rfl | ⟨init, last, rfl⟩
  · rfl
  · rw [List.concat_eq_append, List.reverse_append, List.getLast?_concat]
    rfl

/-- A block is committed, unless the last one has the greatest height. -/
theorem Holds.isSome_produce? (h : g.Holds start chain) :
    g.produce?.isSome ↔ start.toNat + chain.length + 1 < UInt64.size := by
  have hlast := h.inOrder.toNat_last
  have hlt := (chain.getLast?.elim start Block.height).toNat_lt
  unfold Gateway.produce?
  rw [Option.isSome_map, h.nextBlock?_eq, Option.isSome_map, Option.isSome_iff_ne_none, ne_eq,
    Counter.next?_eq_none]
  omega

/-- An operation adds the block that it commits, if any. -/
theorem Holds.step (h : g.Holds start chain) (hs : g.step? op = some (g', e)) :
    g'.Holds start (chain ++ e.block?.toList) := by
  cases op with
  | submit s =>
    cases hs
    exact (List.append_nil chain).symm ▸ h.submit s
  | fail n =>
    cases hs
    exact (List.append_nil chain).symm ▸ ⟨h.startHeight, h.blocks, h.inOrder⟩
  | produce =>
    obtain ⟨⟨_, b⟩, hp, heq⟩ := Option.map_eq_some_iff.1 hs
    cases heq
    exact h.produce? hp

/-- Every operation is done, unless it commits a block and the last one has the greatest height. -/
theorem Holds.isSome_step? (h : g.Holds start chain) : (g.step? op).isSome ↔
    start.toNat + chain.length + [op].countP (· == .produce) < UInt64.size := by
  cases op with
  | submit s => exact iff_of_true rfl h.inOrder.lt_size
  | fail n => exact iff_of_true rfl h.inOrder.lt_size
  | produce =>
    show (g.produce?.map _).isSome ↔ _
    rw [Option.isSome_map]
    exact h.isSome_produce?

/-! ## Entries -/

section
variable (h : g.Accounts start es)
include h

/-- An operation other than committing adds an entry about no block. -/
theorem Accounts.waiting (hholds : g'.Holds start (produced es)) (hheight : g'.height = g.height)
    (hfail : g'.failNext = unanswered (es ++ [e])) (hblock : e.block? = none)
    (hpending : g'.pending = g.pending ++ e.acknowledged?.toList)
    (hanswer : ∀ s r, e = .submitted s r → r = answer start es) : g'.Accounts start (es ++ [e]) := by
  have hproduced : produced (es ++ [e]) = produced es := by
    rw [produced_concat, hblock, Option.toList_none, List.append_nil]
  refine ⟨hproduced ▸ hholds, hproduced ▸ h.linked, ?_, hfail, ?_, fun hsplit => ?_⟩
  · rw [hheight, h.height]
    unfold reached
    rw [hproduced]
  · rw [hproduced, hpending, ← List.append_assoc, h.conserves, acknowledged_concat]
  · rcases concat_eq_append_cons hsplit with ⟨rfl, he, -⟩ | ⟨after, hes, -⟩
    · exact hanswer _ _ he.symm
    · exact h.answers hes

theorem Accounts.committing (hp : g.produce? = some (g', b)) :
    g'.Accounts start (es ++ [.produced b]) := by
  have hproduced : produced (es ++ [.produced b]) = produced es ++ [b] := produced_concat es _
  have hholds := h.holds.produce? hp
  obtain ⟨c, hc, heq⟩ := Option.map_eq_some_iff.1 hp
  cases heq
  rw [h.holds.nextBlock?_eq] at hc
  obtain ⟨height, -, rfl⟩ := Option.map_eq_some_iff.1 hc
  refine ⟨hproduced ▸ hholds, ?_, ?_, ?_, ?_, fun hsplit => ?_⟩
  · rw [hproduced]
    exact linked_concat.2 ⟨h.linked, rfl⟩
  · unfold reached
    rw [hproduced, List.getLast?_concat]
    rfl
  · unfold unanswered
    rw [List.foldl_concat]
    exact h.failNext
  · rw [hproduced, List.flatMap_append, List.flatMap_singleton, h.conserves, acknowledged_concat]
    rfl
  · rcases concat_eq_append_cons hsplit with ⟨-, he, -⟩ | ⟨after, hes, -⟩
    · cases he
    · exact h.answers hes

theorem Accounts.submitting (s : Submission) :
    (g.submit s).1.Accounts start (es ++ [.submitted s (g.submit s).2]) := by
  have hholds := h.holds.submit s
  have hfail : (g.submit s).1.failNext = unanswered (es ++ [.submitted s (g.submit s).2]) := by
    unfold unanswered
    rw [List.foldl_concat]
    show _ = unanswered es - 1
    rw [← h.failNext]
    unfold Gateway.submit
    split
    · rename_i n hn
      rw [hn]
      rfl
    · rename_i hn
      show g.failNext = _
      rw [hn]
  have hanswer : (g.submit s).2 = answer start es := by
    unfold answer
    rw [← h.failNext, ← h.height]
    unfold Gateway.submit
    split
    · rename_i n hn
      rw [hn]
      rfl
    · rename_i hn
      rw [if_pos hn]
  have hpending : (g.submit s).1.pending =
      g.pending ++ (Entry.submitted s (g.submit s).2).acknowledged?.toList := by
    unfold Gateway.submit
    split
    · exact (List.append_nil _).symm
    · rfl
  have hheight : (g.submit s).1.height = g.height := by
    unfold Gateway.submit
    split <;> rfl
  refine h.waiting hholds hheight hfail rfl hpending fun s' r he => ?_
  cases he
  exact hanswer

/-- **One operation adds one entry, and the gateway stands where its ledger says.** -/
theorem Accounts.step (hs : g.step? op = some (g', e)) : g'.Accounts start (es ++ [e]) := by
  cases op with
  | submit s =>
    cases hs
    exact h.submitting s
  | fail n =>
    cases hs
    refine h.waiting ⟨h.holds.startHeight, h.holds.blocks, h.holds.inOrder⟩ rfl ?_ rfl
      (List.append_nil _).symm nofun
    unfold unanswered
    rw [List.foldl_concat]
  | produce =>
    obtain ⟨⟨_, b⟩, hp, heq⟩ := Option.map_eq_some_iff.1 hs
    cases heq
    exact h.committing hp

end

/-! ## Many operations -/

theorem operation_of_step? (hs : g.step? op = some (g', e)) : e.operation = op := by
  cases op with
  | submit s =>
    cases hs
    rfl
  | fail n =>
    cases hs
    rfl
  | produce =>
    obtain ⟨⟨_, b⟩, hp, heq⟩ := Option.map_eq_some_iff.1 hs
    cases heq
    rfl

theorem steady_accounts (start : Height) :
    Steady step? Entry.operation fun g es => g.Accounts start es where
  request_eq := operation_of_step?
  keeps h := h.step

/-- A ledger is the transcript of the operations. -/
theorem run?_eq (g : Gateway) (ops : List Operation) : g.run? ops = transcript? step? g ops := by
  induction ops generalizing g with
  | nil => rfl
  | cons op ops ih =>
    unfold run? transcript?
    simp only [ih]

/-- The number of committed blocks is the number of operations that commit one. -/
theorem length_produced (es : List Entry) :
    (produced es).length = (es.map Entry.operation).countP (· == .produce) := by
  induction es using List.reverseRecOn with
  | nil => rfl
  | append_singleton es e ih =>
    rw [produced_concat, List.length_append, ih, List.map_append, List.countP_append]
    congr 1
    cases e <;> rfl

/-- **After any operations, the gateway stands where its ledger says.** -/
theorem Accounts.run (h : g.Accounts start es) (hr : g.run? ops = some (g', es')) :
    es'.map Entry.operation = ops ∧ g'.Accounts start (es ++ es') := by
  rw [run?_eq] at hr
  exact ⟨(steady_accounts start).map_request hr, (steady_accounts start).transcript h hr⟩

/-- Only the heights can run out. -/
theorem Accounts.isSome_run? (h : g.Accounts start es) : (g.run? ops).isSome ↔
    start.toNat + (produced es).length + ops.count .produce < UInt64.size := by
  rw [run?_eq, length_produced]
  refine (steady_accounts start).isSome_transcript? (fun h => ?_) (fun h => ?_) es h
  · exact length_produced _ ▸ h.holds.inOrder.lt_size
  · exact length_produced _ ▸ h.holds.isSome_step?

/-- **A gateway loses, duplicates and reorders nothing.** Whatever it is asked to do, it does unless
the heights run out, and at every moment the submissions of the blocks it has committed, followed by
those that wait, are the ones that it has acknowledged, in the order in which they came. The heights
of the blocks follow one after the other from the start, the first one names no block and every
other one the hash of the one before it, also when that one is no longer kept. A submission is
acknowledged with the height of the last block, or the start, unless it is one of those that were to
go unanswered. -/
theorem nothing_lost_or_reordered (start : Height) (ops : List Operation) :
    (((Gateway.start start).run? ops).isSome ↔
        start.toNat + ops.count .produce < UInt64.size) ∧
      ∀ g es, (Gateway.start start).run? ops = some (g, es) →
        es.map Entry.operation = ops ∧
        (produced es).flatMap Block.submissions ++ g.pending = acknowledged es ∧
        InOrder start.toNat (produced es) ∧ Linked Octets.zero (produced es) ∧
        g.status.height = reached start es ∧
        ∀ before s r after, es = before ++ .submitted s r :: after → r = answer start before := by
  refine ⟨(accounts_start start).isSome_run?, fun g es hr => ?_⟩
  obtain ⟨hops, h⟩ := (accounts_start start).run hr
  exact ⟨hops, h.conserves, h.holds.inOrder, h.linked, h.height, fun _ _ _ _ => h.answers⟩

/-! ## A submission that goes unanswered -/

/-- A submission of one byte. -/
def note (byte : UInt8) : Submission := ⟨[byte], Octets.zero⟩

/-- Four submissions, the second of which goes unanswered, and two blocks. -/
def busy : List Operation :=
  [.submit (note 1), .fail 1, .submit (note 2), .produce, .submit (note 3), .produce,
    .submit (note 4)]

/-- The unanswered submission is in no block, and the last one waits. -/
theorem nothing_lost_or_reordered_of_busy : ∃ g es,
    (Gateway.start (Counter.ofNat 7)).run? busy = some (g, es) ∧
      acknowledged es = [note 1, note 3, note 4] ∧
      (produced es).map Block.submissions = [[note 1], [note 3]] ∧ g.pending = [note 4] ∧
      (produced es).flatMap Block.submissions ++ g.pending = acknowledged es ∧
      InOrder 7 (produced es) ∧ Linked Octets.zero (produced es) ∧
      reached (Counter.ofNat 7) es = Counter.ofNat 9 := by
  obtain ⟨g, es, hr, hack, hproduced, hpending, hreached⟩ : ∃ g es,
      (Gateway.start (Counter.ofNat 7)).run? busy = some (g, es) ∧
        acknowledged es = [note 1, note 3, note 4] ∧
        (produced es).map Block.submissions = [[note 1], [note 3]] ∧ g.pending = [note 4] ∧
        reached (Counter.ofNat 7) es = Counter.ofNat 9 :=
    ⟨_, _, rfl, rfl, rfl, rfl, rfl⟩
  obtain ⟨-, hconserves, hin, hlinked, -⟩ :=
    (nothing_lost_or_reordered (Counter.ofNat 7) busy).2 g es hr
  exact ⟨g, es, hr, hack, hproduced, hpending, hconserves, hin, hlinked, hreached⟩

end Gateway

end Quorum
