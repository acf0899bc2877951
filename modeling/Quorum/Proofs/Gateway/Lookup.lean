import Quorum.Proofs.Data.Transcript
import Quorum.Proofs.Gateway.Ledger

/-!
# Looking blocks up

Anyone may ask for the block at a height, between any two operations of a gateway.

* `Gateway.Request`, `Gateway.Exchange` : an operation, a change of the syncing mark or a lookup, and
  the same with its answer;
* `Gateway.exchange?` : a gateway after a request, with what was answered; nothing, once the heights
  have run out;
* `committed` : the blocks that were committed, by the exchanges;
* `Exact` : the answer that the committed blocks call for, `Holds.exact` : which is the one given;
* `Lasts` : a later answer takes nothing of an earlier one back, `Exact.lasts`;
* `lookups_are_exact` : both, for every lookup among any requests.
-/

namespace Quorum

theorem InOrder.getElem?_eq_some_iff {height : Nat} {bs : List Block} (h : InOrder height bs)
    {i : Nat} {b : Block} : bs[i]? = some b ↔ b ∈ bs ∧ b.height.toNat = height + i + 1 := by
  constructor
  · intro hb
    exact ⟨List.mem_of_getElem? hb, h.height_of_getElem? hb⟩
  · rintro ⟨hmem, hheight⟩
    obtain ⟨j, hj⟩ := List.getElem?_of_mem hmem
    have hheight' := h.height_of_getElem? hj
    obtain rfl : i = j := by omega
    exact hj

namespace Gateway

/-! ## Requests and their answers -/

/-- What a gateway is asked. -/
inductive Request where
  | perform (op : Operation)
  | setSyncing (syncing : Bool)
  | lookUp (height : Height)
  deriving DecidableEq

/-- A request and what came of it. -/
inductive Exchange where
  | performed (e : Entry)
  | syncing (syncing : Bool)
  | lookedUp (height : Height) (answer : Except GatewayError (Option Block))

/-- The request of an exchange. -/
def Exchange.request : Exchange → Request
  | performed e => .perform e.operation
  | syncing s => .setSyncing s
  | lookedUp height _ => .lookUp height

/-- The block of an exchange, if one was committed. -/
def Exchange.block? : Exchange → Option Block
  | performed e => e.block?
  | _ => none

/-- The committed blocks, in order. -/
def committed (xs : List Exchange) : List Block := xs.filterMap Exchange.block?

/-- The gateway after a request, and what was answered, unless the heights have run out. -/
def exchange? (g : Gateway) : Request → Option (Gateway × Exchange)
  | .perform op => (g.step? op).map fun (g, e) => (g, .performed e)
  | .setSyncing s => some ({ g with syncing := s }, .syncing s)
  | .lookUp height => some (g, .lookedUp height (g.block? height))

variable {g g' : Gateway} {start height : Height} {chain more : List Block} {r : Request}
  {rs : List Request} {x : Exchange} {xs before after : List Exchange}
  {a a' : Except GatewayError (Option Block)}

theorem committed_append (xs ys : List Exchange) :
    committed (xs ++ ys) = committed xs ++ committed ys := List.filterMap_append

theorem committed_concat (xs : List Exchange) (x : Exchange) :
    committed (xs ++ [x]) = committed xs ++ x.block?.toList := filterMap_concat ..

/-- The number of committed blocks is the number of requests for one. -/
theorem length_committed (xs : List Exchange) :
    (committed xs).length = (xs.map Exchange.request).countP (· == .perform .produce) := by
  induction xs using List.reverseRecOn with
  | nil => rfl
  | append_singleton xs x ih =>
    rw [committed_concat, List.length_append, ih, List.map_append, List.countP_append]
    congr 1
    rcases x with (_ | _ | _) | _ | _ <;> rfl

/-! ## The chain behind the exchanges -/

/-- **One request adds the block that it commits, if any.** -/
theorem Holds.exchange (h : g.Holds start chain) (hx : g.exchange? r = some (g', x)) :
    g'.Holds start (chain ++ x.block?.toList) := by
  cases r with
  | perform op =>
    obtain ⟨⟨_, e⟩, hs, heq⟩ := Option.map_eq_some_iff.1 hx
    cases heq
    exact h.step hs
  | setSyncing s =>
    cases hx
    exact (List.append_nil chain).symm ▸ ⟨h.startHeight, h.blocks, h.inOrder⟩
  | lookUp height =>
    cases hx
    exact (List.append_nil chain).symm ▸ h

/-- Every request is answered, unless it commits a block and the last one has the greatest height. -/
theorem Holds.isSome_exchange? (h : g.Holds start chain) : (g.exchange? r).isSome ↔
    start.toNat + chain.length + [r].countP (· == .perform .produce) < UInt64.size := by
  cases r with
  | perform op =>
    show ((g.step? op).map _).isSome ↔ _
    rw [Option.isSome_map, h.isSome_step?]
    cases op <;> exact Iff.rfl
  | setSyncing s => exact iff_of_true rfl h.inOrder.lt_size
  | lookUp height => exact iff_of_true rfl h.inOrder.lt_size

theorem request_of_exchange? (hx : g.exchange? r = some (g', x)) : x.request = r := by
  cases r with
  | perform op =>
    obtain ⟨⟨_, e⟩, hs, heq⟩ := Option.map_eq_some_iff.1 hx
    cases heq
    exact congrArg Request.perform (operation_of_step? hs)
  | setSyncing s =>
    cases hx
    rfl
  | lookUp height =>
    cases hx
    rfl

/-- **The gateway has committed what the exchanges say.** -/
theorem steady_holds (start : Height) :
    Steady exchange? Exchange.request fun g xs => g.Holds start (committed xs) where
  request_eq := request_of_exchange?
  keeps h hx := by
    exact committed_concat _ _ ▸ h.exchange hx

/-! ## Answers -/

/-- The answer that is called for when a gateway has committed a chain of blocks: a block of the
chain, as long as it is one of the newest. -/
structure Exact (start : Height) (chain : List Block) (height : Height)
    (answer : Except GatewayError (Option Block)) : Prop where
  found : ∀ b, answer = .ok (some b) ↔
    start.toNat + (chain.length - maxKept) < height.toNat ∧ b ∈ chain ∧ b.height = height
  available : (∃ b, answer = .ok (some b)) ↔
    start.toNat + (chain.length - maxKept) < height.toNat ∧
      height.toNat ≤ start.toNat + chain.length
  pruned : ∀ e, answer = .error e ↔
    height.toNat ≤ start.toNat + (chain.length - maxKept) ∧ e = .pruned height
  awaited : answer = .ok none ↔ start.toNat + chain.length < height.toNat

/-- **A lookup gives the answer that the chain calls for.** -/
theorem Holds.exact (h : g.Holds start chain) (height : Height) :
    Exact start chain height (g.block? height) := by
  rw [h.block?_eq]
  by_cases hlost : height.toNat ≤ start.toNat + (chain.length - maxKept)
  · rw [if_pos hlost]
    refine ⟨fun b => iff_of_false nofun fun hb => absurd hb.1 (Nat.not_lt.2 hlost),
      iff_of_false nofun fun hb => absurd hb.1 (Nat.not_lt.2 hlost), fun e => ?_,
      iff_of_false nofun (by omega)⟩
    rw [Except.error.injEq, eq_comm]
    exact (and_iff_right hlost).symm
  · rw [if_neg hlost]
    have hkept := Nat.lt_of_not_le hlost
    refine ⟨fun b => ?_, ?_, fun e => iff_of_false nofun fun he => hlost he.1, ?_⟩
    · rw [Except.ok.injEq, h.inOrder.getElem?_eq_some_iff, and_iff_right hkept, ← Counter.toNat_inj]
      refine and_congr_right fun _ => ?_
      rw [show start.toNat + (height.toNat - start.toNat - 1) + 1 = height.toNat by omega]
    · simp only [Except.ok.injEq, ← Option.isSome_iff_exists, isSome_getElem?]
      omega
    · rw [Except.ok.injEq, List.getElem?_eq_none_iff]
      omega

/-- A later answer to the same question takes nothing back. -/
structure Lasts (answer later : Except GatewayError (Option Block)) : Prop where
  same : ∀ {b b'}, answer = .ok (some b) → later = .ok (some b') → b' = b
  settled : later = .ok none → answer = .ok none
  lost : ∀ {e}, answer = .error e → later = .error e

/-- **What a chain calls for lasts while the chain grows.** -/
theorem Exact.lasts (h : Exact start chain height a) (h' : Exact start (chain ++ more) height a') :
    Lasts a a' where
  same {b b'} hb hb' := by
    -- the earlier block is still the one of its height
    have hkept := ((h'.found b').1 hb').1
    have hmem := ((h.found b).1 hb).2
    have hsame := (h'.found b).2 ⟨hkept, List.mem_append_left more hmem.1, hmem.2⟩
    exact Option.some.inj (Except.ok.inj (hb'.symm.trans hsame))
  settled hnone := by
    have := h'.awaited.1 hnone
    rw [List.length_append] at this
    exact h.awaited.2 (by omega)
  lost {e} he := by
    obtain ⟨hle, rfl⟩ := (h.pruned e).1 he
    refine (h'.pruned _).2 ⟨?_, rfl⟩
    rw [List.length_append]
    omega

/-- **So every lookup is answered as the exchanges before it call for.** -/
theorem exact_of_transcript? {requests : List Request}
    (hr : transcript? exchange? (Gateway.start start) requests =
      some (g, before ++ .lookedUp height a :: after)) : Exact start (committed before) height a := by
  obtain ⟨g₁, g₂, h, hx⟩ := (steady_holds start).moment [] (holds_start start) hr
  cases hx
  exact h.exact height

/-- **Every lookup is exact.** A gateway answers whatever it is asked, unless the heights run out,
and a lookup among the requests finds the block that was committed at its height if it is one of the
newest ones by then. It fails for a height before those, and it tells of a block to come for every
height after them. Two lookups of one height that find a block find the same one, a block that was
there is never to come again, and one that is lost stays lost. -/
theorem lookups_are_exact (start : Height) (requests : List Request) :
    ((transcript? exchange? (Gateway.start start) requests).isSome ↔
        start.toNat + requests.count (.perform .produce) < UInt64.size) ∧
      ∀ g xs, transcript? exchange? (Gateway.start start) requests = some (g, xs) →
        xs.map Exchange.request = requests ∧
        (∀ before height answer after, xs = before ++ .lookedUp height answer :: after →
          Exact start (committed before) height answer) ∧
        ∀ before height answer between later after,
          xs = before ++ .lookedUp height answer :: between ++ .lookedUp height later :: after →
          Lasts answer later := by
  have hI := steady_holds start
  refine ⟨?_, fun g xs hr => ⟨hI.map_request hr, ?_, ?_⟩⟩
  · refine hI.isSome_transcript? (fun h => ?_) (fun h => ?_) [] (holds_start start)
    · exact length_committed _ ▸ h.inOrder.lt_size
    · exact length_committed _ ▸ h.isSome_exchange?
  · rintro before height answer after rfl
    exact exact_of_transcript? hr
  · rintro before height answer between later after rfl
    have hlater := exact_of_transcript? hr
    rw [List.append_assoc, List.cons_append] at hr
    rw [committed_append] at hlater
    exact (exact_of_transcript? hr).lasts hlater

/-! ## A block that is lost -/

theorem Exchange.eq_lookedUp (h : x.request = .lookUp height) : ∃ a, x = .lookedUp height a := by
  cases x <;> cases h
  exact ⟨_, rfl⟩

/-- The block at a height is asked for before it is there, and as many blocks later as are kept. -/
def insistent : List Request :=
  .lookUp (Counter.ofNat 8) ::
    (List.replicate (maxKept + 1) (.perform .produce) ++
      [.lookUp (Counter.ofNat 9), .lookUp (Counter.ofNat 8)])

/-- The block is to come, then its successor is found, and it is lost itself. -/
theorem lookups_are_exact_of_insistent : ∃ g xs b,
    transcript? exchange? (Gateway.start (Counter.ofNat 7)) insistent = some (g,
      .lookedUp (Counter.ofNat 8) (.ok none) ::
        (xs ++ [.lookedUp (Counter.ofNat 9) (.ok (some b)),
          .lookedUp (Counter.ofNat 8) (.error (.pruned (Counter.ofNat 8)))])) ∧
      b ∈ committed xs ∧ b.height = Counter.ofNat 9 := by
  have hcount : insistent.count (.perform .produce) = maxKept + 1 := by
    unfold insistent
    rw [List.count_cons_of_ne (by exact nofun), List.count_append, List.count_replicate_self]
    rfl
  obtain ⟨hsome, hruns⟩ := lookups_are_exact (Counter.ofNat 7) insistent
  obtain ⟨⟨g, all⟩, hr⟩ := Option.isSome_iff_exists.1 (hsome.2 (by rw [hcount]; decide))
  obtain ⟨hreq, hexact, -⟩ := hruns g all hr
  obtain ⟨first, rest, rfl, hfirst, hrest⟩ := List.map_eq_cons_iff.1 hreq
  obtain ⟨xs, last, rfl, hxs, hlast⟩ := List.map_eq_append_iff.1 hrest
  obtain ⟨second, last, rfl, hsecond, hlast⟩ := List.map_eq_cons_iff.1 hlast
  obtain ⟨third, last, rfl, hthird, hnil⟩ := List.map_eq_cons_iff.1 hlast
  obtain rfl := List.map_eq_nil_iff.1 hnil
  obtain ⟨a, rfl⟩ := Exchange.eq_lookedUp hfirst
  obtain ⟨a', rfl⟩ := Exchange.eq_lookedUp hsecond
  obtain ⟨a'', rfl⟩ := Exchange.eq_lookedUp hthird
  have hlength : (committed xs).length = maxKept + 1 := by
    rw [length_committed, hxs]
    exact List.count_replicate_self
  -- what a lookup answers follows from the number of blocks before it
  obtain rfl := (hexact [] _ _ _ rfl).awaited.2 (by decide)
  have hsuccessor : Exact (Counter.ofNat 7) (committed xs) (Counter.ofNat 9) a' :=
    hexact (.lookedUp (Counter.ofNat 8) (.ok none) :: xs) _ _ _ rfl
  have hlost := hexact
    (.lookedUp (Counter.ofNat 8) (.ok none) :: (xs ++ [.lookedUp (Counter.ofNat 9) a'])) _ _ []
    (by rw [List.cons_append, List.append_assoc]; rfl)
  change Exact _ (committed (xs ++ [_])) _ a'' at hlost
  rw [committed_concat] at hlost
  change Exact _ (committed xs ++ []) _ _ at hlost
  rw [List.append_nil] at hlost
  obtain ⟨b, rfl⟩ := hsuccessor.available.2 (by rw [hlength]; decide)
  obtain rfl := (hlost.pruned _).2 ⟨by rw [hlength]; decide, rfl⟩
  exact ⟨g, xs, b, hr, ((hsuccessor.found b).1 rfl).2⟩

end Gateway

end Quorum
