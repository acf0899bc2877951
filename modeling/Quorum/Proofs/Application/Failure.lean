import Quorum.Proofs.Application.Validated

/-!
# What a failed block leaves

A block can fail at the end of a round, when the next round is looked up or started, and, with the
application already in its next round, when the background round is started again. Nothing of the
agreed state has moved before the last of these, and the last one never fails.

* `Round.origin_endBlock`, `sameInstance_endBackground`, `sameInstance_endForeground` : the end of a
  block leaves the instance of a round as it is, whether it fails or not;
* `Restarts` : wherever the current round leads, the background round can be started there;
* `transition_of_error`, `endBlock_of_error` : then a failure leaves the agreed state as it is;
* `Obtained`, `Secure` : how a service comes to be, and why the background round of such a service
  can be started wherever the current one leads (`Secure.restarts`). Either the table is the bundled
  one and never leads back to registration, so the next round has read the same peers before, or
  nothing but the rounds has written into the agreed data;
* `failures_leave_agreed_state` : so no failure moves the agreed state, and a block that is out of
  order moves nothing at all.
-/

namespace Quorum

/-- The end of a block may conclude a round, and changes nothing else of it. -/
theorem Round.origin_endBlock (r : Round) (data : Snapshot) (height : Height) (timeout : UInt64) :
    (r.endBlock data height timeout).1.origin = r.origin := by
  unfold endBlock
  split_ifs
  · rfl
  split
  · rfl
  · rfl
  split <;> rfl

namespace Application

variable {t : Table} {a a' x : Application} {b : Block} {height : Height} {e : FatalError}

/-! ## The end of a block -/

theorem sameInstance_endBackground (a : Application) (height : Height) :
    SameInstance a (a.endBackground height).1 := by
  unfold endBackground
  cases a.background with
  | none => exact .refl a
  | some bg => exact sameInstance_background a _

theorem sameInstance_endForeground (a : Application) (height : Height) :
    SameInstance a (a.endForeground height).1 where
  __ := SameInstance.refl a
  current := a.current.origin_endBlock a.data height a.params.roundTimeout

/-- Wherever the current round leads with new agreed data, the background round can be started. -/
def Restarts (a : Application) (data : Snapshot) (event : Event) : Prop :=
  ∀ target roundCount next, a.table.target a.current.kind event = .ok target →
    a.roundCount.next? = some roundCount →
      instantiate a.params data target roundCount a.height = .ok next →
        ∃ y, (a.moved data roundCount next a.background).refreshBackground = .ok y

/-- A transition that fails changes nothing, if the background round can be started. -/
theorem transition_of_error {source : RoundKind} {data : Snapshot} {event : Event}
    {preempted : Bool} (h : a.transition source data event preempted = (a', .error e))
    (hrestarts : preempted = false → source = a.current.kind ∧ a.Restarts data event) :
    a' = a := by
  unfold transition at h
  simp only at h
  split at h
  · cases h
    rfl
  rename_i target roundCount next hready
  obtain ⟨k, hk, hready⟩ := bind_eq_ok.1 hready
  obtain ⟨c, hc, hready⟩ := bind_eq_ok.1 hready
  obtain ⟨r, hr, hready⟩ := bind_eq_ok.1 hready
  cases hready
  split_ifs at h with hp
  · cases h
  · -- the application has moved, so only the background round could fail
    obtain ⟨rfl, hstarts⟩ := hrestarts (Bool.eq_false_iff.2 hp)
    have hk : a.table.target a.current.kind event = .ok target := by
      cases ht : a.table.target a.current.kind event <;> rw [ht] at hk <;> cases hk
      rfl
    have hc : a.roundCount.next? = some roundCount := by
      cases hn : a.roundCount.next? <;> rw [hn] at hc <;> cases hc
      rfl
    obtain ⟨y, hy⟩ := hstarts target roundCount next hk hc hr
    split at h
    · next cause hcause => exact absurd (hy.symm.trans hcause) nofun
    · cases h

/-- The end of a block that fails leaves the agreed state as it is, if the background round can be
started wherever the current round leads. -/
theorem endBlock_of_error (h : a.endBlock height = (a', .error e))
    (hrestarts : ∀ a₁ a₂ data event, a.endBackground height = (a₁, .ok none) →
      a₁.endForeground height = (a₂, .ok (some (data, event))) → a₂.Restarts data event) :
    SameInstance a a' := by
  have hbackground := a.sameInstance_endBackground height
  unfold endBlock at h
  split at h
  · rename_i a₁ _ hbg
    cases h
    rwa [hbg] at hbackground
  rename_i a₁ v hbg
  rw [hbg] at hbackground
  have hforeground := a₁.sameInstance_endForeground height
  split at h
  · rename_i a₂ _ hfg
    cases h
    rw [hfg] at hforeground
    exact hbackground.trans hforeground
  rename_i a₂ w hfg
  rw [hfg] at hforeground
  have hboth := hbackground.trans hforeground
  -- whichever round has ended, a transition that fails stays with the instance
  have stays {source : RoundKind} {data : Snapshot} {event : Event} {preempted : Bool}
      (hfail : ((a₂.transition source data event preempted).1,
        (a₂.transition source data event preempted).2.map some) = (a', .error e))
      (hr : preempted = false → source = a₂.current.kind ∧ a₂.Restarts data event) :
      SameInstance a a' := by
    cases ht : a₂.transition source data event preempted with
    | mk a₃ res =>
      rw [ht] at hfail
      cases res with
      | ok _ => cases hfail
      | error _ =>
        cases hfail
        rw [transition_of_error ht hr]
        exact hboth
  split at h
  · exact stays h nofun
  · exact stays h fun _ => ⟨rfl, hrestarts a₁ a₂ _ _ hbg hfg⟩
  · cases h

/-! ## Why the background round can be started -/

/-- A round other than registration asks the peers that the background round asks, so where it was
started the background round can be started. -/
theorem exists_refreshed {target : RoundKind} {roundCount : RoundCount}
    (hbackground : ∀ k, a.table.backgroundRound? = some k → k ≠ .registrationStartup)
    (htarget : target ≠ .registrationStartup) (hcurrent : a.current.kind = target)
    (hi : instantiate a.params a.data target roundCount height = .ok a.current) :
    ∃ y, a.refreshBackground = .ok y := by
  unfold refreshBackground
  cases hbg : a.table.backgroundRound? with
  | none => exact ⟨a, rfl⟩
  | some k =>
    cases hf : a.isFinished with
    | true => exact ⟨_, rfl⟩
    | false =>
      obtain ⟨peers, keeper, hpeers, -, hstart⟩ := of_instantiate_eq_ok hi
      obtain ⟨hne, hle⟩ := Round.of_start_eq_ok (hcurrent ▸ hf) hstart
      -- both read the peers that were agreed on
      have hread : k.participants a.data a.params.participants = .ok peers := by
        unfold RoundKind.participants RoundKind.reading at hpeers ⊢
        rw [if_neg htarget] at hpeers
        rw [if_neg (hbackground k hbg)]
        cases hr : a.data.readOr Snapshot.Key.participants a.params.participants with
        | error cause =>
          rw [hr] at hpeers
          cases hpeers
        | ok ps =>
          rw [hr] at hpeers
          cases hpeers
          rfl
      simp only [hread, ok_bind, Bool.false_eq_true, if_false]
      split_ifs
      · exact ⟨a, rfl⟩
      · rw [Round.start_eq hne hle]
        exact ⟨_, rfl⟩

/-- The bundled table never leads back to registration. -/
theorem restarts_of_bundled (ht : Table.bundled = .ok a.table) (data : Snapshot) (event : Event) :
    a.Restarts data event := by
  intro target roundCount next hk hc hi
  have hno : ∀ edge ∈ Table.bundledBackground :: Table.bundledEdges,
      edge.target ≠ .registrationStartup := by decide
  have hkind := kind_of_instantiate hi
  refine exists_refreshed (fun k hbg => ?_) (hno _ (RoundKind.edge_of_target ht hk)) hkind hi
  change a.table.backgroundRound? = some k at hbg
  rw [Table.bundled_eq] at ht
  rw [← Except.ok.inj ht] at hbg
  cases hbg
  decide

/-- Where only the rounds have written into the agreed data, it always names peers to ask. -/
theorem Grounded.restarts {rounds : List RoundKind} {data : Snapshot} {event : Event}
    (h : Grounded t rounds a) (ht : t.Complete rounds)
    (hl : Leads t rounds a a.current.kind data event) : a.Restarts data event := by
  intro target roundCount next hk hc hi
  obtain ⟨k, hmem, hfollows⟩ := hl.follows
  rw [h.table, hfollows] at hk
  cases hk
  have hconf : data.Conforms a.params.participants roundCount.toNat := by
    rw [Counter.next?_eq_some.1 hc]
    exact hl.conforms
  rcases instantiate_cases hconf h.nonempty h.bounded target roundCount a.height with
    ⟨cause, hfail⟩ | ⟨r, hr, hproper, hkind⟩
  · cases hfail.symm.trans hi
  · cases hr.symm.trans hi
    have hmoved : Grounded t rounds (a.moved data roundCount next a.background) :=
      ⟨h.table, h.nonempty, h.bounded, hconf, hproper, hkind ▸ hmem, h.background⟩
    obtain ⟨y, hy, -⟩ := hmoved.refreshBackground ht
    exact ⟨y, hy⟩

/-! ## Services -/

/-- A service as it comes to be: started with the bundled table or with any that was built, or
resumed from any checkpoint. -/
inductive Obtained : Application → Prop
  | started {params : AppParams} {a : Application} (h : start params = .ok a) : Obtained a
  | startedWith {params : AppParams} {a : Application} {initial : RoundKind} {edges : List Edge}
    {background : Option Edge} {t : Table}
    (hbuild : Table.build initial edges background = .ok t) (h : startWith params t = .ok a) :
    Obtained a
  | restored {params : AppParams} {a : Application} {c : Checkpoint}
    (h : restore params c = .ok a) : Obtained a

/-- The background round can be started again wherever the service goes: the table is the bundled
one, or the service has ended, or it and the agreed data are in order. -/
inductive Secure (x : Application) : Prop
  | bundled (ht : Table.bundled = .ok x.table)
  | finished (hf : x.isFinished = true)
  | grounded {rounds : List RoundKind} (ht : x.table.Complete rounds)
    (h : Grounded x.table rounds x) (hv : x.data.version.toNat ≤ x.height.toNat)

theorem table_of_restoreWith {params : AppParams} {c : Checkpoint}
    (h : restoreWith params t c = .ok a) : a.table = t := by
  obtain ⟨_, -, href⟩ := bind_eq_ok.1 h
  obtain ⟨_, rfl⟩ := refreshBackground_of_ok href
  rfl

theorem Obtained.secure (h : Obtained a) : Secure a := by
  cases h with
  | started h | restored h =>
    obtain ⟨table, ht, h⟩ := bind_eq_ok.1 h
    cases ht
    exact .bundled (congrArg Except.ok (table_of_restoreWith h).symm)
  | startedWith hbuild h =>
    obtain ⟨rfl, rounds, hinitial, ht⟩ := Table.complete_of_build hbuild
    rcases grounded_of_startWith h ht hinitial with hf | ⟨hground, hv⟩
    · exact .finished hf
    · rw [← hground.table] at ht hground
      exact .grounded ht hground hv

/-- At the end of a block of such a service the background round can be started. -/
theorem Grounded.restarts_at_end {rounds : List RoundKind} {a₁ a₂ : Application} {data : Snapshot}
    {event : Event} (h : Grounded t rounds a) (ht : t.Complete rounds)
    (hv : a.data.version.toNat + 1 < UInt64.size) (hbg : a.endBackground height = (a₁, .ok none))
    (hfg : a₁.endForeground height = (a₂, .ok (some (data, event)))) : a₂.Restarts data event := by
  obtain ⟨_, _, hbg', h₁, -⟩ := h.endBackground ht hv height
  cases hbg.symm.trans hbg'
  obtain ⟨hsame₁, -⟩ := endBackground_of_ok hbg
  obtain ⟨_, _, hfg', h₂, hleads⟩ := h₁.endForeground ht (by rwa [hsame₁.data]) height
  cases hfg.symm.trans hfg'
  obtain ⟨hsame₂, -⟩ := endForeground_of_ok hfg
  have hl := (hleads data event rfl).of_same hsame₂
  rw [← hsame₂.kind] at hl
  exact h₂.restarts ht hl

/-- **A block that fails leaves the agreed state of a secure service as it is.** -/
theorem Secure.of_error (h : Secure x) (hfail : (x.processBlock b).2 = .error e) :
    SameInstance x (x.processBlock b).1 := by
  by_cases hb : b.height.toNat = x.height.toNat + 1
  swap
  · rw [processBlock_of_refused hb]
    exact .refl x
  cases hf : x.isFinished with
  | true =>
    rw [processBlock_of_finished hf hb] at hfail
    cases hfail
  | false =>
    have hat : SameInstance x { x with height := b.height } := ⟨rfl, rfl, rfl, rfl, rfl, rfl, rfl⟩
    obtain ⟨hroute, -⟩ := sameInstance_routeAll { x with height := b.height } b.submissions
    have hrouted := hat.trans hroute
    rw [processBlock_eq hf hb] at hfail ⊢
    cases hend : (({ x with height := b.height } : Application).routeAll b.submissions).1.endBlock
        b.height with
    | mk y res =>
      rw [hend] at hfail
      cases res with
      | ok o => cases hfail
      | error _ =>
        refine hrouted.trans (endBlock_of_error hend fun a₁ a₂ data event hbg hfg => ?_)
        cases h with
        | bundled ht =>
          have hsame := (hrouted.trans (endBackground_of_ok hbg).1).trans (endForeground_of_ok hfg).1
          exact restarts_of_bundled (hsame.table ▸ ht) data event
        | finished hf' => cases hf.symm.trans hf'
        | grounded ht hground hv =>
          have hground' : Grounded x.table _ { x with height := b.height } := { hground with }
          have hlt := b.height.toNat_lt
          have hdata := hrouted.data
          exact (hground'.routeAll b.submissions).restarts_at_end ht (by rw [hdata]; omega) hbg hfg

/-- Whatever becomes of a block, the service stays secure. -/
theorem Secure.processBlock (h : Secure x) (b : Block) : Secure (x.processBlock b).1 := by
  have htable : (x.processBlock b).1.table = x.table := by
    cases hproc : x.processBlock b with
    | mk y res =>
      cases res with
      | error e =>
        have hsame := h.of_error (congrArg Prod.snd hproc)
        rw [hproc] at hsame
        exact hsame.table
      | ok o =>
        obtain ⟨hadvance, -⟩ := processBlock_advances hproc
        generalize o.transition = moved at hadvance
        cases hadvance with
        | stays same => exact same.table
        | moves hm => exact hm.table
  cases h with
  | bundled ht => exact .bundled (htable.symm ▸ ht)
  | finished hf => exact .finished (processBlock_finished hf b).1
  | grounded ht hground hv =>
    obtain ⟨hground', hv', -⟩ := hground.processBlock ht hv b
    rw [← htable] at ht hground'
    exact .grounded ht hground' hv'

theorem Secure.afterBlocks (h : Secure a) (bs : List Block) : Secure (a.afterBlocks bs) := by
  induction bs using List.reverseRecOn with
  | nil => exact h
  | append_singleton bs b ih =>
    rw [afterBlocks_concat]
    exact ih.processBlock b

/-- A block is out of order exactly if it is not the next one; then it changes nothing. -/
theorem of_blockOutOfOrder {expected received : Height}
    (hfail : (x.processBlock b).2 = .error (.blockOutOfOrder expected received)) :
    (x.processBlock b).1 = x ∧ expected.toNat = x.height.toNat + 1 ∧ received = b.height ∧
      b.height ≠ expected := by
  have hb : b.height.toNat ≠ x.height.toNat + 1 :=
    fun hb => orderly_processBlock hb (expected, received) hfail
  rw [processBlock_of_refused hb] at hfail ⊢
  have hrefusal := Except.error.inj hfail
  unfold refusal at hrefusal
  cases hn : x.height.next? with
  | none =>
    rw [hn] at hrefusal
    cases hrefusal
  | some next =>
    rw [hn] at hrefusal
    cases hrefusal
    have hnext := Counter.next?_eq_some.1 hn
    exact ⟨rfl, hnext, rfl, fun he => hb (he ▸ hnext)⟩

/-- **Failures leave the agreed state untouched.** However a service came to be, with whatever table
and from whatever checkpoint, and whatever blocks it was given, if a block fails then the agreed
data, the history, the kind of the current round, the round before it and the round count are what
they were. If it fails because it is out of order, the application is what it was as a whole, and
the block that should have come is applied as if the other had never been offered, and is not
refused for its height. -/
theorem failures_leave_agreed_state (h : Obtained a) (bs : List Block) (b : Block)
    (hfail : ((a.afterBlocks bs).processBlock b).2 = .error e) :
    SameInstance (a.afterBlocks bs) (a.afterBlocks (bs ++ [b])) ∧
      (a.afterBlocks (bs ++ [b])).current.kind = (a.afterBlocks bs).current.kind ∧
      ∀ expected received, e = .blockOutOfOrder expected received →
        a.afterBlocks (bs ++ [b]) = a.afterBlocks bs ∧
        ∀ next : Block, next.height = expected →
          (a.afterBlocks (bs ++ [b])).processBlock next = (a.afterBlocks bs).processBlock next ∧
            Orderly ((a.afterBlocks bs).processBlock next).2 := by
  rw [afterBlocks_concat]
  have hsame := (h.secure.afterBlocks bs).of_error hfail
  refine ⟨hsame, hsame.kind, ?_⟩
  rintro expected received rfl
  obtain ⟨hunchanged, hexpected, -⟩ := of_blockOutOfOrder hfail
  refine ⟨hunchanged, fun next hnext => ⟨by rw [hunchanged], orderly_processBlock ?_⟩⟩
  rw [hnext, hexpected]

/-! ## A round that cannot be started -/

/-- Randomness that times out leads to the keeper's round, although no keeper was ever chosen. -/
def keeperless : List Edge := [
  ⟨.randomness, .done, .terminated⟩,
  ⟨.randomness, .noMajority, .terminated⟩,
  ⟨.randomness, .roundTimeout, .finalization⟩,
  ⟨.finalization, .done, .terminated⟩,
  ⟨.finalization, .finalizationFailed, .terminated⟩,
  ⟨.finalization, .roundTimeout, .terminated⟩]

/-- The first block fails at the transition, and offered again it is out of order. -/
theorem failures_leave_agreed_state_of_keeperless : ∃ t a,
    Table.build .randomness keeperless (some Table.bundledBackground) = .ok t ∧
      startWith brief t = .ok a ∧
      (a.processBlock (Block.first [])).2 =
        .error (.snapshot .finalization (.keyNotFound Snapshot.Key.keeper)) ∧
      SameInstance a (a.afterBlocks [Block.first []]) ∧
      ((a.afterBlocks [Block.first []]).processBlock (Block.first [])).2 =
        .error (.blockOutOfOrder (Counter.ofNat 2) (Counter.ofNat 1)) ∧
      a.afterBlocks [Block.first [], Block.first []] = a.afterBlocks [Block.first []] := by
  obtain ⟨t, a, hbuild, hstart, hfail, hagain⟩ : ∃ t a,
      Table.build .randomness keeperless (some Table.bundledBackground) = .ok t ∧
        startWith brief t = .ok a ∧
        (a.processBlock (Block.first [])).2 =
          .error (.snapshot .finalization (.keyNotFound Snapshot.Key.keeper)) ∧
        ((a.afterBlocks [Block.first []]).processBlock (Block.first [])).2 =
          .error (.blockOutOfOrder (Counter.ofNat 2) (Counter.ofNat 1)) :=
    ⟨_, _, rfl, rfl, rfl, rfl⟩
  have hobtained : Obtained a := .startedWith hbuild hstart
  obtain ⟨hsame, -⟩ := failures_leave_agreed_state hobtained [] (Block.first []) hfail
  obtain ⟨-, -, horder⟩ :=
    failures_leave_agreed_state hobtained [Block.first []] (Block.first []) hagain
  exact ⟨t, a, hbuild, hstart, hfail, hsame, hagain, (horder _ _ rfl).1⟩

end Application

end Quorum
