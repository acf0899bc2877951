import Mathlib.Data.List.Induction
import Quorum.Proofs.Application.Step

/-!
# Runs of the bundled application

* `Application.initial` : what a service starts as (`start_eq_ok_iff`);
* `restoreWith_eq` : what it resumes as from a checkpoint;
* `InOrder`, `Application.afterBlocks` : blocks whose heights follow one after the other, and the
  application after them;
* `Coherent.run_induction` : what holds at the start and is kept by every step holds after every
  run;
* `Coherent.afterBlocks` : so every run leads from a coherent application to a coherent one;
* `coherent_of_start` : and so does every run from the start.
-/

namespace Quorum

open Snapshot

/-! ## Blocks in order -/

/-- The heights of the blocks follow one after the other from a height on. -/
def InOrder : Nat → List Block → Prop
  | _, [] => True
  | height, b :: bs => b.height.toNat = height + 1 ∧ InOrder (height + 1) bs

theorem inOrder_append {height : Nat} {xs ys : List Block} :
    InOrder height (xs ++ ys) ↔ InOrder height xs ∧ InOrder (height + xs.length) ys := by
  induction xs generalizing height with
  | nil => exact (iff_of_eq (true_and _)).symm
  | cons b xs ih =>
    show _ ∧ InOrder (height + 1) (xs ++ ys) ↔ (_ ∧ _) ∧ _
    rw [ih, List.length_cons, and_assoc, Nat.add_right_comm, Nat.add_assoc]

theorem inOrder_concat {height : Nat} {bs : List Block} {b : Block} :
    InOrder height (bs ++ [b]) ↔
      InOrder height bs ∧ b.height.toNat = height + bs.length + 1 := by
  rw [inOrder_append]
  exact and_congr_right fun _ => iff_of_eq (and_true _)

namespace Application

/-- The application after blocks. -/
def afterBlocks (a : Application) (bs : List Block) : Application :=
  bs.foldl (fun a b => (a.processBlock b).1) a

@[simp] theorem afterBlocks_nil (a : Application) : a.afterBlocks [] = a := rfl

theorem afterBlocks_append (a : Application) (xs ys : List Block) :
    a.afterBlocks (xs ++ ys) = (a.afterBlocks xs).afterBlocks ys := List.foldl_append

theorem afterBlocks_concat (a : Application) (bs : List Block) (b : Block) :
    a.afterBlocks (bs ++ [b]) = ((a.afterBlocks bs).processBlock b).1 :=
  afterBlocks_append a bs [b]

/-! ## Starting -/

/-- The bundled application before the first block. -/
def initial (params : AppParams) : Application where
  params := params
  table := ⟨.registrationStartup, Table.bundledEdges, some Table.bundledBackground⟩
  current := Round.fresh .registrationStartup Counter.zero params.participants none Counter.zero
    false
  previous := none
  background := some (Round.watch params.participants Counter.zero Counter.zero)
  data := Snapshot.empty
  history := History.start Snapshot.empty params.historyLength
  roundCount := Counter.zero
  height := Counter.zero

/-- What the bundled application resumes as in a round of a checkpoint. -/
def resumed (params : AppParams) (table : Table) (c : Checkpoint) (current : Round) :
    Application where
  params := params
  table := table
  current := current
  previous := c.previous
  background := if c.round.isTerminal then none else some (Round.watch
    (RoundKind.termination.asked c.data params.participants) c.roundCount c.height)
  data := c.data
  history := History.start c.data params.historyLength
  roundCount := c.roundCount
  height := c.height

theorem restoreWith_eq {params : AppParams} {table : Table} {c : Checkpoint} {periods : Nat}
    {current : Round} (ht : Table.bundled = .ok table)
    (hc : c.data.Conforms params.participants periods)
    (hne : params.participants.peers ≠ []) (hle : params.participants.size ≤ PeerCount.limit)
    (hi : instantiate params c.data c.round c.roundCount c.height = .ok current)
    (hk : current.kind = c.round) :
    restoreWith params table c = .ok (resumed params table c current) := by
  have href := refreshBackground_eq
    (a := { resumed params table c current with background := none }) ht hc hne hle
  have hf : ({ resumed params table c current with background := none } : Application).isFinished =
      c.round.isTerminal := congrArg RoundKind.isTerminal hk
  unfold restoreWith
  rw [hi, ok_bind]
  rw [hf] at href
  exact href

theorem instantiate_initial {params : AppParams} (hne : params.participants.peers ≠ [])
    (hle : params.participants.size ≤ PeerCount.limit) :
    instantiate params Snapshot.empty .registrationStartup Counter.zero Counter.zero =
      .ok (initial params).current := by
  unfold instantiate
  show (Round.start _ _ params.participants _ _ _).mapError _ = _
  rw [Round.start_eq hne hle]
  rfl

/-- A service starts, if its peers can be counted. -/
theorem start_eq {params : AppParams} (hne : params.participants.peers ≠ [])
    (hle : params.participants.size ≤ PeerCount.limit) :
    start params = .ok (initial params) := by
  have hc : Snapshot.empty.Conforms params.participants 0 := conforms_empty
  have hr := restoreWith_eq (c := ⟨Snapshot.empty, .registrationStartup, none, Counter.zero,
    Counter.zero⟩) Table.bundled_eq hc hne hle (instantiate_initial hne hle) rfl
  unfold start
  rw [Table.bundled_eq]
  exact hr

/-- A service starts exactly if it has peers, and they can be counted. -/
theorem start_eq_ok_iff {params : AppParams} {a : Application} :
    start params = .ok a ↔ (params.participants.peers ≠ [] ∧
      params.participants.size ≤ PeerCount.limit) ∧ a = initial params := by
  constructor
  · intro h
    have hbounds : params.participants.peers ≠ [] ∧
        params.participants.size ≤ PeerCount.limit := by
      cases hr : Round.start .registrationStartup Counter.zero params.participants none
          Counter.zero false with
      | ok r => exact Round.of_start_eq_ok rfl hr
      | error e =>
        have hi : instantiate params Snapshot.empty .registrationStartup Counter.zero
            Counter.zero = .error (.configuration e) := by
          show (Round.start _ _ params.participants _ _ _).mapError _ = _
          rw [hr]
          rfl
        unfold start startWith restoreWith at h
        rw [Table.bundled_eq] at h
        change (instantiate params Snapshot.empty .registrationStartup Counter.zero Counter.zero
          >>= _) = _ at h
        rw [hi] at h
        cases h
    rw [start_eq hbounds.1 hbounds.2] at h
    exact ⟨hbounds, (Except.ok.inj h).symm⟩
  · rintro ⟨⟨hne, hle⟩, rfl⟩
    exact start_eq hne hle

theorem coherent_initial {params : AppParams} (hne : params.participants.peers ≠ [])
    (hle : params.participants.size ≤ PeerCount.limit) : (initial params).Coherent where
  table := Table.bundled_eq
  nonempty := hne
  bounded := hle
  conforms := conforms_empty
  needs := fun key hkey => by cases hkey
  wellFormed := Round.wellFormed_fresh hne hle fun h => by cases h
  collecting := rfl
  foreground := fun h => by cases h
  instantiated := instantiate_initial hne hle
  roundCount_le := Nat.le_refl _
  version_le := Nat.le_refl _
  startHeight_le := Nat.le_refl _
  running := fun _ => ⟨_, rfl, Round.watches_watch hne hle _ _, Nat.le_refl _⟩
  ended := fun h => by cases h

/-! ## Runs -/

variable {a : Application}

/-- What holds at the start and is kept by every step holds after every run. -/
theorem Coherent.run_induction {P : List Block → Application → Prop} (h : a.Coherent) (h0 : P [] a)
    (hstep : ∀ bs b a' o, InOrder a.height.toNat (bs ++ [b]) → (a.afterBlocks bs).Coherent →
      b.height.toNat = (a.afterBlocks bs).height.toNat + 1 →
      (a.afterBlocks bs).processBlock b = (a', .ok o) →
      Step (a.afterBlocks bs) b a' o.transition → P bs (a.afterBlocks bs) → P (bs ++ [b]) a')
    {bs : List Block} (hin : InOrder a.height.toNat bs) :
    P bs (a.afterBlocks bs) ∧ (a.afterBlocks bs).Coherent ∧
      (a.afterBlocks bs).height.toNat = a.height.toNat + bs.length := by
  -- from the last block backwards, as each block is a step from the run before it
  induction bs using List.reverseRec with
  | nil => exact ⟨h0, h, rfl⟩
  | append_singleton bs b ih =>
    obtain ⟨hbs, hb⟩ := inOrder_concat.1 hin
    obtain ⟨hP, hcoh, hheight⟩ := ih hbs
    have hb' : b.height.toNat = (a.afterBlocks bs).height.toNat + 1 := by omega
    obtain ⟨a', o, hproc, hs, -⟩ := hcoh.processBlock hb'
    have ha' : a.afterBlocks (bs ++ [b]) = a' := by rw [afterBlocks_concat, hproc]
    rw [ha']
    refine ⟨hstep bs b a' o hin hcoh hb' hproc hs hP, hs.coherent hcoh hb', ?_⟩
    rw [hs.height_eq, hb, List.length_append, List.length_singleton, Nat.add_assoc]

/-- **Every run leads to a coherent application.** -/
theorem Coherent.afterBlocks (h : a.Coherent) {bs : List Block} (hin : InOrder a.height.toNat bs) :
    (a.afterBlocks bs).Coherent ∧
      (a.afterBlocks bs).height.toNat = a.height.toNat + bs.length :=
  (h.run_induction (P := fun _ _ => True) trivial (fun _ _ _ _ _ _ _ _ _ _ => trivial) hin).2

theorem Coherent.params_afterBlocks (h : a.Coherent) {bs : List Block}
    (hin : InOrder a.height.toNat bs) : (a.afterBlocks bs).params = a.params :=
  (h.run_induction (P := fun _ x => x.params = a.params) rfl
    (fun _ _ _ _ _ _ _ _ hs hp => hs.params_eq.trans hp) hin).1

/-- Every run from the start is one of a coherent application. -/
theorem coherent_of_start {params : AppParams} (hstart : start params = .ok a) {bs : List Block}
    (hin : InOrder 0 bs) : (a.afterBlocks bs).Coherent ∧
      (a.afterBlocks bs).height.toNat = bs.length ∧ (a.afterBlocks bs).params = params := by
  obtain ⟨⟨hne, hle⟩, rfl⟩ := start_eq_ok_iff.1 hstart
  have hinit := coherent_initial hne hle
  obtain ⟨h, hheight⟩ := hinit.afterBlocks hin
  exact ⟨h, hheight.trans (Nat.zero_add _), hinit.params_afterBlocks hin⟩

end Application

end Quorum
