import Mathlib.Data.List.Nodup
import Quorum.Application.Table
import Quorum.Proofs.Round.Writes

/-!
# Complete tables

* `Table.Covers` : every event of a round leads along an edge to one of some rounds;
* `explore_covers` : exploring without an error finds rounds that lead to each other only. It never
  runs out of steps, as every step uses up some of the potential that the rounds not visited have;
* `Table.Complete` : on each of their events some rounds, and the one in the background, lead to one
  of these rounds;
* `complete_of_build` : a table that was built is complete over rounds that include the initial one.
-/

namespace Quorum.Table

/-! ## Rounds that lead to each other -/

/-- Every event of a round leads along an edge to one of some rounds. -/
def Covers (edges : List Edge) (rounds : List RoundKind) (round : RoundKind) : Prop :=
  ∀ e ∈ round.events, ∃ next ∈ rounds, find? edges round e = some next

variable {edges : List Edge} {rounds visited pending : List RoundKind} {round : RoundKind}

theorem Covers.mono {more : List RoundKind} (h : Covers edges rounds round)
    (hsub : rounds ⊆ more) : Covers edges more round := by
  intro e he
  obtain ⟨next, hnext, hfind⟩ := h e he
  exact ⟨next, hsub hnext, hfind⟩

/-- The rounds are among some that lead to each other only. -/
def Coverable (edges : List Edge) (rounds : List RoundKind) : Prop :=
  ∃ more, rounds ⊆ more ∧ ∀ k ∈ more, Covers edges more k

theorem Coverable.mono {more : List RoundKind} (h : Coverable edges more)
    (hsub : rounds ⊆ more) : Coverable edges rounds := by
  obtain ⟨most, hmost, hcovers⟩ := h
  exact ⟨most, List.Subset.trans hsub hmost, hcovers⟩

theorem coverable_of_covers (h : ∀ k ∈ rounds, Covers edges rounds k) : Coverable edges rounds :=
  ⟨rounds, List.Subset.refl _, h⟩

theorem successors_eq_ok {es : List Event} {next : List RoundKind}
    (h : successors edges round es = .ok next) : next.length = es.length ∧
      ∀ e ∈ es, ∃ k ∈ next, find? edges round e = some k := by
  induction es generalizing next with
  | nil =>
    cases h
    exact ⟨rfl, fun e he => by cases he⟩
  | cons e es ih =>
    unfold successors at h
    cases hfind : find? edges round e with
    | none =>
      rw [hfind] at h
      cases h
    | some k =>
      rw [hfind] at h
      cases hrest : successors edges round es with
      | error c =>
        rw [hrest] at h
        cases h
      | ok rest =>
        rw [hrest] at h
        cases h
        obtain ⟨hlength, hall⟩ := ih hrest
        refine ⟨congrArg (· + 1) hlength, fun e' he' => ?_⟩
        rcases List.mem_cons.1 he' with rfl | he'
        · exact ⟨k, List.mem_cons_self, hfind⟩
        · obtain ⟨k', hk', hfind'⟩ := hall e' he'
          exact ⟨k', List.mem_cons_of_mem _ hk', hfind'⟩

theorem length_events_le (round : RoundKind) : round.events.length ≤ 3 := by
  cases round <;> decide

/-- The number of steps that exploring can still take: one for each pending round, and four for each
round that is not visited yet, which adds at most three to the pending ones. -/
def potential (visited pending : List RoundKind) : Nat :=
  pending.length + 4 * (8 - visited.length)

theorem potential_expand {next : List RoundKind} (h : visited.Nodup) (hround : round ∉ visited)
    (hnext : next.length = round.events.length) :
    potential (round :: visited) (next.reverse ++ pending) <
      potential visited (round :: pending) := by
  have hsub : round :: visited ⊆ RoundKind.all := fun k _ => by cases k <;> decide
  have hlt : visited.length < 8 := (List.nodup_cons.2 ⟨hround, h⟩).length_le_of_subset hsub
  have hevents := length_events_le round
  unfold potential
  rw [List.length_append, List.length_reverse, List.length_cons, List.length_cons]
  omega

/-- **The rounds that exploring visits without an error lead to each other only.** -/
theorem explore_covers {fuel : Nat} (h : explore edges fuel visited pending = .ok ())
    (hnodup : visited.Nodup) (hfuel : potential visited pending ≤ fuel)
    (hcovers : ∀ k ∈ visited, Covers edges (visited ++ pending) k) :
    Coverable edges (visited ++ pending) := by
  -- by the steps that are left; a visited round stays covered by those visited and those pending
  induction fuel generalizing visited pending with
  | zero =>
    unfold potential at hfuel
    obtain rfl : pending = [] := List.length_eq_zero_iff.1 (by omega)
    rw [List.append_nil] at hcovers ⊢
    exact coverable_of_covers hcovers
  | succ fuel ih =>
    cases pending with
    | nil =>
      rw [List.append_nil] at hcovers ⊢
      exact coverable_of_covers hcovers
    | cons round pending =>
      unfold explore at h
      split_ifs at h with hvisited
      · have hmem : round ∈ visited := List.contains_iff_mem.1 hvisited
        have hsub : visited ++ round :: pending ⊆ visited ++ pending := by simp [hmem]
        have hroom : potential visited pending ≤ fuel := by
          unfold potential at hfuel ⊢
          rw [List.length_cons] at hfuel
          omega
        exact (ih h hnodup hroom fun k hk => (hcovers k hk).mono hsub).mono hsub
      · have hmem : round ∉ visited := mt List.contains_iff_mem.2 hvisited
        cases hnext : successors edges round round.events with
        | error e =>
          rw [hnext] at h
          cases h
        | ok next =>
          rw [hnext] at h
          obtain ⟨hlength, hall⟩ := successors_eq_ok hnext
          have hsub : visited ++ round :: pending ⊆ (round :: visited) ++ (next.reverse ++ pending) :=
            fun k hk => by
              simp only [List.mem_append, List.mem_cons] at hk ⊢
              tauto
          have hroom := Nat.le_of_lt_succ
            (Nat.lt_of_lt_of_le (potential_expand hnodup hmem hlength) hfuel)
          refine (ih h (List.nodup_cons.2 ⟨hmem, hnodup⟩) hroom fun k hk => ?_).mono hsub
          rcases List.mem_cons.1 hk with rfl | hk
          · intro e he
            obtain ⟨k', hk', hfind⟩ := hall e he
            exact ⟨k', by simp [hk'], hfind⟩
          · exact (hcovers k hk).mono hsub

/-! ## Tables that were built -/

/-- On each of their events some rounds, and the one in the background, lead to one of these
rounds. -/
structure Complete (t : Table) (rounds : List RoundKind) : Prop where
  leads : ∀ k, k ∈ rounds ∨ t.backgroundRound? = some k → ∀ e ∈ k.events,
    ∃ next ∈ rounds, t.target k e = .ok next
  background : ∀ k, t.backgroundRound? = some k → k = .termination

/-- The background edge comes first. -/
theorem target_of_background {t : Table} {edge : Edge} (h : t.background = some edge) :
    t.target edge.source edge.event = .ok edge.target := by
  have hf : t.background.filter (fun e => e.source = edge.source && e.event = edge.event) =
      some edge := by
    rw [h]
    exact Option.filter_some_pos (by simp)
  unfold target
  rw [hf]

theorem target_of_find? {t : Table} {k next : RoundKind} {e : Event}
    (hfind : find? t.edges k e = some next)
    (hbg : ∀ edge, t.background = some edge → ¬ (edge.source = k ∧ edge.event = e)) :
    t.target k e = .ok next := by
  have hf : t.background.filter (fun edge => edge.source = k && edge.event = e) = none := by
    rw [Option.filter_eq_none_iff]
    intro edge hedge
    simpa using hbg edge hedge
  unfold target
  rw [hf, hfind]
  rfl

theorem checkBackground_eq_ok {edge : Edge} (h : checkBackground (some edge) = .ok ()) :
    edge.source = .termination ∧ edge.event = .terminate := by
  have hsource : edge.source = .termination := by
    by_contra hne
    have hno : edge.source.isBackground = false := decide_eq_false hne
    simp [checkBackground, hno] at h
  refine ⟨hsource, ?_⟩
  by_contra hne
  have hno : edge.source.emits edge.event = false := by
    rw [hsource]
    revert hne
    cases edge.event <;> decide
  have hyes : edge.source.isBackground = true := decide_eq_true hsource
  simp [checkBackground, hno, hyes] at h

/-- **A table that was built is complete over rounds that include the initial one.** -/
theorem complete_of_build {initial : RoundKind} {background : Option Edge} {t : Table}
    (h : build initial edges background = .ok t) :
    t.initial = initial ∧ ∃ rounds, initial ∈ rounds ∧ t.Complete rounds := by
  unfold build at h
  obtain ⟨_, -, h⟩ := bind_eq_ok.1 h
  obtain ⟨_, hchecked, h⟩ := bind_eq_ok.1 h
  obtain ⟨_, hexplore, h⟩ := bind_eq_ok.1 h
  cases h
  have hedge : ∀ edge, background = some edge →
      edge.source = .termination ∧ edge.event = .terminate := by
    rintro edge rfl
    exact checkBackground_eq_ok hchecked
  have hroom : potential [] (background.toList.map Edge.target ++ [initial]) ≤ exploreSteps := by
    cases background <;> simp [potential, exploreSteps]
  obtain ⟨rounds, hrounds, hcovers⟩ := explore_covers hexplore .nil hroom
    fun k hk => by cases hk
  rw [List.nil_append] at hrounds
  refine ⟨rfl, rounds, hrounds (by simp), fun k hk e he => ?_, fun k hk => ?_⟩
  · by_cases hfirst : ∃ edge, background = some edge ∧ edge.source = k ∧ edge.event = e
    · obtain ⟨edge, rfl, rfl, rfl⟩ := hfirst
      exact ⟨edge.target, hrounds (by simp), target_of_background rfl⟩
    · have hbg : ∀ edge, background = some edge → ¬ (edge.source = k ∧ edge.event = e) :=
        fun edge hbg hmatch => hfirst ⟨edge, hbg, hmatch⟩
      rcases hk with hk | hk
      · obtain ⟨next, hnext, hfind⟩ := hcovers k hk e he
        exact ⟨next, hnext, target_of_find? hfind hbg⟩
      · -- the background round has one event, that of the background edge
        obtain ⟨edge, hsome, rfl⟩ := Option.map_eq_some_iff.1 hk
        obtain ⟨hsource, hevent⟩ := hedge edge hsome
        rw [hsource] at he
        cases List.mem_singleton.1 he
        exact absurd ⟨rfl, hevent⟩ (hbg edge hsome)
  · obtain ⟨edge, hsome, rfl⟩ := Option.map_eq_some_iff.1 hk
    exact (hedge edge hsome).1

end Quorum.Table
