import Mathlib.Data.List.Pairwise
import Quorum.Proofs.Application.Closure

/-!
# Which tables are accepted

A table is checked before a service starts. The check accepts exactly the tables that cannot strand
it, whatever edges are listed besides, and in whatever order.

* `Table.Reaches` : the rounds that the service can come to;
* `Table.WellFormed` : no edge leaves a terminal round, no two edges compete, the background edge
  leaves the background round on one of its events, and every round that the service can come to has
  an edge for each of its events;
* `Table.Explores` : going through the rounds to visit with no limit on the number of steps;
  `explores_explore`, `Explores.covers`, `Explores.reaches` : it comes to an end, and what it finds;
* `build_eq_ok_iff` : a table is accepted exactly if it is well formed;
* `accepts_well_formed` : what follows on an event is then what the edges say, in any order.
-/

namespace Quorum

/-- The edge is for a round and an event. -/
def Edge.IsFor (edge : Edge) (round : RoundKind) (event : Event) : Prop :=
  edge.source = round ∧ edge.event = event

namespace Table

/-- The least set of rounds that contains the initial one and the target of the background edge and
is closed under following edges on the events of their rounds. -/
inductive Reaches (initial : RoundKind) (edges : List Edge) (background : Option Edge) :
    RoundKind → Prop
  | initial : Reaches initial edges background initial
  | background {edge : Edge} (h : background = some edge) :
    Reaches initial edges background edge.target
  | follows {edge : Edge} (h : Reaches initial edges background edge.source) (mem : edge ∈ edges)
    (emits : edge.source.emits edge.event = true) : Reaches initial edges background edge.target

/-- The edges do not compete: they are for different rounds or for different events. -/
def Distinct (a b : Edge) : Prop := ¬ b.IsFor a.source a.event

/-- The edges and the background edge make a table. -/
structure WellFormed (initial : RoundKind) (edges : List Edge) (background : Option Edge) : Prop where
  terminal : ∀ edge ∈ edges, edge.source.isTerminal = false
  distinct : edges.Pairwise Distinct
  complete : ∀ round, Reaches initial edges background round → ∀ event, round.emits event = true →
    ∃ edge ∈ edges, edge.IsFor round event
  background : ∀ edge, background = some edge →
    edge.source.isBackground = true ∧ edge.source.emits edge.event = true

variable {initial : RoundKind} {edges edges' before : List Edge} {background : Option Edge}
  {visited pending : List RoundKind} {round next : RoundKind} {event : Event} {edge : Edge}
  {result : Except ConfigError Unit} {t : Table}

instance : Std.Symm Distinct := ⟨fun _ _ h hab => h ⟨hab.1.symm, hab.2.symm⟩⟩

/-! ## Looking up edges -/

theorem mem_of_find? (h : find? edges round event = some next) :
    ∃ edge ∈ edges, edge.IsFor round event ∧ edge.target = next := by
  obtain ⟨edge, hfind, rfl⟩ := Option.map_eq_some_iff.1 h
  have hfor := List.find?_some hfind
  rw [Bool.and_eq_true, decide_eq_true_eq, decide_eq_true_eq] at hfor
  exact ⟨edge, List.mem_of_find?_eq_some hfind, hfor, rfl⟩

theorem find?_eq_none_iff :
    find? edges round event = none ↔ ∀ edge ∈ edges, ¬ edge.IsFor round event := by
  unfold find?
  rw [Option.map_eq_none_iff, List.find?_eq_none]
  simp [Edge.IsFor]

/-- Where no edges compete, every edge is found. -/
theorem find?_of_mem (hd : edges.Pairwise Distinct) (h : edge ∈ edges)
    (hfor : edge.IsFor round event) : find? edges round event = some edge.target := by
  cases hfind : find? edges round event with
  | none => exact absurd hfor (find?_eq_none_iff.1 hfind edge h)
  | some next =>
    obtain ⟨other, hother, hfor', rfl⟩ := mem_of_find? hfind
    by_cases heq : other = edge
    · rw [heq]
    · exact absurd (show edge.IsFor other.source other.event from
        ⟨hfor.1.trans hfor'.1.symm, hfor.2.trans hfor'.2.symm⟩) (hd.forall hother h heq)

/-! ## Checking edges -/

theorem checkEdges_eq_ok_iff : checkEdges before edges = .ok () ↔
    (∀ edge ∈ edges, edge.source.isTerminal = false) ∧ edges.Pairwise Distinct ∧
      ∀ a ∈ before, ∀ b ∈ edges, Distinct b a := by
  induction edges generalizing before with
  | nil => simp [checkEdges]
  | cons edge edges ih =>
    unfold checkEdges
    by_cases ht : edge.source.isTerminal = true
    · simp [ht]
    rw [if_neg ht]
    by_cases hs : (find? before edge.source edge.event).isSome = true
    · rw [if_pos hs]
      obtain ⟨next, hfind⟩ := Option.isSome_iff_exists.1 hs
      obtain ⟨other, hother, hfor, -⟩ := mem_of_find? hfind
      refine ⟨nofun, fun h => ?_⟩
      exact absurd hfor (h.2.2 other hother edge List.mem_cons_self)
    · rw [if_neg hs, ih]
      have hnone := find?_eq_none_iff.1 (Option.not_isSome_iff_eq_none.1 hs)
      simp only [List.mem_append, List.mem_singleton, List.forall_mem_cons, List.pairwise_cons]
      constructor
      · rintro ⟨hterminal, hdistinct, hbefore⟩
        exact ⟨⟨Bool.eq_false_iff.2 ht, hterminal⟩,
          ⟨fun b hb => symm (hbefore edge (.inr rfl) b hb), hdistinct⟩,
          fun a ha => ⟨hnone a ha, hbefore a (.inl ha)⟩⟩
      · rintro ⟨⟨-, hterminal⟩, ⟨hedge, hdistinct⟩, hbefore⟩
        refine ⟨hterminal, hdistinct, fun a ha b hb => ?_⟩
        rcases ha with ha | rfl
        · exact (hbefore a ha).2 b hb
        · exact symm (hedge b hb)

theorem checkBackground_eq_ok_iff : checkBackground background = .ok () ↔
    ∀ edge, background = some edge →
      edge.source.isBackground = true ∧ edge.source.emits edge.event = true := by
  cases background with
  | none => simp [checkBackground]
  | some edge =>
    cases hb : edge.source.isBackground <;> cases he : edge.source.emits edge.event <;>
      simp [checkBackground, hb, he]

/-! ## Exploring -/

/-- Going through the pending rounds comes to a result, with no limit on the number of steps. -/
inductive Explores (edges : List Edge) :
    List RoundKind → List RoundKind → Except ConfigError Unit → Prop
  | done (visited : List RoundKind) : Explores edges visited [] (.ok ())
  | skips {visited pending : List RoundKind} {round : RoundKind} {result : Except ConfigError Unit}
    (seen : round ∈ visited) (rest : Explores edges visited pending result) :
    Explores edges visited (round :: pending) result
  | fails {visited pending : List RoundKind} {round : RoundKind} {e : ConfigError}
    (new : round ∉ visited) (missing : successors edges round round.events = .error e) :
    Explores edges visited (round :: pending) (.error e)
  | expands {visited pending next : List RoundKind} {round : RoundKind}
    {result : Except ConfigError Unit} (new : round ∉ visited)
    (found : successors edges round round.events = .ok next)
    (rest : Explores edges (round :: visited) (next.reverse ++ pending) result) :
    Explores edges visited (round :: pending) result

/-- **Exploring always comes to an end**, and within the steps that it is given. -/
theorem explores_explore {fuel : Nat} (hnodup : visited.Nodup)
    (hfuel : potential visited pending ≤ fuel) :
    Explores edges visited pending (explore edges fuel visited pending) := by
  induction fuel generalizing visited pending with
  | zero =>
    unfold potential at hfuel
    obtain rfl : pending = [] := List.length_eq_zero_iff.1 (by omega)
    exact .done visited
  | succ fuel ih =>
    cases pending with
    | nil => exact .done visited
    | cons round pending =>
      unfold explore
      split_ifs with hvisited
      · refine .skips (List.contains_iff_mem.1 hvisited) (ih hnodup ?_)
        unfold potential at hfuel ⊢
        rw [List.length_cons] at hfuel
        omega
      · have hmem : round ∉ visited := mt List.contains_iff_mem.2 hvisited
        cases hnext : successors edges round round.events with
        | error e => exact .fails hmem hnext
        | ok next =>
          have hroom := Nat.le_of_lt_succ (Nat.lt_of_lt_of_le
            (potential_expand hnodup hmem (successors_eq_ok hnext).1) hfuel)
          exact .expands hmem hnext (ih (List.nodup_cons.2 ⟨hmem, hnodup⟩) hroom)

/-- Where the successors are not known, an edge is missing. -/
theorem missing_of_successors {es : List Event} {e : ConfigError}
    (h : successors edges round es = .error e) : ∃ event ∈ es, find? edges round event = none := by
  induction es generalizing e with
  | nil => cases h
  | cons event es ih =>
    unfold successors at h
    cases hfind : find? edges round event with
    | none => exact ⟨event, List.mem_cons_self, hfind⟩
    | some next =>
      rw [hfind] at h
      cases hrest : successors edges round es with
      | error c =>
        obtain ⟨event', hevent', hnone⟩ := ih hrest
        exact ⟨event', List.mem_cons_of_mem _ hevent', hnone⟩
      | ok rest =>
        rw [hrest] at h
        cases h

/-- Every successor is the target of an edge for an event of the round. -/
theorem mem_of_successors {es : List Event} {ks : List RoundKind}
    (h : successors edges round es = .ok ks) (hnext : next ∈ ks) :
    ∃ event ∈ es, find? edges round event = some next := by
  induction es generalizing ks with
  | nil =>
    cases h
    cases hnext
  | cons event es ih =>
    unfold successors at h
    cases hfind : find? edges round event with
    | none =>
      rw [hfind] at h
      cases h
    | some k =>
      rw [hfind] at h
      cases hrest : successors edges round es with
      | error c =>
        rw [hrest] at h
        cases h
      | ok rest =>
        rw [hrest] at h
        cases h
        rcases List.mem_cons.1 hnext with rfl | hnext
        · exact ⟨event, List.mem_cons_self, hfind⟩
        · obtain ⟨event', hevent', hfind'⟩ := ih hrest hnext
          exact ⟨event', List.mem_cons_of_mem _ hevent', hfind'⟩

theorem Reaches.of_find? (h : Reaches initial edges background round) (hevent : event ∈ round.events)
    (hfind : find? edges round event = some next) : Reaches initial edges background next := by
  obtain ⟨edge, hedge, ⟨rfl, rfl⟩, rfl⟩ := mem_of_find? hfind
  exact h.follows hedge (List.contains_iff_mem.2 hevent)

/-- There is one result. -/
theorem Explores.unique (h : Explores edges visited pending result)
    {result' : Except ConfigError Unit} (h' : Explores edges visited pending result') :
    result' = result := by
  induction h with
  | done =>
    cases h'
    rfl
  | skips seen _ ih =>
    cases h' with
    | skips _ rest => exact ih rest
    | fails new => exact absurd seen new
    | expands new => exact absurd seen new
  | fails new missing =>
    cases h' with
    | skips seen => exact absurd seen new
    | fails _ missing' =>
      cases missing'.symm.trans missing
      rfl
    | expands _ found => cases found.symm.trans missing
  | expands new found _ ih =>
    cases h' with
    | skips seen => exact absurd seen new
    | fails _ missing => cases found.symm.trans missing
    | expands _ found' rest =>
      cases found.symm.trans found'
      exact ih rest

/-- **Exploring fails only for an edge that a round lacks to which the service can come.** -/
theorem Explores.missing (h : Explores edges visited pending result) {e : ConfigError}
    (he : result = .error e) (hpending : ∀ k ∈ pending, Reaches initial edges background k) :
    ∃ round, Reaches initial edges background round ∧
      ∃ event ∈ round.events, find? edges round event = none := by
  induction h with
  | done => cases he
  | skips _ _ ih => exact ih he fun k hk => hpending k (List.mem_cons_of_mem _ hk)
  | fails _ missing => exact ⟨_, hpending _ List.mem_cons_self, missing_of_successors missing⟩
  | expands _ found _ ih =>
    refine ih he fun k hk => ?_
    rcases List.mem_append.1 hk with hk | hk
    · obtain ⟨event, hevent, hfind⟩ := mem_of_successors found (List.mem_reverse.1 hk)
      exact (hpending _ List.mem_cons_self).of_find? hevent hfind
    · exact hpending k (List.mem_cons_of_mem _ hk)

/-- Rounds that lead to each other only, the first ones among them, are all that can be reached. -/
theorem Reaches.mem_of_covers {rounds : List RoundKind} (h : Reaches initial edges background round)
    (hd : edges.Pairwise Distinct) (hinitial : initial ∈ rounds)
    (hbackground : ∀ edge, background = some edge → edge.target ∈ rounds)
    (hcovers : ∀ k ∈ rounds, Covers edges rounds k) : round ∈ rounds := by
  induction h with
  | initial => exact hinitial
  | background h => exact hbackground _ h
  | follows _ mem emits ih =>
    obtain ⟨next, hnext, hfind⟩ := hcovers _ ih _ (List.contains_iff_mem.1 emits)
    rw [find?_of_mem hd mem ⟨rfl, rfl⟩] at hfind
    cases hfind
    exact hnext

/-! ## Accepting -/

/-- The rounds to visit first. -/
def starts (initial : RoundKind) (background : Option Edge) : List RoundKind :=
  background.toList.map Edge.target ++ [initial]

theorem mem_starts : round ∈ starts initial background ↔
    round = initial ∨ ∃ edge, background = some edge ∧ edge.target = round := by
  cases background <;> simp [starts, or_comm, eq_comm]

theorem potential_starts (initial : RoundKind) (background : Option Edge) :
    potential [] (starts initial background) ≤ exploreSteps := by
  cases background <;> simp [potential, starts, exploreSteps]

theorem Reaches.of_mem_starts (h : round ∈ starts initial background) :
    Reaches initial edges background round := by
  rcases mem_starts.1 h with rfl | ⟨edge, hedge, rfl⟩
  · exact .initial
  · exact .background hedge

/-- Exploring succeeds exactly if no edge is missing that the service can need. -/
theorem explore_eq_ok_iff (hd : edges.Pairwise Distinct) :
    explore edges exploreSteps [] (starts initial background) = .ok () ↔
      ∀ round, Reaches initial edges background round → ∀ event, round.emits event = true →
        ∃ edge ∈ edges, edge.IsFor round event := by
  have hroom := potential_starts initial background
  constructor
  · intro h round hround event hevent
    obtain ⟨rounds, hrounds, hcovers⟩ := explore_covers h .nil hroom fun k hk => by cases hk
    rw [List.nil_append] at hrounds
    have hmem := hround.mem_of_covers hd (hrounds (mem_starts.2 (.inl rfl)))
      (fun edge hedge => hrounds (mem_starts.2 (.inr ⟨edge, hedge, rfl⟩))) hcovers
    obtain ⟨next, -, hfind⟩ := hcovers round hmem event (List.contains_iff_mem.1 hevent)
    obtain ⟨edge, hedge, hfor, -⟩ := mem_of_find? hfind
    exact ⟨edge, hedge, hfor⟩
  · intro hcomplete
    cases hresult : explore edges exploreSteps [] (starts initial background) with
    | ok => rfl
    | error e =>
      have hexplores : Explores edges [] (starts initial background) _ :=
        explores_explore .nil hroom
      have hreaches (k : RoundKind) (hk : k ∈ starts initial background) :
          Reaches initial edges background k := Reaches.of_mem_starts hk
      obtain ⟨round, hround, event, hevent, hnone⟩ := hexplores.missing hresult hreaches
      obtain ⟨edge, hedge, hfor⟩ := hcomplete round hround event (List.contains_iff_mem.2 hevent)
      exact absurd hfor (find?_eq_none_iff.1 hnone edge hedge)

/-- **A table is accepted exactly if it is well formed.** -/
theorem build_eq_ok_iff : build initial edges background = .ok t ↔
    WellFormed initial edges background ∧ t = ⟨initial, edges, background⟩ := by
  unfold build
  constructor
  · intro h
    obtain ⟨_, hedges, h⟩ := bind_eq_ok.1 h
    obtain ⟨_, hbackground, h⟩ := bind_eq_ok.1 h
    obtain ⟨_, hexplore, h⟩ := bind_eq_ok.1 h
    obtain ⟨hterminal, hdistinct, -⟩ := checkEdges_eq_ok_iff.1 hedges
    cases h
    exact ⟨⟨hterminal, hdistinct, (explore_eq_ok_iff hdistinct).1 hexplore,
      checkBackground_eq_ok_iff.1 hbackground⟩, rfl⟩
  · rintro ⟨h, rfl⟩
    have hedges : checkEdges [] edges = .ok () :=
      checkEdges_eq_ok_iff.2 ⟨h.terminal, h.distinct, nofun⟩
    have hexplore := (explore_eq_ok_iff h.distinct).2 h.complete
    exact bind_eq_ok.2 ⟨(), hedges, bind_eq_ok.2 ⟨(), checkBackground_eq_ok_iff.2 h.background,
      bind_eq_ok.2 ⟨(), hexplore, rfl⟩⟩⟩

/-- What follows on an event is the target of the background edge, if it is for it, else that of the
edge for it, if there is one. -/
structure Follows (t : Table) (round : RoundKind) (event : Event) : Prop where
  background : ∀ edge, t.background = some edge → edge.IsFor round event →
    t.target round event = .ok edge.target
  listed : (∀ edge, t.background = some edge → ¬ edge.IsFor round event) →
    ∀ edge ∈ t.edges, edge.IsFor round event → t.target round event = .ok edge.target
  unknown : (∀ edge, t.background = some edge → ¬ edge.IsFor round event) →
    (∀ edge ∈ t.edges, ¬ edge.IsFor round event) →
    t.target round event = .error (.unknownTransition round event)

theorem target_of_find?_eq_none (hbg : ∀ edge, t.background = some edge → ¬ edge.IsFor round event)
    (hfind : find? t.edges round event = none) :
    t.target round event = .error (.unknownTransition round event) := by
  have hf : t.background.filter (fun edge => edge.source = round && edge.event = event) = none := by
    rw [Option.filter_eq_none_iff]
    intro edge hedge
    simpa [Edge.IsFor] using hbg edge hedge
  unfold target
  rw [hf, hfind]
  rfl

theorem follows_of_distinct (hd : t.edges.Pairwise Distinct) (round : RoundKind) (event : Event) :
    t.Follows round event where
  background := by
    rintro edge hedge ⟨rfl, rfl⟩
    exact target_of_background hedge
  listed hbg edge hedge hfor := target_of_find? (find?_of_mem hd hedge hfor) hbg
  unknown hbg hnone := target_of_find?_eq_none hbg (find?_eq_none_iff.2 hnone)

/-- So the order of the edges does not matter. -/
theorem target_perm (hd : edges.Pairwise Distinct) (h : edges'.Perm edges) (initial : RoundKind)
    (background : Option Edge) (round : RoundKind) (event : Event) :
    target ⟨initial, edges', background⟩ round event =
      target ⟨initial, edges, background⟩ round event := by
  have hf := follows_of_distinct (t := ⟨initial, edges, background⟩) hd round event
  have hf' := follows_of_distinct (t := ⟨initial, edges', background⟩) (h.symm.pairwise hd symm)
    round event
  by_cases hbg : ∃ edge, background = some edge ∧ edge.IsFor round event
  · obtain ⟨edge, hedge, hfor⟩ := hbg
    rw [hf.background edge hedge hfor, hf'.background edge hedge hfor]
  have hbg : ∀ edge, background = some edge → ¬ edge.IsFor round event :=
    fun edge hedge hfor => hbg ⟨edge, hedge, hfor⟩
  by_cases hlisted : ∃ edge ∈ edges, edge.IsFor round event
  · obtain ⟨edge, hedge, hfor⟩ := hlisted
    rw [hf.listed hbg edge hedge hfor, hf'.listed hbg edge (h.mem_iff.2 hedge) hfor]
  · have hnone : ∀ edge ∈ edges, ¬ edge.IsFor round event :=
      fun edge hedge hfor => hlisted ⟨edge, hedge, hfor⟩
    rw [hf.unknown hbg hnone, hf'.unknown hbg fun edge hedge => hnone edge (h.mem_iff.1 hedge)]

theorem Reaches.of_subset (h : Reaches initial edges background round) (hsub : edges ⊆ edges') :
    Reaches initial edges' background round := by
  induction h with
  | initial => exact .initial
  | background h => exact .background h
  | follows _ mem emits ih => exact ih.follows (hsub mem) emits

theorem WellFormed.perm (h : WellFormed initial edges background) (hp : edges'.Perm edges) :
    WellFormed initial edges' background where
  terminal edge hedge := h.terminal edge (hp.mem_iff.1 hedge)
  distinct := hp.symm.pairwise h.distinct symm
  complete round hround event hevent := by
    obtain ⟨edge, hedge, hfor⟩ := h.complete round (hround.of_subset hp.subset) event hevent
    exact ⟨edge, hp.mem_iff.2 hedge, hfor⟩
  background := h.background

/-- **Exactly the well-formed tables are accepted**, and the check always comes to an end. In a table
that is accepted, the background edge says what follows on the event that it is for; on any other
event that is the target of the one edge listed for it, and if there is none the event is unknown.
Listed in another order, the edges are accepted as well and say the same. -/
theorem accepts_well_formed (initial : RoundKind) (edges : List Edge) (background : Option Edge) :
    ((∃ t, build initial edges background = .ok t) ↔ WellFormed initial edges background) ∧
    (∀ result, Explores edges [] (starts initial background) result ↔
      result = explore edges exploreSteps [] (starts initial background)) ∧
    ∀ t, build initial edges background = .ok t →
      t.initial = initial ∧ t.edges = edges ∧ t.background = background ∧
      (∀ round event, t.Follows round event) ∧
      ∀ edges', edges'.Perm edges → ∃ t', build initial edges' background = .ok t' ∧
        ∀ round event, t'.target round event = t.target round event := by
  have hends : Explores edges [] (starts initial background) _ :=
    explores_explore .nil (potential_starts initial background)
  refine ⟨⟨fun ⟨t, h⟩ => (build_eq_ok_iff.1 h).1, fun h => ⟨_, build_eq_ok_iff.2 ⟨h, rfl⟩⟩⟩,
    fun result => ⟨hends.unique, fun h => h ▸ hends⟩, fun t h => ?_⟩
  obtain ⟨hwell, rfl⟩ := build_eq_ok_iff.1 h
  exact ⟨rfl, rfl, rfl, follows_of_distinct hwell.distinct, fun edges' hp =>
    ⟨_, build_eq_ok_iff.2 ⟨hwell.perm hp, rfl⟩, target_perm hwell.distinct hp initial background⟩⟩

/-- The edges of the bundled application may be listed from the last to the first. -/
theorem accepts_well_formed_of_bundled :
    WellFormed .registrationStartup bundledEdges (some bundledBackground) ∧
    ∃ t, build .registrationStartup bundledEdges.reverse (some bundledBackground) = .ok t ∧
      t.target .randomness .done = .ok .selectKeeper ∧
      t.target .termination .terminate = .ok .terminated := by
  obtain ⟨hiff, -, hall⟩ :=
    accepts_well_formed .registrationStartup bundledEdges (some bundledBackground)
  obtain ⟨-, -, -, -, hperm⟩ := hall _ bundled_eq
  obtain ⟨t, ht, htarget⟩ := hperm _ (List.reverse_perm bundledEdges)
  exact ⟨hiff.1 ⟨_, bundled_eq⟩, t, ht, (htarget _ _).trans rfl, (htarget _ _).trans rfl⟩

end Table

end Quorum
