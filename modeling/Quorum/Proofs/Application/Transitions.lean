import Quorum.Proofs.Application.Freshness

/-!
# The transitions of a run

* `Application.transitions` : the transitions that a run leads to, in order;
* `exists_prefix_of_transitions` : each of them is that of a block of the run, after those before it;
* `Coherent.length_transitions` : their number is what the round count has grown by;
* `Coherent.kind_afterBlocks` : the current round is the target of the last one;
* `Coherent.edge_of_mem` : each of them goes along an edge of the bundled table;
* `Coherent.source_after` : so, unless it is preempted, it leaves the round that the one before it
  has led to.
-/

namespace Quorum.Application

/-- The transitions that a run leads to, in order. -/
def transitions (a : Application) (bs : List Block) : List Transition :=
  (a.outcomes bs).filterMap fun r => r.toOption.bind BlockOutcome.transition

variable {a x : Application} {b : Block} {bs : List Block} {xs ys : List Transition}
  {t : Transition}

@[simp] theorem transitions_nil (a : Application) : a.transitions [] = [] := rfl

theorem transitions_concat (a : Application) (bs : List Block) (b : Block) :
    a.transitions (bs ++ [b]) =
      a.transitions bs ++ ((a.afterBlocks bs).transitionAt b).toList := by
  unfold transitions transitionAt
  rw [outcomes_concat, List.filterMap_append]
  rfl

/-- Each transition of a run is that of a block, after the transitions before it. -/
theorem exists_prefix_of_transitions (h : a.transitions bs = xs ++ t :: ys) :
    ∃ pre b, pre ++ [b] <+: bs ∧ a.transitions pre = xs ∧
      (a.afterBlocks pre).transitionAt b = some t := by
  induction bs using List.reverseRecOn generalizing ys with
  | nil => simp at h
  | append_singleton bs b ih =>
    have further {ys : List Transition} (h : a.transitions bs = xs ++ t :: ys) :
        ∃ pre c, pre ++ [c] <+: bs ++ [b] ∧ a.transitions pre = xs ∧
          (a.afterBlocks pre).transitionAt c = some t := by
      obtain ⟨pre, c, hpre, hxs, ht⟩ := ih h
      exact ⟨pre, c, hpre.trans (List.prefix_append bs [b]), hxs, ht⟩
    rw [transitions_concat] at h
    cases hb : (a.afterBlocks bs).transitionAt b with
    | none =>
      rw [hb, Option.toList_none, List.append_nil] at h
      exact further h
    | some u =>
      rw [hb, Option.toList_some] at h
      -- the last transition is either this one or one after it
      rcases List.eq_nil_or_concat ys with rfl | ⟨ys, v, rfl⟩
      · obtain ⟨hxs, hu⟩ := List.append_inj' h rfl
        cases hu
        exact ⟨bs, b, List.prefix_refl _, hxs, hb⟩
      · rw [List.concat_eq_append, ← List.cons_append, ← List.append_assoc] at h
        exact further (List.append_inj' h rfl).1

theorem Coherent.length_transitions (h : a.Coherent) (bs : List Block) :
    (a.afterBlocks bs).roundCount.toNat = a.roundCount.toNat + (a.transitions bs).length := by
  induction bs using List.reverseRecOn with
  | nil => rfl
  | append_singleton bs b ih =>
    rw [h.roundCount_concat, ih, transitions_concat, List.length_append, Nat.add_assoc]

/-- The current round is the one that the last transition has led to. -/
theorem Coherent.kind_afterBlocks (h : a.Coherent) (bs : List Block) :
    (a.afterBlocks bs).current.kind =
      ((a.transitions bs).getLast?.map Transition.target).getD a.current.kind := by
  induction bs using List.reverseRecOn with
  | nil => rfl
  | append_singleton bs b ih =>
    have hadvance := (h.after bs).advances b
    rw [transitions_concat, afterBlocks_concat]
    generalize (a.afterBlocks bs).transitionAt b = o at hadvance ⊢
    cases hadvance with
    | stays same => rw [Option.toList_none, List.append_nil, same.kind, ih]
    | moves hm =>
      rw [Option.toList_some, List.getLast?_concat]
      exact kind_of_instantiate hm.starts

/-- A transition that is not preempted leaves the current round. -/
theorem Coherent.source_of_transitionAt (h : x.Coherent) (ht : x.transitionAt b = some t)
    (hp : t.preempted = false) : t.source = x.current.kind := by
  have hadvance := h.advances b
  rw [ht] at hadvance
  cases hadvance with
  | moves hm => exact hm.source hp

theorem Coherent.source_of_preempted (h : x.Coherent) (ht : x.transitionAt b = some t)
    (hp : t.preempted = true) : t.source = .termination := by
  obtain ⟨y, o, hproc, hs, -⟩ := h.processBlock (height_of_transitionAt ht)
  rw [transitionAt_of_ok hproc] at ht
  rw [ht] at hs
  cases hs with
  | terminates _ hbg _ => exact (h.background_watches hbg).1.kind
  | moves => cases hp

theorem Coherent.edge_of_transitionAt (h : x.Coherent) (ht : x.transitionAt b = some t) :
    ⟨t.source, t.event, t.target⟩ ∈ Table.bundledBackground :: Table.bundledEdges := by
  have hadvance := h.advances b
  rw [ht] at hadvance
  cases hadvance with
  | moves hm => exact RoundKind.edge_of_target h.table hm.follows

theorem Coherent.edge_of_mem (h : a.Coherent) (ht : t ∈ a.transitions bs) :
    ⟨t.source, t.event, t.target⟩ ∈ Table.bundledBackground :: Table.bundledEdges := by
  obtain ⟨xs, ys, hsplit⟩ := List.append_of_mem ht
  obtain ⟨pre, b, -, -, hb⟩ := exists_prefix_of_transitions hsplit
  exact (h.after pre).edge_of_transitionAt hb

/-- A transition of the foreground leaves the round that the one before it has led to, or the round
that the run begins in. -/
theorem Coherent.source_after (h : a.Coherent) (hsplit : a.transitions bs = xs ++ t :: ys)
    (hp : t.preempted = false) :
    t.source = (xs.getLast?.map Transition.target).getD a.current.kind := by
  obtain ⟨pre, b, -, rfl, hb⟩ := exists_prefix_of_transitions hsplit
  rw [← h.kind_afterBlocks]
  exact (h.after pre).source_of_transitionAt hb hp

end Quorum.Application
