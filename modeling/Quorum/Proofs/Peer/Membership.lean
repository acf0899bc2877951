import Mathlib.Data.List.Induction
import Mathlib.Data.List.Nodup
import Quorum.Proofs.Peer.Sorted

/-!
# Sets of peers are finite sets

* `mem_insert`, `mem_remove` : what an operation does to the members;
* `inserted_iff`, `removed_iff` : and what it answers;
* `ActsAsSet` : all that a finite set promises, in one place; a set that is in order keeps it
  (`Sorted.actsAsSet`);
* `Edit`, `assemble` : a set that is made of a list and then changed, `Present` : who is in it by
  then, `built_iff` : there are no other sets;
* `sets_of_peers` : whatever the changes, the set acts as one, its members are those whose last
  change added them, and they alone decide its wire form.
-/

namespace Quorum.PeerSet

variable {s t : PeerSet} {p q : PublicKey} {ps : List PublicKey}

/-! ## One operation -/

theorem mem_insert : q ∈ (s.insert p).1.peers ↔ q = p ∨ q ∈ s.peers := by
  unfold PeerSet.insert
  split_ifs with h
  · have hp : p ∈ s.peers := mem_of_contains h
    exact ⟨.inr, fun hq => hq.elim (fun he => he ▸ hp) id⟩
  · exact List.mem_mergeSort.trans List.mem_cons

theorem inserted_iff (hs : s.Sorted) : (s.insert p).2 = true ↔ p ∉ s.peers := by
  rw [← contains_iff hs]
  unfold PeerSet.insert
  split_ifs with h
  · exact iff_of_false nofun (not_not_intro h)
  · exact iff_of_true rfl h

theorem locate_eq_none_iff (hs : s.Sorted) : s.locate p = none ↔ p ∉ s.peers := by
  rw [← contains_iff hs, ← Option.not_isSome_iff_eq_none]
  rfl

/-- Without repetitions, the peer at a position is the only one of its kind. -/
theorem mem_remove (hs : s.Sorted) : q ∈ (s.remove p).1.peers ↔ q ≠ p ∧ q ∈ s.peers := by
  have hnodup : s.peers.Nodup := SortedMap.nodup_of_pairwise hs
  unfold PeerSet.remove
  cases hl : s.locate p with
  | none =>
    have hp : p ∉ s.peers := (locate_eq_none_iff hs).1 hl
    exact ⟨fun hq => ⟨fun he => hp (he ▸ hq), hq⟩, And.right⟩
  | some i =>
    obtain ⟨hi, rfl⟩ := List.getElem?_eq_some_iff.1 (getElem?_of_locateIn hl)
    show q ∈ s.peers.eraseIdx i ↔ _
    rw [← hnodup.erase_getElem i hi, hnodup.mem_erase_iff]

theorem removed_iff (hs : s.Sorted) : (s.remove p).2 = true ↔ p ∈ s.peers := by
  rw [← contains_iff hs]
  unfold PeerSet.remove PeerSet.contains
  cases s.locate p with
  | none => exact Iff.rfl
  | some i => exact Iff.rfl

/-- Sets that are in order and have the same members are equal. -/
theorem Sorted.ext (hs : s.Sorted) (ht : t.Sorted) (h : ∀ p, p ∈ s.peers ↔ p ∈ t.peers) :
    s = t := by
  cases s
  cases t
  exact congrArg PeerSet.mk (eq_of_pairwise hs ht h)

theorem ofList_nil : ofList [] = empty := by
  unfold ofList
  rw [List.mergeSort_nil]
  rfl

/-! ## What a set promises -/

/-- The operations do to the members what they do to those of a finite set. -/
structure ActsAsSet (s : PeerSet) : Prop where
  sorted : s.Sorted
  contains_iff : ∀ p, s.contains p = true ↔ p ∈ s.peers
  inserted_iff : ∀ p, (s.insert p).2 = true ↔ p ∉ s.peers
  mem_insert : ∀ p q, q ∈ (s.insert p).1.peers ↔ q = p ∨ q ∈ s.peers
  removed_iff : ∀ p, (s.remove p).2 = true ↔ p ∈ s.peers
  mem_remove : ∀ p q, q ∈ (s.remove p).1.peers ↔ q ≠ p ∧ q ∈ s.peers

theorem Sorted.actsAsSet (hs : s.Sorted) : s.ActsAsSet where
  sorted := hs
  contains_iff _ := PeerSet.contains_iff hs
  inserted_iff _ := PeerSet.inserted_iff hs
  mem_insert _ _ := PeerSet.mem_insert
  removed_iff _ := PeerSet.removed_iff hs
  mem_remove _ _ := PeerSet.mem_remove hs

/-! ## Any number of operations -/

/-- A change of a set. -/
inductive Edit where
  | insert (p : PublicKey)
  | remove (p : PublicKey)
  deriving DecidableEq

/-- The peer that a change names. -/
def Edit.peer : Edit → PublicKey
  | insert p => p
  | remove p => p

/-- The set after a change. -/
def edit (s : PeerSet) : Edit → PeerSet
  | .insert p => (s.insert p).1
  | .remove p => (s.remove p).1

/-- The set of a list, changed. -/
def assemble (ps : List PublicKey) (es : List Edit) : PeerSet := es.foldl edit (ofList ps)

/-- The last change that names the peer adds it; if there is none, it was in the list. -/
def Present (ps : List PublicKey) (es : List Edit) (p : PublicKey) : Prop :=
  (es.filter fun e => e.peer = p).getLast?.elim (p ∈ ps) (· = .insert p)

theorem assemble_concat (es : List Edit) (e : Edit) :
    assemble ps (es ++ [e]) = (assemble ps es).edit e := List.foldl_concat ..

theorem present_concat (es : List Edit) (e : Edit) :
    Present ps (es ++ [e]) p ↔ if e.peer = p then e = .insert p else Present ps es p := by
  unfold Present
  rw [List.filter_append, List.filter_singleton]
  by_cases h : e.peer = p
  · rw [if_pos h, decide_eq_true h, cond_true, List.getLast?_concat]
    rfl
  · rw [if_neg h, decide_eq_false h, cond_false, List.append_nil]

theorem Sorted.edit (hs : s.Sorted) (e : Edit) : (s.edit e).Sorted := by
  cases e with
  | insert p => exact hs.insert p
  | remove p => exact hs.remove p

theorem mem_edit (hs : s.Sorted) (e : Edit) :
    p ∈ (s.edit e).peers ↔ if e.peer = p then e = .insert p else p ∈ s.peers := by
  cases e with
  | insert q =>
    refine mem_insert.trans ?_
    by_cases h : p = q <;> simp [Edit.peer, h, Ne.symm]
  | remove q =>
    refine (mem_remove hs).trans ?_
    simp [Edit.peer, eq_comm]

theorem sorted_assemble (ps : List PublicKey) (es : List Edit) : (assemble ps es).Sorted := by
  induction es using List.reverseRecOn with
  | nil => exact sorted_ofList ps
  | append_singleton es e ih => exact assemble_concat es e ▸ ih.edit e

/-- **The last change of a peer decides whether it is a member.** -/
theorem mem_assemble (ps : List PublicKey) (es : List Edit) (p : PublicKey) :
    p ∈ (assemble ps es).peers ↔ Present ps es p := by
  induction es using List.reverseRecOn with
  | nil => exact mem_ofList
  | append_singleton es e ih =>
    rw [assemble_concat, mem_edit (sorted_assemble ps es), present_concat, ih]

/-- A set is put together by operations exactly if it is a changed set of a list. -/
theorem built_iff : s.Built ↔ ∃ ps es, s = assemble ps es := by
  constructor
  · intro h
    induction h with
    | empty => exact ⟨[], [], ofList_nil.symm⟩
    | ofList ps => exact ⟨ps, [], rfl⟩
    | insert p _ ih =>
      obtain ⟨ps, es, rfl⟩ := ih
      refine ⟨ps, es ++ [.insert p], ?_⟩
      rw [assemble_concat]
      rfl
    | remove p _ ih =>
      obtain ⟨ps, es, rfl⟩ := ih
      refine ⟨ps, es ++ [.remove p], ?_⟩
      rw [assemble_concat]
      rfl
  · rintro ⟨ps, es, rfl⟩
    induction es using List.reverseRecOn with
    | nil => exact .ofList ps
    | append_singleton es e ih =>
      rw [assemble_concat]
      cases e with
      | insert p => exact ih.insert p
      | remove p => exact ih.remove p

/-! ## All operations -/

/-- **Sets of peers are finite sets.** Whatever list a set is made of and however it is changed, it
acts as a set, and its members are the peers whose last change added them. A list is only asked for
its elements, and of two sets that were put together in any way, those with the same members are
equal and are written the same. -/
theorem sets_of_peers :
    (∀ s : PeerSet, s.Built ↔ ∃ ps es, s = assemble ps es) ∧
    (∀ ps es, (assemble ps es).ActsAsSet ∧ ∀ p, p ∈ (assemble ps es).peers ↔ Present ps es p) ∧
    (∀ ps qs : List PublicKey, (∀ p, p ∈ ps ↔ p ∈ qs) → ofList ps = ofList qs) ∧
    ∀ s t : PeerSet, s.Built → t.Built → (∀ p, p ∈ s.peers ↔ p ∈ t.peers) →
      s = t ∧ Wire.encode s = Wire.encode t := by
  refine ⟨fun s => built_iff, fun ps es => ⟨(sorted_assemble ps es).actsAsSet, mem_assemble ps es⟩,
    fun ps qs h => ?_, fun s t hs ht h => ?_⟩
  · refine (sorted_ofList ps).ext (sorted_ofList qs) fun p => ?_
    rw [mem_ofList, mem_ofList, h]
  · obtain rfl := hs.sorted.ext ht.sorted h
    exact ⟨rfl, rfl⟩

/-- A list out of order and with a repetition, a list of the same peers in order, and these peers
added one by one. -/
theorem sets_of_peers_of_shuffled :
    let s := ofList [Octets.fill 2, Octets.fill 1, Octets.fill 2]
    let t := ((empty.insert (Octets.fill 1)).1.insert (Octets.fill 2)).1
    (s.Built ∧ t.Built ∧ ∀ p, p ∈ s.peers ↔ p ∈ t.peers) ∧
      s = ofList [Octets.fill 1, Octets.fill 2] ∧ s = t ∧ Wire.encode s = Wire.encode t := by
  have hs : (ofList [Octets.fill 2, Octets.fill 1, Octets.fill 2]).Built := .ofList _
  have ht : ((empty.insert (Octets.fill 1)).1.insert (Octets.fill 2)).1.Built :=
    (Built.empty.insert _).insert _
  have hmem : ∀ p, p ∈ (ofList [Octets.fill 2, Octets.fill 1, Octets.fill 2]).peers ↔
      p ∈ ((empty.insert (Octets.fill 1)).1.insert (Octets.fill 2)).1.peers := by
    intro p
    rw [mem_ofList, mem_insert, mem_insert]
    simp [empty]
    tauto
  obtain ⟨-, -, hlists, hsets⟩ := sets_of_peers
  exact ⟨⟨hs, ht, hmem⟩, hlists _ _ (by simp [or_comm]), hsets _ _ hs ht hmem⟩

end Quorum.PeerSet
