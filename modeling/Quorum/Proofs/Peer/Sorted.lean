import Mathlib.Tactic.SplitIfs
import Quorum.Peer.Set
import Quorum.Proofs.Data.Map

/-!
# Sets of peers that are in order

* `PeerSet.Sorted` : the peers are strictly increasing;
* `PeerSet.Built` : the set was put together by the set operations, which keep the order
  (`Built.sorted`);
* `mem_of_contains`, `contains_iff` : what binary search finds is a member, and in a set that is in
  order every member is found;
* `ofList_eq_of_pairwise` : a list that is in order is the set of its peers as it stands.
-/

namespace Quorum.PeerSet

/-- The peers are strictly increasing. -/
def Sorted (s : PeerSet) : Prop := s.peers.Pairwise fun p q => compare p q = .lt

/-- The set was put together by the operations on sets. -/
inductive Built : PeerSet → Prop
  | empty : Built empty
  | ofList (ps : List PublicKey) : Built (ofList ps)
  | insert {s : PeerSet} (p : PublicKey) : Built s → Built (s.insert p).1
  | remove {s : PeerSet} (p : PublicKey) : Built s → Built (s.remove p).1

/-! ## Binary search -/

theorem getElem?_of_locateIn {p : PublicKey} {fuel : Nat} {ps : List PublicKey} {i : Nat}
    (h : locateIn p fuel ps = some i) : ps[i]? = some p := by
  fun_induction locateIn p fuel ps generalizing i with
  | case6 fuel ps hnil hone half q hq hgt =>
    rename_i ih
    have hi := ih h
    rw [List.getElem?_take] at hi
    split at hi
    · exact hi
    · cases hi
  | case7 fuel ps hnil hone half q hq hle =>
    rename_i ih
    obtain ⟨j, hj, rfl⟩ := Option.map_eq_some_iff.1 h
    have hj := ih hj
    rwa [List.getElem?_drop] at hj
  | case3 fuel =>
    cases h
    rfl
  | _ => cases h

/-- Of two halves of a list that is in order, `p` is in the one on its side of the middle. -/
theorem mem_take_of_lt {p q : PublicKey} {ps : List PublicKey} {k : Nat}
    (hs : ps.Pairwise fun a b => compare a b = .lt) (hq : (ps.drop k).head? = some q)
    (hgt : compare q p = .gt) (hp : p ∈ ps) : p ∈ ps.take k := by
  rw [← List.take_append_drop k ps, List.mem_append] at hp
  refine hp.resolve_right fun hd => ?_
  obtain ⟨qs, hqs⟩ := List.head?_eq_some_iff.1 hq
  have hsd := hs.sublist (List.drop_sublist k ps)
  rw [hqs] at hd hsd
  rcases List.mem_cons.1 hd with rfl | hd
  · rw [SortedMap.compare_self] at hgt
    cases hgt
  · rw [(List.pairwise_cons.1 hsd).1 p hd] at hgt
    cases hgt

theorem mem_drop_of_le {p q : PublicKey} {ps : List PublicKey} {k : Nat}
    (hs : ps.Pairwise fun a b => compare a b = .lt) (hq : (ps.drop k).head? = some q)
    (hle : compare q p ≠ .gt) (hp : p ∈ ps) : p ∈ ps.drop k := by
  have hp' := hp
  rw [← List.take_append_drop k ps, List.mem_append] at hp
  refine hp.resolve_left fun ht => hle ?_
  have hqd : q ∈ ps.drop k := List.mem_of_head? hq
  rw [← List.take_append_drop k ps] at hs
  exact Std.OrientedCmp.gt_of_lt ((List.pairwise_append.1 hs).2.2 p ht q hqd)

theorem two_le_length {ps : List PublicKey} (hnil : ps = [] → False)
    (hone : ∀ q, ps = [q] → False) : 2 ≤ ps.length := by
  match ps with
  | [] => exact (hnil rfl).elim
  | [q] => exact (hone q rfl).elim
  | _ :: _ :: _ => exact Nat.le_add_left 2 _

theorem isSome_locateIn {p : PublicKey} {fuel : Nat} {ps : List PublicKey}
    (hs : ps.Pairwise fun a b => compare a b = .lt) (hf : ps.length < fuel) (hp : p ∈ ps) :
    (locateIn p fuel ps).isSome := by
  fun_induction locateIn p fuel ps with
  | case1 => exact absurd hf (Nat.not_lt_zero _)
  | case2 => cases hp
  | case3 => rfl
  | case4 fuel q hne => exact absurd (List.mem_singleton.1 hp).symm hne
  | case5 fuel ps hnil hone half hq =>
    have hpos : 0 < ps.length := List.length_pos_of_mem hp
    rw [List.head?_drop, List.getElem?_eq_getElem (by omega)] at hq
    cases hq
  | case6 fuel ps hnil hone half q hq hgt =>
    rename_i ih
    have hlen : 2 ≤ ps.length := two_le_length hnil hone
    refine ih (hs.sublist (List.take_sublist _ ps)) ?_ ?_
    · rw [List.length_take]
      omega
    · exact List.take_subset_take_left ps (by omega) (mem_take_of_lt hs hq hgt hp)
  | case7 fuel ps hnil hone half q hq hle =>
    rename_i ih
    have hlen : 2 ≤ ps.length := two_le_length hnil hone
    rw [Option.isSome_map]
    refine ih (hs.sublist (List.drop_sublist _ ps)) ?_ (mem_drop_of_le hs hq hle hp)
    rw [List.length_drop]
    omega

/-- What binary search finds is a member, in order or not. -/
theorem mem_of_contains {s : PeerSet} {p : PublicKey} (h : s.contains p = true) : p ∈ s.peers := by
  obtain ⟨i, hi⟩ := Option.isSome_iff_exists.1 h
  exact List.mem_of_getElem? (getElem?_of_locateIn hi)

theorem contains_iff {s : PeerSet} (hs : s.Sorted) {p : PublicKey} :
    s.contains p = true ↔ p ∈ s.peers :=
  ⟨mem_of_contains, isSome_locateIn hs (Nat.lt_succ_self _)⟩

/-! ## Sorting -/

theorem inOrder_trans (a b c : PublicKey) (hab : inOrder a b) (hbc : inOrder b c) :
    inOrder a c :=
  Std.TransCmp.isLE_trans hab hbc

theorem inOrder_total (a b : PublicKey) : inOrder a b || inOrder b a := by
  have hswap : compare b a = (compare a b).swap := Std.OrientedCmp.eq_swap
  unfold inOrder
  rw [hswap]
  cases compare a b <;> rfl

theorem pairwise_mergeSort_inOrder (ps : List PublicKey) :
    (ps.mergeSort inOrder).Pairwise fun a b => inOrder a b :=
  List.pairwise_mergeSort inOrder_trans inOrder_total ps

theorem lt_of_inOrder {a b : PublicKey} (h : inOrder a b) (hne : a ≠ b) : compare a b = .lt := by
  unfold inOrder at h
  cases hc : compare a b with
  | lt => rfl
  | eq => exact absurd (SortedMap.compare_eq_iff.1 hc) hne
  | gt =>
    rw [hc] at h
    cases h

theorem mem_dropRepeats {p : PublicKey} {ps : List PublicKey} :
    p ∈ dropRepeats ps ↔ p ∈ ps := by
  fun_induction dropRepeats ps with
  | case1 => rfl
  | case2 => rfl
  | case3 q ps ih =>
    rw [ih]
    simp
  | case4 q r ps hne ih => rw [List.mem_cons, ih, ← List.mem_cons]

theorem pairwise_dropRepeats {ps : List PublicKey}
    (h : ps.Pairwise fun a b => inOrder a b) :
    (dropRepeats ps).Pairwise fun a b => compare a b = .lt := by
  fun_induction dropRepeats ps with
  | case1 => exact .nil
  | case2 p => exact List.pairwise_singleton _ p
  | case3 p ps ih => exact ih (List.pairwise_cons.1 h).2
  | case4 p q ps hne ih =>
    obtain ⟨hp, hq⟩ := List.pairwise_cons.1 h
    have hpq : compare p q = .lt := lt_of_inOrder (hp q List.mem_cons_self) hne
    refine List.pairwise_cons.2 ⟨fun r hr => ?_, ih hq⟩
    rcases List.mem_cons.1 (mem_dropRepeats.1 hr) with rfl | hr
    · exact hpq
    · exact Std.TransCmp.lt_of_lt_of_isLE hpq ((List.pairwise_cons.1 hq).1 r hr)

/-- The set of a list is in order and has the members of the list. -/
theorem sorted_ofList (ps : List PublicKey) : (ofList ps).Sorted :=
  pairwise_dropRepeats (pairwise_mergeSort_inOrder ps)

theorem mem_ofList {ps : List PublicKey} {p : PublicKey} : p ∈ (ofList ps).peers ↔ p ∈ ps :=
  mem_dropRepeats.trans List.mem_mergeSort

theorem length_dropRepeats_le (ps : List PublicKey) : (dropRepeats ps).length ≤ ps.length := by
  fun_induction dropRepeats ps with
  | case1 => exact Nat.le_refl _
  | case2 => exact Nat.le_refl _
  | case3 q ps ih => exact Nat.le_succ_of_le ih
  | case4 q r ps hne ih => exact Nat.succ_le_succ ih

theorem size_ofList_le (ps : List PublicKey) : (ofList ps).size ≤ ps.length := by
  have h := length_dropRepeats_le (ps.mergeSort inOrder)
  rwa [List.length_mergeSort] at h

theorem dropRepeats_eq_of_pairwise {ps : List PublicKey}
    (h : ps.Pairwise fun a b => compare a b = .lt) : dropRepeats ps = ps := by
  fun_induction dropRepeats ps with
  | case1 => rfl
  | case2 => rfl
  | case3 p ps ih =>
    exact absurd rfl (SortedMap.ne_of_compare_lt ((List.pairwise_cons.1 h).1 p List.mem_cons_self))
  | case4 p q ps hne ih => rw [ih (List.pairwise_cons.1 h).2]

/-- A list that is in order is the set of its peers as it stands. -/
theorem ofList_eq_of_pairwise {ps : List PublicKey}
    (h : ps.Pairwise fun a b => compare a b = .lt) : ofList ps = ⟨ps⟩ := by
  have hle : ps.Pairwise fun a b => inOrder a b :=
    h.imp fun {a b} hab => by
      show (compare a b).isLE = true
      rw [hab]
      rfl
  unfold ofList
  rw [List.mergeSort_of_pairwise hle, dropRepeats_eq_of_pairwise h]

/-- Lists that are in order and have the same members are equal. -/
theorem eq_of_pairwise {ps qs : List PublicKey} (hp : ps.Pairwise fun a b => compare a b = .lt)
    (hq : qs.Pairwise fun a b => compare a b = .lt) (h : ∀ p, p ∈ ps ↔ p ∈ qs) : ps = qs := by
  have hperm : ps.Perm qs :=
    (List.perm_ext_iff_of_nodup (SortedMap.nodup_of_pairwise hp)
      (SortedMap.nodup_of_pairwise hq)).2 h
  refine hperm.eq_of_pairwise (fun a b _ _ hab hba => ?_) hp hq
  rw [Std.OrientedCmp.gt_of_lt hab] at hba
  cases hba

/-! ## Sets that were put together -/

theorem Sorted.insert {s : PeerSet} (hs : s.Sorted) (p : PublicKey) : (s.insert p).1.Sorted := by
  unfold PeerSet.insert
  split_ifs with h
  · exact hs
  · have hp : p ∉ s.peers := mt (contains_iff hs).2 h
    have hnd : ((p :: s.peers).mergeSort inOrder).Nodup := by
      rw [(List.mergeSort_perm _ _).nodup_iff, List.nodup_cons]
      exact ⟨hp, SortedMap.nodup_of_pairwise hs⟩
    exact (pairwise_mergeSort_inOrder _).imp₂ (fun a b hab hne => lt_of_inOrder hab hne) hnd

theorem Sorted.remove {s : PeerSet} (hs : s.Sorted) (p : PublicKey) : (s.remove p).1.Sorted := by
  unfold PeerSet.remove
  cases s.locate p with
  | none => exact hs
  | some i => exact hs.sublist (List.eraseIdx_sublist _ i)

theorem Built.sorted {s : PeerSet} (h : s.Built) : s.Sorted := by
  induction h with
  | empty => exact .nil
  | ofList ps => exact sorted_ofList ps
  | insert p _ ih => exact ih.insert p
  | remove p _ ih => exact ih.remove p

end Quorum.PeerSet
