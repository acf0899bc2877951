import Quorum.Proofs.Wire.Spelling

/-!
# Containers of values of one size

* `Toll.list_fixed` : a list of values that all take as much room as a place in it;
* `Uniform α` : all values of `α` are of this kind;
* sets of peers are `Metered`; `need_peerSet`, `need_map` : the room that such containers need, by
  the number of their elements;
* `reads_spelled_list`, `spelled_of_decodeList` : a list is read after any spelling of its length, and
  from nothing else;
* `decodeWhole_peerSet_iff` : the byte strings that decode to a set of peers;
* `decodeWhole_encode_peerSet_iff`, `decodeWhole_encode_map_iff` : when what is written is read back.
-/

namespace Quorum.Wire

/-! ## Room -/

namespace Toll

theorem fixed_items {size : Nat} {ts : List Toll} (h : ∀ t ∈ ts, t = fixed size) :
    items size ts = fixed (ts.length * size) := by
  induction ts with
  | nil => exact congrArg fixed (Nat.zero_mul size).symm
  | cons t ts ih =>
    obtain rfl := h t List.mem_cons_self
    have htail := ih fun u hu => h u (List.mem_cons_of_mem _ hu)
    ext
    · rw [need_items_cons, htail, List.length_cons, Nat.succ_mul]
      simp only [need_fixed, cost_fixed]
      omega
    · rw [cost_items_cons, htail, List.length_cons, Nat.succ_mul]
      simp only [cost_fixed]
      omega

/-- A list of values that take as much room as a place in it. -/
theorem list_fixed {size : Nat} {ts : List Toll} (h : ∀ t ∈ ts, t = fixed size) :
    list size ts = fixed (8 + ts.length * size) := by
  ext
  · rw [need_list, fixed_items h, need_fixed, need_fixed, Nat.max_self]
  · rw [cost_list, fixed_items h, cost_fixed, cost_fixed]

end Toll

/-- Every value takes as much room as a place in a container. -/
class Uniform (α : Type) [Format α] [Metered α] : Prop where
  toll_eq (a : α) : toll a = .fixed (Format.footprint α)

instance {role : OctetRole} : Uniform (Octets role) where
  toll_eq _ := rfl

instance {α β : Type} [Format α] [Format β] [Metered α] [Metered β] [Uniform α] [Uniform β] :
    Uniform (α × β) where
  toll_eq p := by
    show (toll p.1).then (toll p.2) = _
    rw [Uniform.toll_eq p.1, Uniform.toll_eq p.2, Toll.fixed_then_fixed]
    rfl

instance {α β : Type} [Format α] [Format β] [Canonical α] [Canonical β] : Canonical (α × β) where
  rest_eq h := by
    obtain ⟨a, c₁, ha, h⟩ := Decoder.of_bind_eq_ok h
    obtain ⟨b, c₂, hb, h⟩ := Decoder.of_bind_eq_ok h
    cases h
    rw [Canonical.rest_eq ha, Canonical.rest_eq hb, ← List.append_assoc]
    rfl

theorem list_toll_eq {α : Type} [Format α] [Metered α] [Uniform α] (as : List α) :
    Toll.list (Format.footprint α) (as.map toll) =
      .fixed (8 + as.length * Format.footprint α) := by
  have hall : ∀ t ∈ as.map toll, t = Toll.fixed (Format.footprint α) := by
    intro t ht
    obtain ⟨a, -, rfl⟩ := List.mem_map.1 ht
    exact Uniform.toll_eq a
  rw [Toll.list_fixed hall, List.length_map]

instance : Metered PeerSet where
  toll s := .list (Format.footprint PublicKey) (s.peers.map toll)
  footprint_pos := by decide
  reads s h := (reads_list s.peers h).map PeerSet.mk

theorem need_peerSet (s : PeerSet) : need s = 8 + s.size * 32 :=
  congrArg Toll.need (list_toll_eq s.peers)

theorem need_map {κ ν : Type} [Ord κ] [Std.TransOrd κ] [Std.LawfulEqOrd κ] [Format κ] [Format ν]
    [Metered κ] [Metered ν] [Uniform κ] [Uniform ν] (m : SortedMap κ ν) :
    need m = 8 + m.size * (Format.footprint κ + Format.footprint ν) :=
  congrArg Toll.need (list_toll_eq m.entries)

/-! ## Lengths that are spelled wider than they are written -/

section
variable {α : Type} [Format α] {as : List α} {head : Bytes}

/-- A list of values of one size is read after any spelling of its length. -/
theorem reads_spelled_list [Metered α] [Uniform α] (hhead : head ∈ Varint.spellings 8 as.length)
    (hsize : Format.footprint α < UInt64.size) :
    Reads (decodeList α) (head ++ as.flatMap encode) as
      (.fixed (8 + as.length * Format.footprint α)) := by
  have hitems : ∀ a ∈ as, need a < UInt64.size := by
    intro a _
    unfold need
    rwa [Uniform.toll_eq]
  have hreads := reads_list_of_length (Varint.reads_of_mem_spellings hhead) hitems
  rwa [list_toll_eq] at hreads

open Decoder

/-- What follows the length is what is written for the elements. -/
theorem rest_eq_of_replicate [Canonical α] {size n : Nat} {c c' : Cursor}
    (h : Decoder.replicate size Format.decode n c = .ok (as, c')) :
    as.length = n ∧ c.rest = as.flatMap encode ++ c'.rest := by
  induction n generalizing as c with
  | zero =>
    cases h
    exact ⟨rfl, rfl⟩
  | succ n ih =>
    obtain ⟨_, c₁, hback, h⟩ := of_bind_eq_ok h
    obtain ⟨a, c₂, ha, h⟩ := of_bind_eq_ok h
    obtain ⟨bs, c₃, hbs, h⟩ := of_bind_eq_ok h
    obtain ⟨rfl, rfl⟩ := Prod.mk.inj (Except.ok.inj h)
    obtain ⟨rfl, hrest⟩ := ih hbs
    obtain ⟨-, rfl⟩ := Prod.mk.inj (Except.ok.inj hback)
    have hfirst := Canonical.rest_eq ha
    refine ⟨rfl, ?_⟩
    rw [List.flatMap_cons, List.append_assoc, ← hrest]
    exact hfirst

/-- Only a spelling of the length and the elements are read as a list. -/
theorem spelled_of_decodeList [Canonical α] {c c' : Cursor}
    (h : decodeList α c = .ok (as, c')) :
    ∃ head ∈ Varint.spellings 8 as.length, c.rest = head ++ as.flatMap encode ++ c'.rest := by
  obtain ⟨n, c₁, hn, h⟩ := of_bind_eq_ok h
  obtain ⟨m, c₂, hm, hn⟩ := of_bind_eq_ok hn
  obtain ⟨_, c₃, hclaim, hn⟩ := of_bind_eq_ok hn
  cases hn
  obtain ⟨head, hhead, hrest⟩ := Varint.spelled_of_decode hm
  obtain ⟨rfl, has⟩ := rest_eq_of_replicate h
  refine ⟨head, hhead, ?_⟩
  rw [hrest, ← of_claim_eq_ok hclaim, has, List.append_assoc]

/-- There was room for a list that was read. -/
theorem room_of_decodeList [Metered α] [Uniform α] [Canonical α]
    (hsize : Format.footprint α < UInt64.size) {c c' : Cursor}
    (h : decodeList α c = .ok (as, c')) : 8 + as.length * Format.footprint α ≤ c.room := by
  obtain ⟨head, hhead, hrest⟩ := spelled_of_decodeList h
  obtain ⟨rest, room⟩ := c
  obtain rfl : rest = head ++ as.flatMap encode ++ c'.rest := hrest
  refine Decidable.byContradiction fun hroom => ?_
  rw [reads_spelled_list hhead hsize, Toll.need_fixed, if_neg hroom] at h
  cases h

end

/-- **A set is decoded from its peers as they stand**, after any spelling of their number, as long as
there is room for them. -/
theorem decodeWhole_peerSet_iff {s : PeerSet} {bs : Bytes} :
    decodeWhole PeerSet bs = .ok s ↔ 8 + s.size * 32 ≤ decodeLimit ∧
      ∃ head ∈ Varint.spellings 8 s.size, bs = head ++ s.peers.flatMap Octets.bytes := by
  have hsize : Format.footprint PublicKey < UInt64.size := by decide
  constructor
  · intro h
    obtain ⟨room, hd⟩ := of_decodeWhole_eq_ok h
    obtain ⟨ps, hps, rfl⟩ := Decoder.of_map_eq_ok hd
    obtain ⟨head, hhead, hbs⟩ := spelled_of_decodeList hps
    rw [List.append_nil] at hbs
    exact ⟨room_of_decodeList hsize hps, head, hhead, hbs⟩
  · rintro ⟨hroom, head, hhead, rfl⟩
    have hreads : Reads Format.decode (head ++ s.peers.flatMap Octets.bytes) s
        (.fixed (8 + s.size * 32)) := (reads_spelled_list hhead hsize).map PeerSet.mk
    have hwhole := hreads.decodeWhole_append []
    rwa [List.append_nil, Toll.need_fixed, if_pos hroom] at hwhole

/-! ## Written containers -/

/-- A set of peers is read back exactly if there is room for it. -/
theorem decodeWhole_encode_peerSet_iff {s : PeerSet} :
    decodeWhole PeerSet (encode s) = .ok s ↔ 8 + s.size * 32 ≤ decodeLimit := by
  refine ⟨fun h => (decodeWhole_peerSet_iff.1 h).1, fun h => ?_⟩
  rw [← need_peerSet] at h
  rw [decodeWhole_encode_eq (Nat.lt_of_le_of_lt h (by decide)), if_pos h]

/-- A map is read back exactly if there is room for it. -/
theorem decodeWhole_encode_map_iff {κ ν : Type} [Ord κ] [Std.TransOrd κ] [Std.LawfulEqOrd κ]
    [Format κ] [Format ν] [Metered κ] [Metered ν] [Uniform κ] [Uniform ν] [Canonical κ]
    [Canonical ν] (hsize : Format.footprint (κ × ν) < UInt64.size) {m : SortedMap κ ν} :
    decodeWhole (SortedMap κ ν) (encode m) = .ok m ↔
      8 + m.size * Format.footprint (κ × ν) ≤ decodeLimit := by
  constructor
  · intro h
    obtain ⟨room, hd⟩ := of_decodeWhole_eq_ok h
    obtain ⟨es, hes, rfl⟩ := Decoder.of_map_eq_ok hd
    have hle := Nat.mul_le_mul_right (Format.footprint (κ × ν)) (SortedMap.size_ofList_le es)
    exact Nat.le_trans (Nat.add_le_add_left hle 8) (room_of_decodeList hsize hes)
  · intro h
    have hneed : need m ≤ decodeLimit := Nat.le_trans (Nat.le_of_eq (need_map m)) h
    rw [decodeWhole_encode_eq (Nat.lt_of_le_of_lt hneed (by decide)), if_pos hneed]

end Quorum.Wire
