import Mathlib.Tactic.SplitIfs
import Quorum.Peer.Set
import Quorum.Proofs.Data.Map

/-!
# Reading back what was written

* `ReadsBack d bs a cost` : in front of any further input, the decoder `d` reads `a` off `bs` and
  accounts for `cost` bytes of memory;
* `ReadsBack.bind`, `ReadsBack.map` : decoders put together read back what is put together;
* `Lawful α` : every value of `α` is read back, at the cost of one place in a container;
* `readsBack_list`, `readsBack_peerSet`, `readsBack_map` : containers of such values;
* `decodeWhole_encode` : a value that is read back within the limit decodes.
-/

namespace Quorum.Wire

/-- `d` reads `a` off `bs`, whatever follows, and accounts for `cost` bytes of memory. -/
def ReadsBack {α : Type} (d : Decoder α) (bs : Bytes) (a : α) (cost : Nat) : Prop :=
  ∀ rest room, cost ≤ room → d ⟨bs ++ rest, room⟩ = .ok (a, ⟨rest, room - cost⟩)

/-! ## Putting decoders together -/

theorem ReadsBack.pure {α : Type} (a : α) : ReadsBack (Pure.pure a : Decoder α) [] a 0 := by
  intro rest room _
  rfl

theorem ReadsBack.bind {α β : Type} {d : Decoder α} {f : α → Decoder β} {xs ys : Bytes} {a : α}
    {b : β} {m n : Nat} (hd : ReadsBack d xs a m) (hf : ReadsBack (f a) ys b n) :
    ReadsBack (d >>= f) (xs ++ ys) b (m + n) := by
  intro rest room h
  show (d ⟨xs ++ ys ++ rest, room⟩ >>= fun p => f p.1 p.2) = _
  rw [List.append_assoc, hd _ _ (by omega)]
  show f a ⟨ys ++ rest, room - m⟩ = _
  rw [hf _ _ (by omega), Nat.sub_sub]

theorem ReadsBack.bind_pure {α β : Type} {d : Decoder α} {f : α → Decoder β} {xs : Bytes} {a : α}
    {b : β} {n : Nat} (hd : ReadsBack d xs a n) (hf : f a = Pure.pure b) :
    ReadsBack (d >>= f) xs b n := by
  have hb : ReadsBack (f a) [] b 0 := hf ▸ ReadsBack.pure b
  have h := hd.bind hb
  rwa [List.append_nil, Nat.add_zero] at h

theorem ReadsBack.map {α β : Type} {d : Decoder α} {xs : Bytes} {a : α} {m : Nat} (f : α → β)
    (hd : ReadsBack d xs a m) : ReadsBack (f <$> d) xs (f a) m := by
  intro rest room h
  show (d ⟨xs ++ rest, room⟩ >>= fun p => Pure.pure (f p.1, p.2)) = _
  rw [hd _ _ h]
  rfl

/-- A decoder that first accounts for memory. -/
theorem ReadsBack.claim {α : Type} {d : Decoder α} {xs : Bytes} {a : α} {m n : Nat}
    (hd : ReadsBack d xs a m) : ReadsBack (Decoder.claim n >>= fun _ => d) xs a (n + m) := by
  have h : ReadsBack (Decoder.claim n) [] () n := by
    intro rest room h
    simp only [Decoder.claim, List.nil_append]
    rw [if_pos h]
  simpa using h.bind (f := fun _ => d) hd

theorem readsBack_byte (b : UInt8) : ReadsBack Decoder.byte [b] b 0 := by
  intro rest room _
  rfl

theorem readsBack_take {n : Nat} {bs : Bytes} (h : bs.length = n) :
    ReadsBack (Decoder.take n) bs bs 0 := by
  intro rest room _
  subst h
  simp [Decoder.take]

/-! ## Integers -/

/-- A number that is marked with its width. -/
theorem readsBack_marked {w width n : Nat} {marker : UInt8} (hm : ¬ marker < 251)
    (hw : Varint.markedWidth? marker = some w) (hle : w ≤ width) (hn : n < Bytes.capacity w) :
    ReadsBack (Varint.decode width) (marker :: Bytes.ofNatBE w n) n width := by
  refine (ReadsBack.bind (readsBack_byte marker) (m := 0) (n := 0) ?_).claim
  rw [if_neg hm, hw]
  simp only [if_pos hle]
  have ht : ReadsBack (Decoder.take w) (Bytes.ofNatBE w n) (Bytes.ofNatBE w n) 0 :=
    readsBack_take (Bytes.length_ofNatBE w n)
  have := ht.map Bytes.toNatBE
  rwa [Bytes.toNatBE_ofNatBE hn] at this

/-- A number that needs no mark. -/
theorem readsBack_small {n : Nat} (width : Nat) (h : n < 251) :
    ReadsBack (Varint.decode width) [UInt8.ofNat n] n width := by
  have hn : (UInt8.ofNat n).toNat = n := by
    rw [UInt8.toNat_ofNat']
    exact Nat.mod_eq_of_lt (by omega)
  have hlt : UInt8.ofNat n < 251 := by
    rw [UInt8.lt_iff_toNat_lt, hn]
    exact h
  refine (ReadsBack.bind_pure (readsBack_byte _) ?_).claim
  rw [if_pos hlt, hn]

theorem readsBack_varint {n : Nat} (h : n < UInt64.size) :
    ReadsBack (Varint.decode 8) (Varint.encode n) n 8 := by
  unfold Varint.encode
  split_ifs with h₁ h₂ h₃
  · exact readsBack_small 8 h₁
  · exact readsBack_marked (by decide) rfl (by decide) h₂
  · exact readsBack_marked (by decide) rfl (by decide) h₃
  · exact readsBack_marked (by decide) rfl (by decide) h

/-! ## Values of a fixed size -/

/-- Every value is read back, at the cost of one place in a container. -/
class Lawful (α : Type) [Format α] : Prop where
  readsBack (a : α) : ReadsBack Format.decode (encode a) a (Format.footprint α)

instance : Lawful UInt64 where
  readsBack n := by
    have h := (readsBack_varint n.toNat_lt).map UInt64.ofNat
    rwa [UInt64.ofNat_toNat] at h

instance : Lawful Bool where
  readsBack b := by
    cases b
    · refine (ReadsBack.bind_pure (readsBack_byte 0) ?_).claim
      rfl
    · refine (ReadsBack.bind_pure (readsBack_byte 1) ?_).claim
      rfl

instance {role : OctetRole} : Lawful (Octets role) where
  readsBack o := by
    refine (ReadsBack.bind_pure (readsBack_take o.length_eq) ?_).claim
    rw [Octets.ofBytes?_bytes]

instance {α β : Type} [Format α] [Format β] [Lawful α] [Lawful β] : Lawful (α × β) where
  readsBack p := (Lawful.readsBack p.1).bind
    (((Lawful.readsBack p.2).map fun b => (p.1, b)))

/-! ## Containers -/

/-- Values that each take `size` bytes are read one after the other in the room already claimed. -/
theorem readsBack_replicate {α : Type} [Format α] [Lawful α] (as : List α) :
    ReadsBack (Decoder.replicate (Format.footprint α) Format.decode as.length)
      (as.flatMap encode) as 0 := by
  induction as with
  | nil => exact ReadsBack.pure []
  | cons a as ih =>
    intro rest room _
    have ha := Lawful.readsBack a (as.flatMap encode ++ rest) (room + Format.footprint α) (by omega)
    rw [Nat.add_sub_cancel] at ha
    show ((Format.decode : Decoder α) ⟨(a :: as).flatMap encode ++ rest,
      room + Format.footprint α⟩ >>= _) = _
    rw [List.flatMap_cons, List.append_assoc, ha]
    show ((Decoder.replicate _ _ as.length) ⟨as.flatMap encode ++ rest, room⟩ >>= _) = _
    rw [ih rest room (Nat.zero_le _)]
    rfl

theorem readsBack_list {α : Type} [Format α] [Lawful α] (as : List α)
    (h : as.length < UInt64.size) :
    ReadsBack (decodeList α) (encodeList as) as (8 + as.length * Format.footprint α) := by
  have hl : ReadsBack (decodeLength (Format.footprint α)) (Varint.encode as.length ++ [])
      as.length (8 + as.length * Format.footprint α) := by
    refine (readsBack_varint h).bind ?_
    exact (ReadsBack.pure as.length).claim
  rw [List.append_nil] at hl
  exact hl.bind (readsBack_replicate as)

theorem readsBack_peerSet {s : PeerSet} (h : s.size < UInt64.size) :
    ReadsBack Format.decode (encode s) s (8 + s.size * 32) :=
  (readsBack_list s.peers h).map PeerSet.mk

theorem readsBack_map {κ ν : Type} [Ord κ] [Std.TransOrd κ] [Std.LawfulEqOrd κ] [Format κ]
    [Format ν] [Lawful κ] [Lawful ν] {m : SortedMap κ ν} (h : m.size < UInt64.size) :
    ReadsBack Format.decode (encode m) m
      (8 + m.size * (Format.footprint κ + Format.footprint ν)) := by
  have hl := (readsBack_list m.entries h).map SortedMap.ofList
  rwa [SortedMap.ofList_entries] at hl

/-! ## Whole byte strings -/

theorem decodeWhole_encode {α : Type} [Format α] {a : α} {cost : Nat}
    (h : ReadsBack Format.decode (encode a) a cost) (hc : cost ≤ decodeLimit) :
    decodeWhole α (encode a) = .ok a := by
  have ha := h [] decodeLimit hc
  rw [List.append_nil] at ha
  unfold decodeWhole Decoder.whole StateT.run
  rw [ha]
  rfl

/-- A set of peers that can be counted decodes. -/
theorem decodeWhole_peerSet {s : PeerSet} (h : s.size ≤ PeerCount.limit) :
    decodeWhole PeerSet (encode s) = .ok s := by
  have hs : s.size ≤ 255 := h
  refine decodeWhole_encode (readsBack_peerSet ?_) ?_
  · exact Nat.lt_of_le_of_lt hs (by decide)
  · exact Nat.le_trans (Nat.add_le_add_left (Nat.mul_le_mul_right 32 hs) 8) (by decide)

end Quorum.Wire
