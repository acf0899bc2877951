import Mathlib.Algebra.GroupWithZero.Nat
import Quorum.Proofs.Wire.RoundTrip

/-!
# How much room a value takes

A decoder accounts for memory while it reads. Some of it is given back, so the room that must be
there at the start can be more than what is accounted for at the end.

* `Toll` : the room that a value needs, and what it leaves accounted for; `Toll.then` for one value
  after the other, `Toll.list` for a list;
* `Reads d bs a t` : in front of any further input, `d` reads `a` off `bs` exactly if there is the
  room that the toll asks for, and refuses for want of room otherwise;
* `Metered α` : every value of `α` is read like this;
* `decodeWhole_encode_eq` : a written value is read back exactly if the decoder has the room for it;
* `decodeWhole_encode_append` : with anything after it, it is refused;
* `eq_of_isPrefix` : no written value is the beginning of another one.
-/

namespace Quorum.Wire

/-! ## Tolls -/

/-- The room that a value needs when it is read, and what it leaves accounted for. -/
@[ext]
structure Toll where
  need : Nat
  cost : Nat
  cost_le : cost ≤ need

namespace Toll

/-- A value that keeps all that it needs. -/
def fixed (n : Nat) : Toll := ⟨n, n, Nat.le_refl n⟩

/-- One value after the other. -/
def «then» (t u : Toll) : Toll where
  need := max t.need (t.cost + u.need)
  cost := t.cost + u.cost
  cost_le := Nat.le_trans (Nat.add_le_add_left u.cost_le t.cost) (Nat.le_max_right ..)

/-- The elements of a list, after `size` bytes for each of them were accounted for. An element gives
its own share back before it is read, and those after it still hold theirs. -/
def items (size : Nat) : List Toll → Toll
  | [] => fixed 0
  | t :: ts =>
    { need := max (ts.length * size + t.need) (t.cost + (items size ts).need)
      cost := t.cost + (items size ts).cost
      cost_le := Nat.le_trans (Nat.add_le_add_left (items size ts).cost_le t.cost)
        (Nat.le_max_right ..) }

/-- A list: its length, a share for every element, and the elements. -/
def list (size : Nat) (ts : List Toll) : Toll where
  need := 8 + max (ts.length * size) (items size ts).need
  cost := 8 + (items size ts).cost
  cost_le := Nat.add_le_add_left (Nat.le_trans (items size ts).cost_le (Nat.le_max_right ..)) 8

@[simp] theorem need_fixed (n : Nat) : (fixed n).need = n := rfl

@[simp] theorem cost_fixed (n : Nat) : (fixed n).cost = n := rfl

@[simp] theorem need_then (t u : Toll) : (t.then u).need = max t.need (t.cost + u.need) := rfl

@[simp] theorem cost_then (t u : Toll) : (t.then u).cost = t.cost + u.cost := rfl

@[simp] theorem need_items_cons (size : Nat) (t : Toll) (ts : List Toll) :
    (items size (t :: ts)).need =
      max (ts.length * size + t.need) (t.cost + (items size ts).need) := rfl

@[simp] theorem cost_items_cons (size : Nat) (t : Toll) (ts : List Toll) :
    (items size (t :: ts)).cost = t.cost + (items size ts).cost := rfl

@[simp] theorem need_list (size : Nat) (ts : List Toll) :
    (list size ts).need = 8 + max (ts.length * size) (items size ts).need := rfl

@[simp] theorem cost_list (size : Nat) (ts : List Toll) :
    (list size ts).cost = 8 + (items size ts).cost := rfl

theorem fixed_then_fixed (m n : Nat) : (fixed m).then (fixed n) = fixed (m + n) := by
  ext
  · simp
  · simp

/-- A list needs the room of each of its elements. -/
theorem need_le_need_items (size : Nat) {t : Toll} {ts : List Toll} (h : t ∈ ts) :
    t.need ≤ (items size ts).need := by
  induction ts with
  | nil => cases h
  | cons u us ih =>
    rw [need_items_cons]
    obtain rfl | h := List.mem_cons.1 h
    · omega
    · have := ih h
      omega

/-- What a list needs at most: for each element its share or its own need, whichever is more. -/
theorem need_list_le (size : Nat) (ts : List Toll) :
    (list size ts).need ≤ 8 + (ts.map fun t => max size t.need).sum := by
  have hitems : max (ts.length * size) (items size ts).need ≤
      (ts.map fun t => max size t.need).sum := by
    induction ts with
    | nil => exact Nat.le_of_eq (by simp [items])
    | cons t ts ih =>
      have hcost := t.cost_le
      rw [List.length_cons, Nat.succ_mul, List.map_cons, List.sum_cons, need_items_cons]
      omega
  exact Nat.add_le_add_left hitems 8

end Toll

/-- `d` reads `a` off `bs`, whatever follows, exactly if there is room for it. -/
def Reads {α : Type} (d : Decoder α) (bs : Bytes) (a : α) (t : Toll) : Prop :=
  ∀ rest room, d ⟨bs ++ rest, room⟩ =
    if t.need ≤ room then .ok (a, ⟨rest, room - t.cost⟩) else .error .limitExceeded

/-! ## Putting decoders together -/

section
variable {α β : Type} {d : Decoder α} {f : α → Decoder β} {xs ys : Bytes} {a : α} {b : β}
  {t u : Toll} {n : Nat}

theorem Reads.bind (hd : Reads d xs a t) (hf : Reads (f a) ys b u) :
    Reads (d >>= f) (xs ++ ys) b (t.then u) := by
  intro rest room
  have ht := t.cost_le
  show (d ⟨xs ++ ys ++ rest, room⟩ >>= fun p => f p.1 p.2) = _
  rw [List.append_assoc, hd, Toll.need_then, Toll.cost_then]
  by_cases hroom : t.need ≤ room
  · rw [if_pos hroom]
    show f a ⟨ys ++ rest, room - t.cost⟩ = _
    rw [hf, Nat.sub_sub]
    congr 1
    exact propext (by omega)
  · rw [if_neg hroom, if_neg (by omega)]
    rfl

/-- A decoder that reads on, but nothing that takes room or input. -/
theorem Reads.bind_pure (hd : Reads d xs a t) (hf : f a = pure b) : Reads (d >>= f) xs b t := by
  intro rest room
  show (d ⟨xs ++ rest, room⟩ >>= fun p => f p.1 p.2) = _
  rw [hd]
  split_ifs
  · show f a _ = _
    rw [hf]
    rfl
  · rfl

theorem Reads.map (f : α → β) (hd : Reads d xs a t) : Reads (f <$> d) xs (f a) t := by
  rw [map_eq_pure_bind]
  exact hd.bind_pure rfl

/-- After input that takes no room. -/
theorem Reads.after (hf : Reads (f a) ys b u) (hd : ReadsBack d xs a 0) :
    Reads (d >>= f) (xs ++ ys) b u := by
  intro rest room
  show (d ⟨xs ++ ys ++ rest, room⟩ >>= fun p => f p.1 p.2) = _
  rw [List.append_assoc, hd _ _ (Nat.zero_le room)]
  exact hf rest room

/-- Byte strings are written from the left, and read from the left. -/
theorem Reads.assoc {zs : Bytes} (h : Reads d (xs ++ (ys ++ zs)) a t) :
    Reads d (xs ++ ys ++ zs) a t := by
  rwa [List.append_assoc]

/-- A decoder that accounts for memory first. -/
theorem Reads.claim (n : Nat) (hd : Reads d xs a t) :
    Reads (Decoder.claim n >>= fun _ => d) xs a ((Toll.fixed n).then t) := by
  have hc : Reads (Decoder.claim n) [] () (.fixed n) := fun _ _ => rfl
  exact hc.bind (f := fun _ => d) hd

/-- A decoder that accounts for all that it takes before anything else. -/
theorem Reads.of_claim (h : ReadsBack (Decoder.claim n >>= fun _ => d) xs a n) :
    Reads (Decoder.claim n >>= fun _ => d) xs a (.fixed n) := by
  intro rest room
  rw [Toll.need_fixed, Toll.cost_fixed]
  by_cases hroom : n ≤ room
  · rw [if_pos hroom, h rest room hroom]
  · rw [if_neg hroom]
    show ((if n ≤ room then _ else _ : Except DecodeError (Unit × Cursor)) >>= _) = _
    rw [if_neg hroom]
    rfl

end

/-! ## Numbers and byte strings -/

theorem reads_variant {n : Nat} (h : n < 251) :
    Reads decodeVariant (encodeVariant n) n (.fixed 4) := by
  unfold encodeVariant Varint.encode
  rw [if_pos h]
  exact .of_claim (readsBack_small 4 h)

theorem reads_varint {n : Nat} (h : n < UInt64.size) :
    Reads (Varint.decode 8) (Varint.encode n) n (.fixed 8) :=
  .of_claim (readsBack_varint h)

/-- The length of a container, and the share of its elements. -/
theorem reads_length {n : Nat} {head : Bytes} (size : Nat)
    (h : Reads (Varint.decode 8) head n (.fixed 8)) :
    Reads (decodeLength size) head n (.fixed (8 + n * size)) := by
  have hn : Reads (Decoder.claim (n * size) >>= fun _ => pure n) [] n (.fixed (n * size)) :=
    .of_claim (ReadsBack.pure n).claim
  have hd := h.bind (f := fun n => Decoder.claim (n * size) >>= fun _ => pure n) hn
  rwa [List.append_nil, Toll.fixed_then_fixed] at hd

theorem reads_bytes {bs : Bytes} (h : bs.length < UInt64.size) :
    Reads decodeBytes (encodeBytes bs) bs (.fixed (8 + bs.length)) := by
  have hl := reads_length 1 (reads_varint h)
  rw [Nat.mul_one] at hl
  intro rest room
  show (decodeLength 1 ⟨Varint.encode bs.length ++ bs ++ rest, room⟩ >>= fun p =>
    Decoder.take p.1 p.2) = _
  rw [List.append_assoc, hl]
  split_ifs
  · exact readsBack_take rfl rest _ (Nat.zero_le _)
  · rfl

/-! ## Values -/

/-- Every value is read back exactly if there is room for it, unless it is too large to be counted.
A place in a container is never empty. -/
class Metered (α : Type) [Format α] where
  toll : α → Toll
  footprint_pos : 0 < Format.footprint α
  reads (a : α) (h : (toll a).need < UInt64.size) : Reads Format.decode (encode a) a (toll a)

export Metered (toll)

/-- The room that reading a value needs. -/
def need {α : Type} [Format α] [Metered α] (a : α) : Nat := (toll a).need

instance : Metered UInt64 where
  toll _ := .fixed 8
  footprint_pos := by decide
  reads n _ := by
    have h := (reads_varint n.toNat_lt).map UInt64.ofNat
    rwa [UInt64.ofNat_toNat] at h

instance : Metered Bool where
  toll _ := .fixed 1
  footprint_pos := by decide
  reads b _ := .of_claim (Lawful.readsBack b)

instance : Metered Bytes where
  toll bs := .fixed (8 + bs.length)
  footprint_pos := by decide
  reads bs h := reads_bytes (by rw [Toll.need_fixed] at h; omega)

/-- A text is the text of its bytes. -/
theorem text?_ofString (s : String) : text? (Bytes.ofString s) = some s := by
  unfold text? Bytes.ofString String.fromUTF8?
  exact dif_pos s.isValidUTF8

instance : Metered String where
  toll s := .fixed (8 + (Bytes.ofString s).length)
  footprint_pos := by decide
  reads s h := by
    refine (reads_bytes (by rw [Toll.need_fixed] at h; omega)).bind_pure ?_
    rw [text?_ofString]

instance {role : OctetRole} : Metered (Octets role) where
  toll _ := .fixed role.width
  footprint_pos := by cases role <;> decide
  reads o _ := .of_claim (Lawful.readsBack o)

instance {role : CounterRole} : Metered (Counter role) where
  toll _ := .fixed 8
  footprint_pos := by show 0 < 8; decide
  reads c _ := by
    have ht := (readsBack_take c.length_toBytes).map fun bs =>
      (Counter.ofNat (Bytes.toNatBE bs) : Counter role)
    have hc : Counter.ofNat (Bytes.toNatBE c.toBytes) = c := by
      unfold Counter.toBytes
      rw [Bytes.toNatBE_ofNatBE c.toNat_lt]
      exact Counter.toNat_inj.1 (Counter.toNat_ofNat c.toNat_lt)
    rw [hc] at ht
    exact .of_claim ht.claim

instance {α : Type} [Format α] [Metered α] : Metered (Option α) where
  toll o := o.elim (.fixed 1) fun a => (Toll.fixed 1).then (toll a)
  footprint_pos := Nat.lt_of_lt_of_le Nat.zero_lt_one (Nat.le_add_right 1 _)
  reads o h := by
    cases o with
    | none =>
      refine .of_claim (ReadsBack.bind_pure (readsBack_byte 0) ?_).claim
      rfl
    | some a =>
      rw [Option.elim_some, Toll.need_then, Toll.need_fixed, Toll.cost_fixed] at h
      have ha := (Metered.reads a (by omega)).map some
      show Reads _ ([1] ++ encode a) (some a) _
      refine .claim 1 (.after (a := 1) ?_ (readsBack_byte 1))
      exact ha

instance {α β : Type} [Format α] [Format β] [Metered α] [Metered β] : Metered (α × β) where
  toll p := (toll p.1).then (toll p.2)
  footprint_pos := Nat.add_pos_left Metered.footprint_pos _
  reads p h := by
    rw [Toll.need_then] at h
    have hb := (Metered.reads p.2 (by omega)).map fun b => (p.1, b)
    exact (Metered.reads p.1 (by omega)).bind hb

/-! ## Containers -/

section
variable {α : Type} [Format α] [Metered α]

/-- The elements of a list, in the room that their shares leave. -/
theorem replicate_encode (size : Nat) (as : List α) (h : ∀ a ∈ as, need a < UInt64.size)
    (rest : Bytes) {room : Nat} (hroom : as.length * size ≤ room) :
    Decoder.replicate size Format.decode as.length
      ⟨as.flatMap encode ++ rest, room - as.length * size⟩ =
    if (Toll.items size (as.map toll)).need ≤ room then
      .ok (as, ⟨rest, room - (Toll.items size (as.map toll)).cost⟩)
    else .error .limitExceeded := by
  induction as generalizing room with
  | nil =>
    rw [List.length_nil, Nat.zero_mul, Nat.sub_zero]
    exact (if_pos (Nat.zero_le room)).symm
  | cons a as ih =>
    have ha := Metered.reads a (h a List.mem_cons_self)
    rw [List.length_cons, Nat.succ_mul] at hroom
    have hback : room - (a :: as).length * size + size = room - as.length * size := by
      rw [List.length_cons, Nat.succ_mul]
      omega
    show ((Format.decode : Decoder α) ⟨(a :: as).flatMap encode ++ rest,
      room - (a :: as).length * size + size⟩ >>= _) = _
    rw [hback, List.flatMap_cons, List.append_assoc, ha, List.map_cons, Toll.need_items_cons,
      Toll.cost_items_cons, List.length_map]
    by_cases hn : (toll a).need ≤ room - as.length * size
    · have hcost := (toll a).cost_le
      have hleft : room - as.length * size - (toll a).cost =
          room - (toll a).cost - as.length * size := Nat.sub_right_comm ..
      rw [if_pos hn]
      show (Decoder.replicate _ _ as.length ⟨as.flatMap encode ++ rest,
        room - as.length * size - (toll a).cost⟩ >>= _) = _
      rw [hleft, ih (fun b hb => h b (List.mem_cons_of_mem a hb)) (by omega)]
      by_cases hi : (Toll.items size (as.map toll)).need ≤ room - (toll a).cost
      · rw [if_pos hi, if_pos (by omega), ← Nat.sub_sub]
        rfl
      · rw [if_neg hi, if_neg (by omega)]
        rfl
    · rw [if_neg hn, if_neg (by omega)]
      rfl

/-- A list, if what stands before its elements is read as their number. -/
theorem reads_list_of_length {as : List α} {head : Bytes}
    (hhead : Reads (Varint.decode 8) head as.length (.fixed 8))
    (hitems : ∀ a ∈ as, need a < UInt64.size) :
    Reads (decodeList α) (head ++ as.flatMap encode) as
      (Toll.list (Format.footprint α) (as.map toll)) := by
  intro rest room
  rw [Toll.need_list, Toll.cost_list, List.length_map]
  show (decodeLength (Format.footprint α) ⟨head ++ as.flatMap encode ++ rest, room⟩ >>=
    fun p => Decoder.replicate (Format.footprint α) Format.decode p.1 p.2) = _
  rw [List.append_assoc, reads_length _ hhead, Toll.need_fixed, Toll.cost_fixed]
  by_cases hroom : 8 + as.length * Format.footprint α ≤ room
  · rw [if_pos hroom]
    show Decoder.replicate (Format.footprint α) Format.decode as.length
      ⟨as.flatMap encode ++ rest, room - (8 + as.length * Format.footprint α)⟩ = _
    rw [← Nat.sub_sub, replicate_encode _ as hitems rest (by omega), Nat.sub_sub]
    congr 1
    exact propext (by omega)
  · rw [if_neg hroom, if_neg (by omega)]
    rfl

theorem reads_list (as : List α)
    (h : (Toll.list (Format.footprint α) (as.map toll)).need < UInt64.size) :
    Reads (decodeList α) (encodeList as) as (Toll.list (Format.footprint α) (as.map toll)) := by
  have hpos : 0 < Format.footprint α := Metered.footprint_pos
  rw [Toll.need_list, List.length_map] at h
  have hitems : ∀ a ∈ as, need a < UInt64.size := by
    intro a ha
    have hmem : toll a ∈ as.map toll := List.mem_map_of_mem ha
    have hle := Toll.need_le_need_items (Format.footprint α) hmem
    exact Nat.lt_of_le_of_lt hle (by omega)
  have hlen : as.length < UInt64.size :=
    Nat.lt_of_le_of_lt (Nat.le_mul_of_pos_right as.length hpos) (by omega)
  exact reads_list_of_length (reads_varint hlen) hitems

end

instance {κ ν : Type} [Ord κ] [Std.TransOrd κ] [Std.LawfulEqOrd κ] [Format κ] [Format ν] [Metered κ]
    [Metered ν] : Metered (SortedMap κ ν) where
  toll m := .list (Format.footprint (κ × ν)) (m.entries.map toll)
  footprint_pos := by show 0 < 24; decide
  reads m h := by
    have hl := (reads_list m.entries h).map SortedMap.ofList
    rwa [SortedMap.ofList_entries] at hl

/-! ## Whole byte strings -/

/-- What a byte string decodes to when anything follows it. -/
theorem Reads.decodeWhole_append {α : Type} [Format α] {bs : Bytes} {a : α} {t : Toll}
    (h : Reads Format.decode bs a t) (extra : Bytes) :
    decodeWhole α (bs ++ extra) =
      if t.need ≤ decodeLimit then if extra.isEmpty then .ok a else .error .leftover
      else .error .limitExceeded := by
  unfold decodeWhole Decoder.whole StateT.run
  rw [h]
  by_cases hroom : t.need ≤ decodeLimit
  · rw [if_pos hroom, if_pos hroom]
  · rw [if_neg hroom, if_neg hroom]

section
variable {α : Type} [Format α] [Metered α] {a b : α}

theorem decodeWhole_encode_append (h : need a < UInt64.size) (extra : Bytes) :
    decodeWhole α (encode a ++ extra) =
      if need a ≤ decodeLimit then if extra.isEmpty then .ok a else .error .leftover
      else .error .limitExceeded :=
  (Metered.reads a h).decodeWhole_append extra

theorem decodeWhole_encode_eq (h : need a < UInt64.size) :
    decodeWhole α (encode a) =
      if need a ≤ decodeLimit then .ok a else .error .limitExceeded := by
  have ha := decodeWhole_encode_append h []
  rwa [List.append_nil] at ha

/-- No written value is the beginning of another one. -/
theorem eq_of_isPrefix (ha : need a < UInt64.size) (hb : need b < UInt64.size)
    (h : encode a <+: encode b) : a = b := by
  obtain ⟨extra, hextra⟩ := h
  -- A decoder with room for both reads both off the longer byte string.
  have hra := Metered.reads a ha extra (max (toll a).need (toll b).need)
  have hrb := Metered.reads b hb [] (max (toll a).need (toll b).need)
  rw [if_pos (Nat.le_max_left ..)] at hra
  rw [if_pos (Nat.le_max_right ..), List.append_nil, ← hextra, hra] at hrb
  injection hrb with hpair
  exact congrArg Prod.fst hpair

end

end Quorum.Wire
