import Quorum.Proofs.Wire.Agreed

/-!
# The byte strings that decode to a payload

A number is written in the narrowest width, but read at every width up to that of its type. So a
payload is written in one way only, and yet read from several byte strings.

* `Varint.spellings width n` : what is read as `n`;
* `Canonical α` : what is read as a value of `α` is what is written for it, as for everything that
  holds no number of variable length;
* `Payload.spellings p` : the wider forms of the number of the kind, and of the round of a beacon;
* `decodes_iff_spelled` : exactly these decode to the payload, and what is written is the shortest
  of them, but never the only one;
* `decoding_not_injective` : two byte strings that decode to one payload.
-/

namespace Quorum

namespace Wire

/-! ## Numbers -/

namespace Varint

/-- The markers, with the number of bytes that follow each. -/
def markers : List (UInt8 × Nat) := [(251, 2), (252, 4), (253, 8)]

/-- What is read as a number of a type of `width` bytes. -/
def spellings (width n : Nat) : List Bytes :=
  (if n < 251 then [[UInt8.ofNat n]] else []) ++
    (markers.filter fun m => m.2 ≤ width ∧ n < Bytes.capacity m.2).map fun m =>
      m.1 :: Bytes.ofNatBE m.2 n

theorem mem_spellings {width n : Nat} {s : Bytes} :
    s ∈ spellings width n ↔ (n < 251 ∧ s = [UInt8.ofNat n]) ∨
      ∃ m ∈ markers, m.2 ≤ width ∧ n < Bytes.capacity m.2 ∧ s = m.1 :: Bytes.ofNatBE m.2 n := by
  unfold spellings
  rw [List.mem_append, List.mem_map]
  refine or_congr ?_ ?_
  · split_ifs with h
    · simp [h]
    · simp [h]
  · simp only [List.mem_filter, decide_eq_true_eq, and_assoc]
    exact exists_congr fun m => by rw [eq_comm (b := s)]

theorem markedWidth?_eq_some_iff {marker : UInt8} {w : Nat} :
    markedWidth? marker = some w ↔ (marker, w) ∈ markers := by
  unfold markedWidth? markers
  split_ifs with h₁ h₂ h₃
  · simp [h₁, eq_comm]
  · simp [h₂, eq_comm]
  · simp [h₃, eq_comm]
  · simp [h₁, h₂, h₃]

/-- Everything that has a spelling is a number of at most eight bytes. -/
theorem lt_size_of_mem_spellings {width n : Nat} {s : Bytes} (h : s ∈ spellings width n) :
    n < UInt64.size := by
  obtain ⟨hn, -⟩ | ⟨m, hm, -, hn, -⟩ := mem_spellings.1 h
  · exact Nat.lt_trans hn (by decide)
  · have hcap : ∀ m ∈ markers, Bytes.capacity m.2 ≤ UInt64.size := by decide
    exact Nat.lt_of_lt_of_le hn (hcap m hm)

theorem encode_mem_spellings {n : Nat} (h : n < UInt64.size) : encode n ∈ spellings 8 n := by
  rw [mem_spellings]
  unfold encode
  split_ifs with h₁ h₂ h₃
  · exact .inl ⟨h₁, rfl⟩
  · exact .inr ⟨(251, 2), by decide, by decide, h₂, rfl⟩
  · exact .inr ⟨(252, 4), by decide, by decide, h₃, rfl⟩
  · exact .inr ⟨(253, 8), by decide, by decide, h, rfl⟩

/-- What is written is shorter than every other spelling. -/
theorem eq_encode_or_longer {width n : Nat} {s : Bytes} (h : s ∈ spellings width n) :
    s = encode n ∨ (encode n).length < s.length := by
  have h16 : Bytes.capacity 2 = UInt16.size := rfl
  have h32 : Bytes.capacity 4 = UInt32.size := rfl
  obtain ⟨hn, rfl⟩ | ⟨m, hm, -, hn, rfl⟩ := mem_spellings.1 h
  · left
    unfold encode
    rw [if_pos hn]
  · unfold encode
    unfold markers at hm
    simp only [List.mem_cons, List.not_mem_nil, or_false] at hm
    obtain rfl | rfl | rfl := hm
    · split_ifs with h₁ h₂
      · right; simp
      · left; rfl
      · exact absurd hn h₂
      · exact absurd hn h₂
    · split_ifs with h₁ h₂ h₃
      · right; simp
      · right; simp
      · left; rfl
      · exact absurd hn h₃
    · split_ifs
      · right; simp
      · right; simp
      · right; simp
      · left; rfl

/-- Every spelling is read as the number, in the same room. -/
theorem reads_of_mem_spellings {width n : Nat} {s : Bytes} (h : s ∈ spellings width n) :
    Reads (decode width) s n (.fixed width) := by
  obtain ⟨hn, rfl⟩ | ⟨⟨marker, w⟩, hm, hle, hn, rfl⟩ := mem_spellings.1 h
  · exact .of_claim (readsBack_small width hn)
  · have hlarge : ∀ m ∈ markers, ¬ m.1 < 251 := by decide
    exact .of_claim (readsBack_marked (hlarge _ hm) (markedWidth?_eq_some_iff.2 hm) hle hn)

end Varint

/-! ## What a decoder has read -/

namespace Decoder

variable {α β : Type} {d : Decoder α} {f : α → Decoder β} {c c' : Cursor} {a : α} {b : β} {n : Nat}

theorem of_bind_eq_ok (h : (d >>= f) c = .ok (b, c')) :
    ∃ a c₁, d c = .ok (a, c₁) ∧ f a c₁ = .ok (b, c') := by
  change (d c >>= fun p => f p.1 p.2) = _ at h
  cases hd : d c with
  | error e =>
    rw [hd] at h
    cases h
  | ok p =>
    rw [hd] at h
    exact ⟨p.1, p.2, rfl, h⟩

theorem of_map_eq_ok {g : α → β} (h : (g <$> d) c = .ok (b, c')) :
    ∃ a, d c = .ok (a, c') ∧ g a = b := by
  obtain ⟨a, c₁, hd, h⟩ := of_bind_eq_ok (f := fun a => Pure.pure (g a)) h
  cases h
  exact ⟨a, hd, rfl⟩

/-- Accounting reads nothing. -/
theorem of_claim_eq_ok {u : Unit} (h : claim n c = .ok (u, c')) : c'.rest = c.rest := by
  unfold claim at h
  split_ifs at h
  cases h
  rfl

theorem of_byte_eq_ok {x : UInt8} (h : byte c = .ok (x, c')) : c.rest = [x] ++ c'.rest := by
  unfold byte at h
  split at h
  · cases h
  · cases h
    assumption

theorem of_take_eq_ok {bs : Bytes} (h : take n c = .ok (bs, c')) :
    c.rest = bs ++ c'.rest ∧ bs.length = n := by
  unfold take at h
  split_ifs at h with hn
  cases h
  exact ⟨(List.take_append_drop n c.rest).symm, List.length_take_of_le hn⟩

end Decoder

theorem of_decodeWhole_eq_ok {α : Type} [Format α] {bs : Bytes} {a : α}
    (h : decodeWhole α bs = .ok a) :
    ∃ room, Format.decode ⟨bs, decodeLimit⟩ = .ok (a, ⟨[], room⟩) := by
  unfold decodeWhole Decoder.whole StateT.run at h
  cases hd : (Format.decode : Decoder α) ⟨bs, decodeLimit⟩ with
  | error e =>
    rw [hd] at h
    cases h
  | ok p =>
    obtain ⟨b, rest, room⟩ := p
    rw [hd] at h
    dsimp only at h
    split_ifs at h with hrest
    cases h
    obtain rfl := List.isEmpty_iff.1 hrest
    exact ⟨room, rfl⟩

open Decoder

/-- Only spellings are read as a number. -/
theorem Varint.spelled_of_decode {width n : Nat} {c c' : Cursor}
    (h : Varint.decode width c = .ok (n, c')) :
    ∃ s ∈ Varint.spellings width n, c.rest = s ++ c'.rest := by
  obtain ⟨_, c₁, hclaim, h⟩ := of_bind_eq_ok h
  obtain ⟨marker, c₂, hbyte, h⟩ := of_bind_eq_ok h
  rw [← of_claim_eq_ok hclaim, of_byte_eq_ok hbyte]
  split_ifs at h with hm
  · cases h
    refine ⟨[marker], mem_spellings.2 (.inl ⟨hm, ?_⟩), rfl⟩
    rw [UInt8.ofNat_toNat]
  · cases hw : markedWidth? marker with
    | none =>
      rw [hw] at h
      cases h
    | some w =>
      rw [hw] at h
      dsimp only at h
      split_ifs at h with hle
      · obtain ⟨bs, c₃, htake, h⟩ := of_bind_eq_ok h
        cases h
        obtain ⟨hrest, hlen⟩ := of_take_eq_ok htake
        refine ⟨marker :: bs, mem_spellings.2 (.inr ⟨(marker, w), ?_, hle, ?_, ?_⟩), ?_⟩
        · exact markedWidth?_eq_some_iff.1 hw
        · rw [← hlen]
          exact Bytes.toNatBE_lt bs
        · rw [← hlen, Bytes.ofNatBE_toNatBE]
        · rw [hrest]
          rfl
      · cases h

/-! ## Values that are spelled in one way -/

/-- What is read as a value is what is written for it. -/
class Canonical (α : Type) [Format α] : Prop where
  rest_eq {c c' : Cursor} {a : α} (h : Format.decode c = .ok (a, c')) : c.rest = encode a ++ c'.rest

instance : Canonical Bool where
  rest_eq h := by
    obtain ⟨_, c₁, hclaim, h⟩ := of_bind_eq_ok h
    obtain ⟨x, c₂, hbyte, h⟩ := of_bind_eq_ok h
    rw [← of_claim_eq_ok hclaim, of_byte_eq_ok hbyte]
    split_ifs at h with h₀ h₁
    · cases h
      rw [h₀]
      rfl
    · cases h
      rw [h₁]
      rfl
    · cases h

instance {role : OctetRole} : Canonical (Octets role) where
  rest_eq h := by
    obtain ⟨_, c₁, hclaim, h⟩ := of_bind_eq_ok h
    obtain ⟨bs, c₂, htake, h⟩ := of_bind_eq_ok h
    rw [← of_claim_eq_ok hclaim, (of_take_eq_ok htake).1]
    cases ho : Octets.ofBytes? role bs with
    | none =>
      rw [ho] at h
      cases h
    | some o =>
      rw [ho] at h
      cases h
      rw [← Octets.bytes_of_ofBytes? ho]
      rfl

instance {role : CounterRole} : Canonical (Counter role) where
  rest_eq h := by
    obtain ⟨_, c₁, hclaim, h⟩ := of_bind_eq_ok h
    obtain ⟨bs, c₂, htake, h⟩ := of_bind_eq_ok h
    cases h
    obtain ⟨hrest, hlen⟩ := of_take_eq_ok htake
    have hlt : Bytes.toNatBE bs < UInt64.size := by
      have := Bytes.toNatBE_lt bs
      rwa [hlen] at this
    rw [← of_claim_eq_ok hclaim, hrest]
    show bs ++ _ = Bytes.ofNatBE 8 (Counter.ofNat (Bytes.toNatBE bs) : Counter role).toNat ++ _
    rw [Counter.toNat_ofNat hlt, ← hlen, Bytes.ofNatBE_toNatBE]

instance {α : Type} [Format α] [Canonical α] : Canonical (Option α) where
  rest_eq h := by
    obtain ⟨_, c₁, hclaim, h⟩ := of_bind_eq_ok h
    obtain ⟨x, c₂, hbyte, h⟩ := of_bind_eq_ok h
    rw [← of_claim_eq_ok hclaim, of_byte_eq_ok hbyte]
    split_ifs at h with h₀ h₁
    · cases h
      rw [h₀]
      rfl
    · obtain ⟨a, ha, rfl⟩ := of_map_eq_ok h
      rw [h₁, Canonical.rest_eq ha]
      rfl
    · cases h

end Wire

open Wire Wire.Decoder

/-! ## Votes -/

theorem VoteKind.number_of_getElem? {n : Nat} {k : VoteKind} (h : VoteKind.all[n]? = some k) :
    n = k.number := by
  obtain ⟨hn, rfl⟩ := List.getElem?_eq_some_iff.1 h
  have hall : ∀ i : Fin VoteKind.all.length, i.val = (VoteKind.all.get i).number := by decide
  exact hall ⟨n, hn⟩

theorem VoteKind.spelled_of_decode {k : VoteKind} {c c' : Cursor}
    (h : Format.decode c = .ok (k, c')) :
    ∃ s ∈ Varint.spellings 4 k.number, c.rest = s ++ c'.rest := by
  obtain ⟨n, c₁, hn, h⟩ := of_bind_eq_ok h
  cases hk : VoteKind.all[n]? with
  | none =>
    rw [hk] at h
    cases h
  | some k' =>
    rw [hk] at h
    cases h
    rw [← VoteKind.number_of_getElem? hk]
    exact Varint.spelled_of_decode hn

namespace Vote

/-- What is read as what a vote holds beside its kind. -/
def contentSpellings : Vote → List Bytes
  | randomness round value => (Varint.spellings 8 round.toNat).map (· ++ encode value)
  | v => [v.encodeContent]

/-- What is read as a vote. -/
def spellings (v : Vote) : List Bytes :=
  (Varint.spellings 4 v.kind.number).flatMap fun tag => v.contentSpellings.map (tag ++ ·)

theorem mem_spellings {v : Vote} {s : Bytes} : s ∈ v.spellings ↔
    ∃ tag ∈ Varint.spellings 4 v.kind.number, ∃ t ∈ v.contentSpellings, tag ++ t = s := by
  unfold spellings
  simp only [List.mem_flatMap, List.mem_map]

/-- A vote that holds one value, which is spelled in one way. -/
theorem spelled_of_map {α : Type} [Format α] [Canonical α] {mk : α → Vote} {v : Vote}
    {c c' : Cursor} {k : VoteKind} (hmk : ∀ a, (mk a).kind = k ∧ (mk a).contentSpellings = [encode a])
    (h : (mk <$> (Format.decode : Decoder α)) c = .ok (v, c')) :
    v.kind = k ∧ ∃ s ∈ v.contentSpellings, c.rest = s ++ c'.rest := by
  obtain ⟨a, ha, rfl⟩ := of_map_eq_ok h
  obtain ⟨hk, hs⟩ := hmk a
  rw [hs]
  exact ⟨hk, encode a, List.mem_singleton_self _, Canonical.rest_eq ha⟩

theorem spelled_of_decodeContent {k : VoteKind} {v : Vote} {c c' : Cursor}
    (h : decodeContent k c = .ok (v, c')) :
    v.kind = k ∧ ∃ s ∈ v.contentSpellings, c.rest = s ++ c'.rest := by
  cases k with
  | registration =>
    cases h
    exact ⟨rfl, [], List.mem_singleton_self _, rfl⟩
  | randomness =>
    obtain ⟨round, c₁, hround, h⟩ := of_bind_eq_ok h
    obtain ⟨value, c₂, hvalue, h⟩ := of_bind_eq_ok h
    cases h
    obtain ⟨n, hn, rfl⟩ := of_map_eq_ok hround
    obtain ⟨s, hs, hrest⟩ := Varint.spelled_of_decode hn
    have hlt := Varint.lt_size_of_mem_spellings hs
    refine ⟨rfl, s ++ encode value, List.mem_map_of_mem ?_, ?_⟩
    · rwa [UInt64.toNat_ofNat', Nat.mod_eq_of_lt hlt]
    · rw [hrest, Canonical.rest_eq hvalue, List.append_assoc]
  | selectKeeper => exact spelled_of_map (fun _ => ⟨rfl, rfl⟩) h
  | signature => exact spelled_of_map (fun _ => ⟨rfl, rfl⟩) h
  | finalization => exact spelled_of_map (fun _ => ⟨rfl, rfl⟩) h
  | validate => exact spelled_of_map (fun _ => ⟨rfl, rfl⟩) h
  | termination => exact spelled_of_map (fun _ => ⟨rfl, rfl⟩) h

/-- Only spellings are read as a vote. -/
theorem spelled_of_decode {v : Vote} {c c' : Cursor} (h : Format.decode c = .ok (v, c')) :
    ∃ s ∈ v.spellings, c.rest = s ++ c'.rest := by
  obtain ⟨k, c₁, hk, h⟩ := of_bind_eq_ok h
  obtain ⟨tag, htag, hrest⟩ := VoteKind.spelled_of_decode hk
  obtain ⟨rfl, t, ht, hrest'⟩ := spelled_of_decodeContent h
  refine ⟨tag ++ t, mem_spellings.2 ⟨tag, htag, t, ht, rfl⟩, ?_⟩
  rw [hrest, hrest', List.append_assoc]

/-- Every spelling of what a vote holds is read, in the same room. -/
theorem reads_of_mem_contentSpellings {v : Vote} {s : Bytes} (h : s ∈ v.contentSpellings) :
    Reads (decodeContent v.kind) s v v.contentToll := by
  cases v with
  | randomness round value =>
    obtain ⟨t, ht, rfl⟩ := List.mem_map.1 h
    have hround := (Varint.reads_of_mem_spellings ht).map UInt64.ofNat
    rw [UInt64.ofNat_toNat] at hround
    have hvalue := Metered.reads value (show 32 < UInt64.size by decide)
    exact hround.bind (hvalue.bind_pure rfl)
  | _ =>
    obtain rfl := List.mem_singleton.1 h
    exact reads_content _

theorem reads_of_mem_spellings {v : Vote} {s : Bytes} (h : s ∈ v.spellings) :
    Reads Format.decode s v (toll v) := by
  obtain ⟨tag, htag, t, ht, rfl⟩ := mem_spellings.1 h
  have hkind : Reads Format.decode tag v.kind (toll v.kind) := by
    refine (Varint.reads_of_mem_spellings htag).bind_pure ?_
    cases v <;> rfl
  exact hkind.bind (reads_of_mem_contentSpellings ht)

theorem encodeContent_mem (v : Vote) : v.encodeContent ∈ v.contentSpellings := by
  cases v with
  | randomness round value =>
    exact List.mem_map_of_mem (Varint.encode_mem_spellings round.toNat_lt)
  | _ => exact List.mem_singleton_self _

theorem eq_encodeContent_or_longer {v : Vote} {s : Bytes} (h : s ∈ v.contentSpellings) :
    s = v.encodeContent ∨ v.encodeContent.length < s.length := by
  cases v with
  | randomness round value =>
    obtain ⟨t, ht, rfl⟩ := List.mem_map.1 h
    obtain rfl | hlt := Varint.eq_encode_or_longer ht
    · exact .inl rfl
    · right
      rw [List.length_append]
      show (Varint.encode round.toNat ++ encode value).length < _
      rw [List.length_append]
      exact Nat.add_lt_add_right hlt _
  | _ => exact .inl (List.mem_singleton.1 h)

theorem eq_encode_or_longer {v : Vote} {s : Bytes} (h : s ∈ v.spellings) :
    s = encode v ∨ (encode v).length < s.length := by
  obtain ⟨tag, htag, t, ht, rfl⟩ := mem_spellings.1 h
  have htag := Varint.eq_encode_or_longer htag
  have ht := eq_encodeContent_or_longer ht
  show _ = Varint.encode v.kind.number ++ v.encodeContent ∨
    (Varint.encode v.kind.number ++ v.encodeContent).length < _
  rw [List.length_append, List.length_append]
  obtain rfl | htag := htag
  · obtain rfl | ht := ht
    · exact .inl rfl
    · exact .inr (by omega)
  · obtain rfl | ht := ht
    · exact .inr (by omega)
    · exact .inr (by omega)

/-- The number of the kind can always be spelled wider than it is written. -/
theorem exists_wider (v : Vote) : ∃ s ∈ v.spellings, s ≠ encode v := by
  have htag : 251 :: Bytes.ofNatBE 2 v.kind.number ∈ Varint.spellings 4 v.kind.number := by
    have hlt : v.kind.number < Bytes.capacity 2 := Nat.lt_trans v.kind.number_lt (by decide)
    exact Varint.mem_spellings.2 (.inr ⟨(251, 2), by decide, by decide, hlt, rfl⟩)
  refine ⟨_, mem_spellings.2 ⟨_, htag, _, v.encodeContent_mem, rfl⟩, fun h => ?_⟩
  have hhead := congrArg List.head? h
  cases v <;> cases hhead

end Vote

/-! ## Payloads -/

namespace Payload

/-- What is read as a payload. -/
def spellings (p : Payload) : List Bytes :=
  p.vote.spellings.map fun s => encode p.sender ++ encode p.roundCount ++ s

/-- Only spellings are read as a payload. -/
theorem spelled_of_decode {p : Payload} {c c' : Cursor} (h : Format.decode c = .ok (p, c')) :
    ∃ s ∈ p.spellings, c.rest = s ++ c'.rest := by
  obtain ⟨sender, c₁, hsender, h⟩ := of_bind_eq_ok h
  obtain ⟨roundCount, c₂, hround, h⟩ := of_bind_eq_ok h
  obtain ⟨vote, c₃, hvote, h⟩ := of_bind_eq_ok h
  cases h
  obtain ⟨s, hs, hrest⟩ := Vote.spelled_of_decode hvote
  refine ⟨_, List.mem_map_of_mem hs, ?_⟩
  rw [Canonical.rest_eq hsender, Canonical.rest_eq hround, hrest]
  simp only [List.append_assoc]

theorem reads_of_mem_spellings {p : Payload} {s : Bytes} (h : s ∈ p.spellings) :
    Reads Format.decode s p (toll p) := by
  obtain ⟨t, ht, rfl⟩ := List.mem_map.1 h
  refine .assoc ?_
  refine .bind (Metered.reads p.sender (show 32 < UInt64.size by decide)) ?_
  refine .bind (Metered.reads p.roundCount (show 8 < UInt64.size by decide)) ?_
  exact .bind_pure (Vote.reads_of_mem_spellings ht) rfl

theorem eq_encode_or_longer {p : Payload} {s : Bytes} (h : s ∈ p.spellings) :
    s = encode p ∨ (encode p).length < s.length := by
  obtain ⟨t, ht, rfl⟩ := List.mem_map.1 h
  obtain rfl | hlt := Vote.eq_encode_or_longer ht
  · exact .inl rfl
  · right
    show (encode p.sender ++ encode p.roundCount ++ encode p.vote).length < _
    simp only [List.length_append]
    exact Nat.add_lt_add_left hlt _

theorem exists_wider (p : Payload) : ∃ s ∈ p.spellings, s ≠ encode p := by
  obtain ⟨t, ht, hne⟩ := p.vote.exists_wider
  exact ⟨_, List.mem_map_of_mem ht, fun h => hne (List.append_cancel_left h)⟩

end Payload

/-- A payload is decoded from its spellings and from nothing else. What is written is the shortest
of them, but never the only one. -/
theorem decodes_iff_spelled (p : Payload) :
    (∀ bs, decodeWhole Payload bs = .ok p ↔ bs ∈ p.spellings) ∧
    (∀ bs ∈ p.spellings, bs = encode p ∨ (encode p).length < bs.length) ∧
    ∃ bs ∈ p.spellings, bs ≠ encode p := by
  refine ⟨fun bs => ⟨fun h => ?_, fun h => ?_⟩, fun bs => Payload.eq_encode_or_longer,
    p.exists_wider⟩
  · obtain ⟨room, hd⟩ := of_decodeWhole_eq_ok h
    obtain ⟨s, hs, hbs⟩ := Payload.spelled_of_decode hd
    rw [List.append_nil] at hbs
    change bs = s at hbs
    rwa [hbs]
  · have hp := (Payload.reads_of_mem_spellings h).decodeWhole_append []
    have hroom : (toll p).need ≤ decodeLimit := Nat.le_trans (need_payload_le p) (by decide)
    rw [List.append_nil, if_pos hroom] at hp
    exact hp

/-- A peer is ready to start. -/
def registering : Payload := ⟨Octets.fill 1, Counter.ofNat 7, .registration⟩

/-- The sender and the number of rounds of `registering`, then `tag`. -/
def registeringAs (tag : Bytes) : Bytes := List.replicate 32 1 ++ [0, 0, 0, 0, 0, 0, 0, 7] ++ tag

theorem decodes_iff_spelled_of_registering :
    (∀ bs, decodeWhole Payload bs = .ok registering ↔
      bs ∈ [[0], [251, 0, 0], [252, 0, 0, 0, 0]].map registeringAs) ∧
    encode registering = registeringAs [0] := by
  obtain ⟨hiff, hshort, -⟩ := decodes_iff_spelled registering
  have hs : registering.spellings = [[0], [251, 0, 0], [252, 0, 0, 0, 0]].map registeringAs := rfl
  rw [hs] at hiff hshort
  refine ⟨hiff, ?_⟩
  obtain h | h := hshort (registeringAs [0]) (by decide)
  · exact h.symm
  · exact absurd h (by decide)

/-- Different byte strings decode into one payload, and one of them is not what is written for
it. -/
theorem decoding_not_injective :
    ¬ (∀ (x y : Bytes) (p q : Payload), x ≠ y → decodeWhole Payload x = .ok p →
        decodeWhole Payload y = .ok q → p ≠ q) ∧
    ¬ ∀ (x : Bytes) (p : Payload), decodeWhole Payload x = .ok p → encode p = x := by
  have hnarrow : decodeWhole Payload (registeringAs [0]) = .ok registering := rfl
  have hwide : decodeWhole Payload (registeringAs [251, 0, 0]) = .ok registering := rfl
  have hne : registeringAs [0] ≠ registeringAs [251, 0, 0] := by decide
  refine ⟨fun h => h _ _ _ _ hne hnarrow hwide rfl, fun h => hne ?_⟩
  rw [← h _ _ hnarrow, h _ _ hwide]

end Quorum
