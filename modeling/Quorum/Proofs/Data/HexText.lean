import Mathlib.Tactic.SplitIfs
import Quorum.Text.Readable

/-!
# What hexadecimal text spells

* `Hex.digitValue?` : the value of a digit of either case;
* `Hex.halves`, `Hex.Spells` : the values of the digits of a byte string, and that digits spell it;
* `Hex.marks`, `Hex.withoutMarks` : a number of `0x`s, and what follows the leading ones;
* `decode_eq_ok_iff`, `stripMarks_flatMap` : reading the UTF-8 form of a text is reading the text;
* `Octets.parse_eq_ok_iff` : exactly the digits of the bytes, after any number of `0x`s, are read;
* `Octets.reads_marked_digits` : reading and writing together, also in JSON.
-/

namespace Quorum

/-! ## Texts in UTF-8 -/

theorem Bytes.ofString_eq (s : String) : ofString s = s.toList.flatMap String.utf8EncodeChar := by
  show s.toByteArray.data.toList = _
  rw [← String.utf8Encode_toList, List.utf8Encode, List.toList_data_toByteArray]

namespace Hex

theorem utf8EncodeChar_of_lt {c : Char} (h : c.toNat < 128) :
    String.utf8EncodeChar c = [UInt8.ofNat c.toNat] :=
  if_pos (Nat.le_of_lt_succ h)

/-- The form of a character that is not of ASCII has no byte of ASCII at its front. -/
theorem utf8EncodeChar_of_le {c : Char} (h : 128 ≤ c.toNat) :
    ∃ b bs, String.utf8EncodeChar c = b :: bs ∧ 128 ≤ b.toNat := by
  unfold String.utf8EncodeChar
  have hc : c.val.toNat = c.toNat := rfl
  simp only [hc]
  rw [if_neg (by omega)]
  split
  · exact ⟨_, _, rfl, by rw [UInt8.toNat_ofNat']; omega⟩
  split
  · exact ⟨_, _, rfl, by rw [UInt8.toNat_ofNat']; omega⟩
  · exact ⟨_, _, rfl, by rw [UInt8.toNat_ofNat']; omega⟩

/-! ## Digits -/

/-- The value of a digit of either case. -/
def digitValue? (c : Char) : Option Nat :=
  if '0' ≤ c ∧ c ≤ '9' then some (c.toNat - '0'.toNat)
  else if 'a' ≤ c ∧ c ≤ 'f' then some (c.toNat - 'a'.toNat + 10)
  else if 'A' ≤ c ∧ c ≤ 'F' then some (c.toNat - 'A'.toNat + 10)
  else none

/-- A property of the characters of ASCII that each of them has. -/
theorem forall_ascii {P : Char → Prop} (h : ∀ n < 128, P (Char.ofNat n)) {c : Char}
    (hc : c.toNat < 128) : P c := by
  have := h c.toNat hc
  rwa [Char.ofNat_toNat] at this

theorem lt_of_digitValue? {c : Char} {n : Nat} (h : digitValue? c = some n) : c.toNat < 128 := by
  have hle {a b : Char} (hab : a ≤ b) : a.toNat ≤ b.toNat := hab
  unfold digitValue? at h
  split at h
  · next hc => exact Nat.lt_of_le_of_lt (hle hc.2) (by decide)
  split at h
  · next hc => exact Nat.lt_of_le_of_lt (hle hc.2) (by decide)
  split at h
  · next hc => exact Nat.lt_of_le_of_lt (hle hc.2) (by decide)
  · cases h

theorem value?_ofNat {c : Char} (h : c.toNat < 128) :
    value? (UInt8.ofNat c.toNat) = digitValue? c :=
  forall_ascii (P := fun c => value? (UInt8.ofNat c.toNat) = digitValue? c) (by decide) h

theorem lt_of_value? {b : UInt8} {n : Nat} (h : value? b = some n) : b.toNat < 128 ∧ n < 16 := by
  unfold value? at h
  simp only [UInt8.le_iff_toNat_le, UInt8.reduceToNat] at h
  split_ifs at h with hdec hlow hup
  · cases h
    omega
  · cases h
    omega
  · cases h
    omega

theorem digitValue?_digit : ∀ n < 16, digitValue? (digit n) = some n := by decide

/-- The digit that is written for a value is the lowercase form of every digit of that value. -/
theorem digit_of_digitValue? {c : Char} {n : Nat} (h : digitValue? c = some n) :
    digit n = c.toLower := by
  have hall : ∀ m < 128, ∀ n ∈ digitValue? (Char.ofNat m), digit n = (Char.ofNat m).toLower := by
    decide
  exact forall_ascii (P := fun c => ∀ n ∈ digitValue? c, digit n = c.toLower) hall
    (lt_of_digitValue? h) n h

/-! ## What digits spell -/

/-- The values of the digits of a byte string, two a byte. -/
def halves (bs : Bytes) : List Nat := bs.flatMap fun b => [b.toNat / 16, b.toNat % 16]

/-- The digits, of either case, are those of the byte string. -/
def Spells (ds : List Char) (bs : Bytes) : Prop := ds.map digitValue? = (halves bs).map some

instance (ds : List Char) (bs : Bytes) : Decidable (Spells ds bs) :=
  inferInstanceAs (Decidable (_ = _))

theorem halves_cons (b : UInt8) (bs : Bytes) :
    halves (b :: bs) = b.toNat / 16 :: b.toNat % 16 :: halves bs := rfl

theorem length_halves (bs : Bytes) : (halves bs).length = 2 * bs.length := by
  induction bs with
  | nil => rfl
  | cons b bs ih =>
    rw [halves_cons, List.length_cons, List.length_cons, List.length_cons, ih]
    omega

theorem lt_of_mem_halves {bs : Bytes} {n : Nat} (h : n ∈ halves bs) : n < 16 := by
  obtain ⟨b, -, hn⟩ := List.mem_flatMap.1 h
  have hb : b.toNat < 256 := b.toNat_lt
  simp only [List.mem_cons, List.not_mem_nil, or_false] at hn
  omega

theorem encode_eq (bs : Bytes) : encode bs = String.ofList ((halves bs).map digit) := by
  unfold encode halves
  rw [List.map_flatMap]
  rfl

theorem mem_lowercase_of_mem_encode {bs : Bytes} {c : Char} (h : c ∈ (encode bs).toList) :
    c ∈ "0123456789abcdef".toList := by
  rw [encode_eq, String.toList_ofList] at h
  obtain ⟨n, hn, rfl⟩ := List.mem_map.1 h
  have hdigit : ∀ n < 16, digit n ∈ "0123456789abcdef".toList := by decide
  exact hdigit n (lt_of_mem_halves hn)

theorem Spells.length_eq {ds : List Char} {bs : Bytes} (h : Spells ds bs) :
    ds.length = 2 * bs.length := by
  have := congrArg List.length h
  rwa [List.length_map, List.length_map, length_halves] at this

/-- What is written for a byte string spells it. -/
theorem spells_encode (bs : Bytes) : Spells (encode bs).toList bs := by
  rw [encode_eq, String.toList_ofList, Spells, List.map_map]
  exact List.map_congr_left fun n hn => digitValue?_digit n (lt_of_mem_halves hn)

/-- Whatever spells a byte string is, in lowercase, what is written for it. -/
theorem Spells.toLower {ds : List Char} {bs : Bytes} (h : Spells ds bs) :
    encode bs = String.ofList (ds.map Char.toLower) := by
  rw [encode_eq]
  congr 1
  unfold Spells at h
  generalize halves bs = ns at h
  induction ds generalizing ns with
  | nil =>
    cases ns with
    | nil => rfl
    | cons n ns => cases h
  | cons d ds ih =>
    cases ns with
    | nil => cases h
    | cons n ns =>
      obtain ⟨hd, hds⟩ := List.cons.inj h
      rw [List.map_cons, List.map_cons, digit_of_digitValue? hd, ih ns hds]

/-! ## Decoding -/

theorem ofNat_eq_iff {h l : Nat} {b : UInt8} (hh : h < 16) (hl : l < 16) :
    UInt8.ofNat (16 * h + l) = b ↔ h = b.toNat / 16 ∧ l = b.toNat % 16 := by
  have hb : b.toNat < 256 := b.toNat_lt
  rw [← UInt8.toNat_inj, UInt8.toNat_ofNat']
  omega

theorem decodePairs_eq_ok_iff {ds bs : Bytes} (p : Nat) (heven : ds.length % 2 = 0) :
    decodePairs p ds = .ok bs ↔ ds.map value? = (halves bs).map some := by
  fun_induction decodePairs p ds generalizing bs with
  | case1 p hi lo rest hhi =>
    refine iff_of_false nofun fun heq => ?_
    cases bs with
    | nil => cases heq
    | cons b bs => cases hhi.symm.trans (List.cons.inj heq).1
  | case2 p hi lo rest h hlo hhi =>
    refine iff_of_false nofun fun heq => ?_
    cases bs with
    | nil => cases heq
    | cons b bs => cases hlo.symm.trans (List.cons.inj (List.cons.inj heq).2).1
  | case3 p hi lo rest h l hlo hhi ih =>
    have hrest : rest.length % 2 = 0 := by
      rw [List.length_cons, List.length_cons] at heven
      omega
    cases bs with
    | nil =>
      refine iff_of_false (fun h => ?_) nofun
      cases hd : decodePairs (p + 2) rest <;> rw [hd] at h <;> cases h
    | cons b bs =>
      rw [List.map_cons, List.map_cons, hhi, hlo, halves_cons, List.map_cons, List.map_cons,
        List.cons.injEq, List.cons.injEq, Option.some_inj, Option.some_inj, ← and_assoc,
        ← ofNat_eq_iff (lt_of_value? hhi).2 (lt_of_value? hlo).2, ← ih hrest]
      cases decodePairs (p + 2) rest with
      | error e => exact iff_of_false nofun nofun
      | ok bs' =>
        show Except.ok (_ :: bs') = .ok _ ↔ _
        rw [Except.ok.injEq, Except.ok.injEq, List.cons.injEq]
  | case4 ds p hshort =>
    match ds, heven, hshort with
    | [], _, _ =>
      cases bs with
      | nil => exact iff_of_true rfl rfl
      | cons b bs => exact iff_of_false nofun nofun
    | hi :: lo :: rest, _, hshort => exact (hshort hi lo rest rfl).elim

/-- **A byte string is decoded exactly if its bytes are the digits.** -/
theorem decode_eq_ok_iff {ds bs : Bytes} :
    decode ds = .ok bs ↔ ds.map value? = (halves bs).map some := by
  unfold decode
  split_ifs with hodd
  · refine iff_of_false nofun fun h => ?_
    have := congrArg List.length h
    rw [List.length_map, List.length_map, length_halves] at this
    omega
  · exact decodePairs_eq_ok_iff 0 (by omega)

/-- Bytes of UTF-8 are digits exactly if the characters are. -/
theorem map_value?_flatMap {cs : List Char} {ns : List Nat} :
    (cs.flatMap String.utf8EncodeChar).map value? = ns.map some ↔
      cs.map digitValue? = ns.map some := by
  induction cs generalizing ns with
  | nil => exact Iff.rfl
  | cons c cs ih =>
    rw [List.flatMap_cons, List.map_append, List.map_cons]
    rcases Nat.lt_or_ge c.toNat 128 with hc | hc
    · rw [utf8EncodeChar_of_lt hc, List.map_singleton, List.singleton_append, value?_ofNat hc]
      cases ns with
      | nil => exact iff_of_false nofun nofun
      | cons n ns => rw [List.map_cons, List.cons.injEq, List.cons.injEq, ih]
    · obtain ⟨b, bs, hbs, hb⟩ := utf8EncodeChar_of_le hc
      rw [hbs]
      cases ns with
      | nil => exact iff_of_false nofun nofun
      | cons n ns =>
        refine iff_of_false (fun h => ?_) fun h => ?_
        · exact absurd (lt_of_value? (List.cons.inj h).1).1 (Nat.not_lt_of_le hb)
        · exact absurd (lt_of_digitValue? (List.cons.inj h).1) (Nat.not_lt_of_le hc)

/-! ## Marks -/

/-- A number of `0x`s. -/
def marks (k : Nat) : List Char := (List.replicate k ['0', 'x']).flatten

/-- What follows every leading `0x`. -/
def withoutMarks : List Char → List Char
  | '0' :: 'x' :: rest => withoutMarks rest
  | cs => cs

theorem exists_marks (cs : List Char) : ∃ k, cs = marks k ++ withoutMarks cs := by
  fun_induction withoutMarks cs with
  | case1 rest ih =>
    obtain ⟨k, hk⟩ := ih
    exact ⟨k + 1, congrArg (fun cs => '0' :: 'x' :: cs) hk⟩
  | case2 cs => exact ⟨0, rfl⟩

theorem withoutMarks_append (k : Nat) (cs : List Char) :
    withoutMarks (marks k ++ cs) = withoutMarks cs := by
  induction k with
  | zero => rfl
  | succ k ih => exact ih

/-- No digits start with `0x`. -/
theorem Spells.withoutMarks_eq {ds : List Char} {bs : Bytes} (h : Spells ds bs) :
    withoutMarks ds = ds := by
  unfold Hex.withoutMarks
  split
  · match bs, h with
    | b :: bs, h => cases (List.cons.inj (List.cons.inj h).2).1
  · rfl

/-- A byte of ASCII at the front of a text is its first character. -/
theorem eq_cons_of_flatMap {cs : List Char} {b : UInt8} {bs : Bytes} (hb : b.toNat < 128)
    (h : cs.flatMap String.utf8EncodeChar = b :: bs) :
    ∃ cs', cs = Char.ofNat b.toNat :: cs' ∧ cs'.flatMap String.utf8EncodeChar = bs := by
  cases cs with
  | nil => cases h
  | cons c cs =>
    rw [List.flatMap_cons] at h
    rcases Nat.lt_or_ge c.toNat 128 with hc | hc
    · rw [utf8EncodeChar_of_lt hc] at h
      obtain ⟨rfl, rfl⟩ := List.cons.inj h
      rw [UInt8.toNat_ofNat_of_lt' (Nat.lt_trans hc (by decide)), Char.ofNat_toNat]
      exact ⟨cs, rfl, rfl⟩
    · obtain ⟨b', bs', hbs, hb'⟩ := utf8EncodeChar_of_le hc
      rw [hbs] at h
      obtain ⟨rfl, -⟩ := List.cons.inj h
      exact absurd hb (Nat.not_lt_of_le hb')

theorem stripMarks_flatMap (cs : List Char) : stripMarks (cs.flatMap String.utf8EncodeChar) =
    (withoutMarks cs).flatMap String.utf8EncodeChar := by
  fun_induction withoutMarks cs with
  | case1 rest ih => exact ih
  | case2 cs hmark =>
    unfold stripMarks
    split
    · next rest h =>
      obtain ⟨cs', rfl, h'⟩ := eq_cons_of_flatMap (by decide) h
      obtain ⟨rest', rfl, -⟩ := eq_cons_of_flatMap (by decide) h'
      exact (hmark rest' rfl).elim
    · rfl

end Hex

namespace Octets

open Hex

variable {role : OctetRole} {x : Octets role} {s : String}

theorem parse_eq_ok_iff_decode :
    parse role s = .ok x ↔ decode (stripMarks (Bytes.ofString s)) = .ok x.bytes := by
  unfold parse
  split
  · next e h =>
    rw [h]
    exact iff_of_false nofun nofun
  · next bs h =>
    rw [h, Except.ok.injEq]
    constructor
    · intro hx
      cases hbs : ofBytes? role bs with
      | none =>
        rw [hbs] at hx
        cases hx
      | some y =>
        rw [hbs] at hx
        cases hx
        exact (bytes_of_ofBytes? hbs).symm
    · rintro rfl
      rw [ofBytes?_bytes]
      rfl

/-- **The digits of the bytes are read, after any number of `0x`s, and nothing else.** -/
theorem parse_eq_ok_iff : parse role s = .ok x ↔ Spells (withoutMarks s.toList) x.bytes := by
  rw [parse_eq_ok_iff_decode, Bytes.ofString_eq, stripMarks_flatMap, decode_eq_ok_iff,
    map_value?_flatMap]
  exact Iff.rfl

theorem parse_toHex (x : Octets role) : parse role x.toHex = .ok x := by
  have h : Spells x.toHex.toList x.bytes := spells_encode x.bytes
  rw [parse_eq_ok_iff, h.withoutMarks_eq]
  exact h

/-- A value is read from the string of its hexadecimal text. -/
theorem ofJson_eq_ok_iff {j : Json} :
    (Readable.ofJson j : Except ReadError (Octets role)) = .ok x ↔
      ∃ s, j = .string s ∧ parse role s = .ok x := by
  cases j with
  | string s =>
    show (parse role s).mapError _ = _ ↔ _
    simp only [Json.string.injEq, exists_eq_left']
    cases parse role s with
    | error e => exact iff_of_false nofun nofun
    | ok y =>
      show (Except.ok y : Except ReadError _) = .ok x ↔ _
      rw [Except.ok.injEq, Except.ok.injEq]
  | _ => exact iff_of_false nofun nofun

/-- **Hexadecimal text.** What is read as a value is any number of `0x`s and then the digits, of either
case and two a byte, that spell it. It is written with lowercase digits, and read back from them; a
text that was read is written as its own lowercase form without the `0x`s. In JSON values are the
strings that are read as one. -/
theorem reads_marked_digits (role : OctetRole) :
    (∀ s (x : Octets role), parse role s = .ok x ↔
      ∃ k ds, s.toList = marks k ++ ds ∧ ds.length = 2 * role.width ∧ Spells ds x.bytes) ∧
    (∀ x : Octets role, x.toHex.length = 2 * role.width ∧
      (∀ c ∈ x.toHex.toList, c ∈ "0123456789abcdef".toList) ∧
      Spells x.toHex.toList x.bytes ∧ parse role x.toHex = .ok x) ∧
    (∀ s (x : Octets role), parse role s = .ok x →
      x.toHex = String.ofList ((withoutMarks s.toList).map Char.toLower)) ∧
    (∀ x : Octets role, Readable.toJson x = .string x.toHex) ∧
    (∀ j (x : Octets role), (Readable.ofJson j : Except ReadError (Octets role)) = .ok x ↔
      ∃ s, j = .string s ∧ parse role s = .ok x) ∧
    ∀ x : Octets role, Readable.ofJson (Readable.toJson x) = .ok x := by
  refine ⟨fun s x => ?_, fun x => ?_, fun s x h => ?_, fun x => rfl, fun j x => ofJson_eq_ok_iff,
    fun x => ofJson_eq_ok_iff.2 ⟨_, rfl, parse_toHex x⟩⟩
  · rw [parse_eq_ok_iff]
    constructor
    · intro h
      obtain ⟨k, hk⟩ := exists_marks s.toList
      exact ⟨k, _, hk, by rw [h.length_eq, x.length_eq], h⟩
    · rintro ⟨k, ds, hs, -, h⟩
      rwa [hs, withoutMarks_append, h.withoutMarks_eq]
  · have h : Spells x.toHex.toList x.bytes := spells_encode x.bytes
    exact ⟨by rw [← String.length_toList, h.length_eq, x.length_eq],
      fun c => mem_lowercase_of_mem_encode, h, parse_toHex x⟩
  · exact (parse_eq_ok_iff.1 h).toLower

/-- Digits of both cases. -/
def mixedCase : List Char := (List.replicate 32 ['a', 'B']).flatten

/-- A hash is read from such digits after two `0x`s, and written in lowercase without them. -/
theorem reads_marked_digits_of_mixedCase :
    parse .txHash (String.ofList (marks 2 ++ mixedCase)) = .ok (fill 0xab) ∧
      (fill 0xab : TxHash).toHex = String.ofList (mixedCase.map Char.toLower) := by
  obtain ⟨hreads, -, hlower, -, -, -⟩ := reads_marked_digits .txHash
  have hspells : Spells mixedCase (fill 0xab : TxHash).bytes := by decide
  have hparse : parse .txHash (String.ofList (marks 2 ++ mixedCase)) = .ok (fill 0xab) :=
    (hreads _ _).2 ⟨2, mixedCase, String.toList_ofList, rfl, hspells⟩
  refine ⟨hparse, ?_⟩
  rw [hlower _ _ hparse, String.toList_ofList, withoutMarks_append, hspells.withoutMarks_eq]

end Octets

end Quorum
