import Quorum.Application.Basic
import Quorum.Behaviour.Keeper
import Quorum.Proofs.Wire.Metering

/-!
# What peers agree on is unambiguous

Peers hash, sign and store byte strings, but mean the values that these stand for.

* the values that peers agree on are `Wire.Metered`;
* `need_payload_le`, `need_submission`, `need_block_le`, `need_snapshot_le`, `need_checkpoint_le` :
  the room that they need, by the lengths in them;
* `Wire.Faithful α` : within the limit of the decoder, a written value of `α` is read back, it is
  refused with anything after it, and it is not the beginning of another one;
* `Blake3.Collision`, `collision_of_signHash_eq` : a common hash of two byte strings, and where
  equal hashes to sign come from;
* `agreed_values_unambiguous` : this holds of all that peers agree on.
-/

namespace Quorum

open Wire

/-! ## Votes and payloads -/

theorem VoteKind.number_lt (k : VoteKind) : k.number < 251 := by
  cases k <;> decide

instance : Metered VoteKind where
  toll _ := .fixed 4
  footprint_pos := Nat.zero_lt_one
  reads k _ := by
    refine (reads_variant k.number_lt).bind_pure ?_
    cases k <;> rfl

/-- The room of what a vote holds beside its kind. -/
def Vote.contentToll : Vote → Toll
  | registration => .fixed 0
  | randomness round value => (toll round).then (toll value)
  | selectKeeper keeper => toll keeper
  | signature sig => toll sig
  | finalization tx => toll tx
  | validate ok => toll ok
  | termination tx => toll tx

/-- What a vote holds takes little room, whatever it is. -/
theorem Vote.need_content_le (v : Vote) : v.contentToll.need ≤ 64 := by
  cases v with
  | finalization tx =>
    cases tx with
    | none => exact Nat.le_of_ble_eq_true rfl
    | some tx => exact Nat.le_of_ble_eq_true rfl
  | validate ok =>
    cases ok with
    | none => exact Nat.le_of_ble_eq_true rfl
    | some ok => exact Nat.le_of_ble_eq_true rfl
  | _ => exact Nat.le_of_ble_eq_true rfl

theorem Vote.reads_content (v : Vote) :
    Reads (Vote.decodeContent v.kind) v.encodeContent v v.contentToll := by
  have h : v.contentToll.need < UInt64.size := Nat.lt_of_le_of_lt v.need_content_le (by decide)
  cases v with
  | registration => exact fun _ _ => rfl
  | randomness round value =>
    rw [Vote.contentToll, Toll.need_then] at h
    exact (Metered.reads round (by omega)).bind ((Metered.reads value (by omega)).bind_pure rfl)
  | selectKeeper keeper => exact (Metered.reads keeper h).map Vote.selectKeeper
  | signature sig => exact (Metered.reads sig h).map Vote.signature
  | finalization tx => exact (Metered.reads tx h).map Vote.finalization
  | validate ok => exact (Metered.reads ok h).map Vote.validate
  | termination tx => exact (Metered.reads tx h).map Vote.termination

instance : Metered Vote where
  toll v := (toll v.kind).then v.contentToll
  footprint_pos := by decide
  reads v h := by
    rw [Toll.need_then] at h
    exact (Metered.reads v.kind (by omega)).bind v.reads_content

theorem Vote.need_le (v : Vote) : need v ≤ 68 := by
  have h := v.need_content_le
  show max 4 (4 + v.contentToll.need) ≤ 68
  omega

instance : Metered Payload where
  toll p := (toll p.sender).then ((toll p.roundCount).then (toll p.vote))
  footprint_pos := by decide
  reads p h := by
    simp only [Toll.need_then] at h
    refine .assoc ?_
    refine .bind (Metered.reads p.sender (by omega)) ?_
    refine .bind (Metered.reads p.roundCount (by omega)) ?_
    exact .bind_pure (Metered.reads p.vote (by omega)) rfl

/-- A payload takes little room, whatever it is. -/
theorem need_payload_le (p : Payload) : need p ≤ 108 := by
  have h : (toll p.vote).need ≤ 68 := p.vote.need_le
  show max 32 (32 + max 8 (8 + (toll p.vote).need)) ≤ 108
  omega

/-! ## Submissions and blocks -/

instance : Metered Submission where
  toll s := (toll s.payload).then (toll s.sig)
  footprint_pos := by decide
  reads s h := by
    rw [Toll.need_then] at h
    have hp : Reads decodeBytes (encodeBytes s.payload) s.payload (toll s.payload) :=
      Metered.reads s.payload (by omega)
    exact hp.bind (.bind_pure (Metered.reads s.sig (by omega)) rfl)

theorem need_submission (s : Submission) : need s = 72 + s.payload.length := by
  show max (8 + s.payload.length) (8 + s.payload.length + 64) = 72 + s.payload.length
  omega

instance : Metered Block where
  toll b := (toll b.height).then ((toll b.prevHash).then (.list 80 (b.submissions.map toll)))
  footprint_pos := by decide
  reads b h := by
    simp only [Toll.need_then] at h
    refine .assoc ?_
    refine .bind (Metered.reads b.height (by omega)) ?_
    refine .bind (Metered.reads b.prevHash (by omega)) ?_
    exact .bind_pure (reads_list b.submissions (by show (Toll.list 80 _).need < _; omega)) rfl

theorem need_block_le (b : Block) :
    need b ≤ 48 + (b.submissions.map fun s => max 80 (72 + s.payload.length)).sum := by
  have h := Toll.need_list_le 80 (b.submissions.map toll)
  have hs : ∀ s : Submission, (toll s).need = 72 + s.payload.length := need_submission
  simp only [List.map_map, Function.comp_def, hs] at h
  show max 8 (8 + max 32 (32 + (Toll.list 80 (b.submissions.map toll)).need)) ≤ _
  omega

/-! ## Snapshots and checkpoints -/

instance : Metered Snapshot where
  toll s := (toll s.version).then (toll s.db)
  footprint_pos := by decide
  reads s h := by
    rw [Toll.need_then] at h
    exact .bind (Metered.reads s.version (by omega))
      (.bind_pure (Metered.reads s.db (by omega)) rfl)

theorem need_snapshot_le (s : Snapshot) :
    need s ≤ 16 + (s.db.entries.map fun e =>
      max 40 (16 + (Bytes.ofString e.1).length + e.2.length)).sum := by
  have h := Toll.need_list_le 40 (s.db.entries.map toll)
  have hs : ∀ e : String × Bytes,
      (toll e).need = 16 + (Bytes.ofString e.1).length + e.2.length := by
    intro e
    show max (8 + (Bytes.ofString e.1).length)
      (8 + (Bytes.ofString e.1).length + (8 + e.2.length)) = _
    omega
  simp only [List.map_map, Function.comp_def, hs] at h
  show max 8 (8 + (Toll.list 40 (s.db.entries.map toll)).need) ≤ _
  omega

instance : Metered RoundKind where
  toll _ := .fixed 4
  footprint_pos := Nat.zero_lt_one
  reads k _ := by
    refine (reads_variant ?_).bind_pure ?_
    · cases k <;> decide
    · cases k <;> rfl

instance : Metered Checkpoint where
  toll c := (toll c.data).then ((toll c.round).then ((toll c.previous).then
    ((toll c.roundCount).then (toll c.height))))
  footprint_pos := by decide
  reads c h := by
    simp only [Toll.need_then] at h
    refine .assoc (.assoc (.assoc ?_))
    refine .bind (Metered.reads c.data (by omega)) ?_
    refine .bind (Metered.reads c.round (by omega)) ?_
    refine .bind (Metered.reads c.previous (by omega)) ?_
    refine .bind (Metered.reads c.roundCount (by omega)) ?_
    exact .bind_pure (Metered.reads c.height (by omega)) rfl

theorem need_checkpoint_le (c : Checkpoint) : need c ≤ need c.data + 25 := by
  have hcost := (toll c.data).cost_le
  have hp : (toll c.previous).need ≤ 5 ∧ (toll c.previous).cost ≤ 5 := by
    cases c.previous with
    | none => exact ⟨by decide, by decide⟩
    | some k => exact ⟨Nat.le_of_ble_eq_true rfl, Nat.le_of_ble_eq_true rfl⟩
  show max (toll c.data).need ((toll c.data).cost + max 4 (4 + max (toll c.previous).need
    ((toll c.previous).cost + max 8 (8 + 8)))) ≤ (toll c.data).need + 25
  omega

/-! ## The transaction to sign -/

instance : Metered SafeTx where
  toll t := (toll t.periodCount).then ((toll t.keeper).then (toll t.randomness))
  footprint_pos := by decide
  reads t h := by
    simp only [Toll.need_then] at h
    refine .assoc ?_
    refine .bind (Metered.reads t.periodCount (by omega)) ?_
    refine .bind (Metered.reads t.keeper (by omega)) ?_
    exact .bind_pure (Metered.reads t.randomness (by omega)) rfl

/-! ## Faithful formats -/

namespace Wire

/-- The lengths in a value stay within the limit of the decoder. -/
def WithinLimit {α : Type} [Format α] [Metered α] (a : α) : Prop := need a ≤ decodeLimit

/-- The byte strings of a type stand for its values without ambiguity. -/
structure Faithful (α : Type) [Format α] [Metered α] : Prop where
  reads_back (a : α) : WithinLimit a → decodeWhole α (encode a) = .ok a
  /-- The limit is the only reason not to read a value back. -/
  refuses_large (a : α) : ¬ WithinLimit a → need a < UInt64.size →
    decodeWhole α (encode a) = .error .limitExceeded
  refuses_more (a : α) (extra : Bytes) : WithinLimit a → extra ≠ [] →
    decodeWhole α (encode a ++ extra) = .error .leftover
  /-- Different values are told apart even without the limit, and whatever stands behind them. -/
  tells_apart (a b : α) : need a < UInt64.size → need b < UInt64.size → a ≠ b →
    encode a ≠ encode b ∧ ¬ encode a <+: encode b ∧ ¬ encode b <+: encode a

section
variable {α : Type} [Format α] [Metered α]

theorem WithinLimit.lt_size {a : α} (h : WithinLimit a) : need a < UInt64.size :=
  Nat.lt_of_le_of_lt h (by decide)

theorem Metered.faithful : Faithful α where
  reads_back a h := by
    rw [decodeWhole_encode_eq h.lt_size]
    exact if_pos h
  refuses_large a h hs := by
    rw [decodeWhole_encode_eq hs]
    exact if_neg h
  refuses_more a extra h hextra := by
    rw [decodeWhole_encode_append h.lt_size, if_pos (show need a ≤ decodeLimit from h)]
    exact if_neg (by rwa [List.isEmpty_iff])
  tells_apart a b ha hb hne := by
    refine ⟨fun h => hne ?_, fun h => hne ?_, fun h => hne ?_⟩
    · exact eq_of_isPrefix ha hb (h ▸ List.prefix_refl _)
    · exact eq_of_isPrefix ha hb h
    · exact (eq_of_isPrefix hb ha h).symm

end

end Wire

/-! ## Hashes -/

/-- Two byte strings have a common hash. -/
def Blake3.Collision (x y : Bytes) : Prop := x ≠ y ∧ Blake3.hash x = Blake3.hash y

/-- The byte string whose hash is signed for a message. -/
def signPreimage (tag : String) (encoded : Bytes) : Bytes :=
  Bytes.ofString "agra" ++ Bytes.ofString tag ++ (Blake3.hash encoded).bytes

/-- Messages of a kind only have the same hash to sign if a hash collides on the way to it. -/
theorem collision_of_signHash_eq {tag : String} {x y : Bytes} (hne : x ≠ y)
    (h : signHash tag x = signHash tag y) :
    Blake3.Collision x y ∨ Blake3.Collision (signPreimage tag x) (signPreimage tag y) := by
  by_cases hp : signPreimage tag x = signPreimage tag y
  · have hb : (Blake3.hash x).bytes = (Blake3.hash y).bytes := List.append_cancel_left hp
    exact .inl ⟨hne, Octets.ext hb⟩
  · exact .inr ⟨hp, h⟩

/-- What peers agree on is read back, refused with anything after it, and told apart from every
other value of its type; and where two values have the same hash, a hash collides. -/
theorem agreed_values_unambiguous :
    (Faithful Payload ∧ Faithful Submission ∧ Faithful Block ∧ Faithful Snapshot ∧
      Faithful Checkpoint ∧ Faithful Vote ∧ Faithful Bytes ∧ Faithful SafeTx) ∧
    -- which values are within the limit
    ((∀ p : Payload, WithinLimit p) ∧
      (∀ s : Submission, need s = 72 + s.payload.length) ∧
      (∀ b : Block,
        need b ≤ 48 + (b.submissions.map fun s => max 80 (72 + s.payload.length)).sum) ∧
      (∀ s : Snapshot, need s ≤ 16 + (s.db.entries.map fun e =>
        max 40 (16 + (Bytes.ofString e.1).length + e.2.length)).sum) ∧
      ∀ c : Checkpoint, need c ≤ need c.data + 25) ∧
    -- fingerprints, block hashes and the hashes that are signed
    ((∀ v w : Vote, v ≠ w → v.fingerprint = w.fingerprint →
        Blake3.Collision (encode v) (encode w)) ∧
      (∀ b c : Block, WithinLimit b → WithinLimit c → b ≠ c → b.hash = c.hash →
        Blake3.Collision (encode b) (encode c)) ∧
      (∀ x y : Bytes, WithinLimit x → WithinLimit y → x ≠ y →
        Submission.payloadSignHash x = Submission.payloadSignHash y →
        Blake3.Collision (encode x) (encode y) ∨
          Blake3.Collision (signPreimage Submission.tag (encode x))
            (signPreimage Submission.tag (encode y))) ∧
      ∀ t u : SafeTx, t ≠ u → t.signHash = u.signHash →
        Blake3.Collision (encode t) (encode u) ∨
          Blake3.Collision (signPreimage SafeTx.tag (encode t))
            (signPreimage SafeTx.tag (encode u))) := by
  have hsmall : ∀ {n : Nat}, n ≤ 108 → n < UInt64.size := fun h =>
    Nat.lt_of_le_of_lt h (by decide)
  refine ⟨⟨Metered.faithful, Metered.faithful, Metered.faithful, Metered.faithful,
    Metered.faithful, Metered.faithful, Metered.faithful, Metered.faithful⟩,
    ⟨fun p => Nat.le_trans (need_payload_le p) (by decide), need_submission, need_block_le,
      need_snapshot_le, need_checkpoint_le⟩, ?_, ?_, ?_, ?_⟩
  · intro v w hne h
    have hv := Vote.need_le v
    have hw := Vote.need_le w
    obtain ⟨hencode, -⟩ := Metered.faithful.tells_apart v w (hsmall (by omega))
      (hsmall (by omega)) hne
    have hbytes : v.fingerprint.bytes = w.fingerprint.bytes := by rw [h]
    exact ⟨hencode, Octets.ext hbytes⟩
  · intro b c hb hc hne h
    obtain ⟨hencode, -⟩ := Metered.faithful.tells_apart b c hb.lt_size hc.lt_size hne
    have hbytes : b.hash.bytes = c.hash.bytes := by rw [h]
    exact ⟨hencode, Octets.ext hbytes⟩
  · intro x y hx hy hne h
    obtain ⟨hencode, -⟩ := Metered.faithful.tells_apart x y hx.lt_size hy.lt_size hne
    exact collision_of_signHash_eq hencode h
  · intro t u hne h
    have hneed : ∀ t : SafeTx, need t ≤ 108 := fun _ => Nat.le_of_ble_eq_true rfl
    obtain ⟨hencode, -⟩ := Metered.faithful.tells_apart t u (hsmall (hneed t))
      (hsmall (hneed u)) hne
    exact collision_of_signHash_eq hencode h

/-- A block with bytes that are no payload. -/
def strayBlock : Block := Block.first [⟨[255], Octets.zero⟩]

theorem agreed_values_unambiguous_of_stray :
    decodeWhole Payload [255] = .error .unexpectedEnd ∧
    decodeWhole Block (encode strayBlock) = .ok strayBlock ∧
    decodeWhole Block (encode strayBlock ++ [0]) = .error .leftover ∧
    ¬ encode (Block.first []) <+: encode strayBlock := by
  obtain ⟨⟨-, -, hblock, -⟩, ⟨-, -, hneed, -⟩, -⟩ := agreed_values_unambiguous
  have hstray : WithinLimit strayBlock := Nat.le_trans (hneed strayBlock) (by decide)
  have hempty : WithinLimit (Block.first []) := Nat.le_trans (hneed _) (by decide)
  refine ⟨rfl, hblock.reads_back _ hstray, hblock.refuses_more _ [0] hstray (by decide), ?_⟩
  have hne : Block.first [] ≠ strayBlock := fun h => by
    cases congrArg (fun b => b.submissions.length) h
  exact (hblock.tells_apart _ _ hempty.lt_size hstray.lt_size hne).2.1

end Quorum
