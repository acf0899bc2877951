import Quorum.Proofs.Data.BigEndian
import Quorum.Proofs.Snapshot.Conforming
import Quorum.Proofs.Wire.Uniform

/-!
# The last change of a key decides

* `apply_append`, `update?_update?` : one update after the other is both in one, a version later;
* `Retained a` : where a key was last set to `a`, `a` is read;
* `retained_iff` : exactly if the bytes of `a` decode to it;
* `retained_peerSet_iff`, `retained_signatures_iff` : how large a set and a map of signatures may be;
* `last_writer_wins` : what an update does to every key, and what is read there;
* `updates_end` : there is no update of the last version, and what is too large is not read back.
-/

namespace Quorum

namespace Update

theorem apply_append (u v : Update) (db : SortedMap String Bytes) :
    apply (u ++ v) db = apply v (apply u db) := List.foldl_append

end Update

namespace Snapshot

/-! ## Updates -/

theorem update?_eq_none_iff {s : Snapshot} {u : Update} :
    s.update? u = none ↔ s.version.toNat = UInt64.size - 1 := by
  unfold update?
  rw [Option.map_eq_none_iff, Counter.next?_eq_none]

/-- **One update after the other is both in one, a version later.** -/
theorem update?_update? (s : Snapshot) (u v : Update) :
    (s.update? u).bind (·.update? v) = (s.update? (u ++ v)).bind carryOver? := by
  unfold update? carryOver?
  cases s.version.next? with
  | none => rfl
  | some version =>
    simp only [Option.map_some, Option.bind_some, Update.apply_append]

/-! ## What is read -/

/-- Where the last change of a key set it to `a`, `a` is read. -/
def Retained {α : Type} [Wire.Format α] (a : α) : Prop :=
  ∀ (s t : Snapshot) (u : Update) (key : String), s.update? u = some t →
    u.last? key = some (Update.set key a).2 →
    t.read? α key = .ok (some a) ∧ t.read α key = .ok a ∧ ∀ d, t.readOr key d = .ok a

theorem retained_of_decodeWhole {α : Type} [Wire.Format α] {a : α}
    (h : Wire.decodeWhole α (Wire.encode a) = .ok a) : Retained a := by
  intro s t u key ht hlast
  have hget : t.db.get? key = some (Wire.encode a) := by
    rw [get?_update? ht, hlast]
    rfl
  have hread := read?_of_get? hget h
  exact ⟨hread, read_of_read? hread, fun d => readOr_of_read? hread d⟩

/-- **A value is retained exactly if its bytes decode to it.** -/
theorem retained_iff {α : Type} [Wire.Format α] {a : α} :
    Retained a ↔ Wire.decodeWhole α (Wire.encode a) = .ok a := by
  refine ⟨fun h => ?_, retained_of_decodeWhole⟩
  obtain ⟨t, ht⟩ := exists_update? (s := empty) (by decide) [Update.set "" a]
  have hlast : Update.last? [Update.set "" a] "" = some (Update.set "" a).2 :=
    Update.last?_singleton "" _
  have hget : t.db.get? "" = some (Wire.encode a) := by
    rw [get?_update? ht, hlast]
    rfl
  have hread := (h empty t _ "" ht hlast).1
  unfold read? at hread
  rw [hget] at hread
  cases hd : Wire.decodeWhole α (Wire.encode a) with
  | ok b =>
    simp only [hd, Except.ok.injEq, Option.some.injEq] at hread
    rw [hread]
  | error e =>
    simp only [hd] at hread
    cases hread

theorem retained_lawful {α : Type} [Wire.Format α] [Wire.Lawful α]
    (hf : Wire.Format.footprint α ≤ Wire.decodeLimit) (a : α) : Retained a :=
  retained_of_decodeWhole (decodeWhole_lawful hf a)

theorem retained_peerSet_iff {ps : PeerSet} : Retained ps ↔ ps.size ≤ 524287 := by
  rw [retained_iff, Wire.decodeWhole_encode_peerSet_iff]
  show 8 + ps.size * 32 ≤ 16777216 ↔ _
  omega

theorem retained_signatures_iff {m : SortedMap PublicKey Signature} :
    Retained m ↔ m.size ≤ 174762 := by
  rw [retained_iff, Wire.decodeWhole_encode_map_iff (by decide)]
  show 8 + m.size * 96 ≤ 16777216 ↔ _
  omega

theorem not_has_iff {s : Snapshot} {key : String} : ¬ s.Has key ↔ s.db.get? key = none := by
  unfold Has
  rw [← Option.isSome_iff_exists, Option.not_isSome_iff_eq_none]

/-- Nothing is read where nothing was written. -/
theorem read_of_absent {α : Type} [Wire.Format α] {s : Snapshot} {key : String}
    (h : s.db.get? key = none) :
    s.read α key = .error (.keyNotFound key) ∧ ∀ d : α, s.readOr key d = .ok d := by
  have hread : s.read? α key = .ok none := read?_of_absent (not_has_iff.2 h)
  refine ⟨?_, fun d => readOr_of_read? hread d⟩
  unfold read
  rw [hread]

/-- **The last writer wins.** Every snapshot but one of the last version has an update by any list of
changes: it has the next version, and under every key stands what the last change of the key left
there, or what stood there before if none names it. Two updates are one by all of their changes, a
version later, and carrying over is the update by none. Where a key was last set to a value that the
rounds write, the value is read back, unless it is a set or a map that is too large to decode. A key
that was never written is not found, and reads as its default. -/
theorem last_writer_wins :
    (∀ (s : Snapshot) (u : Update),
      (s.version.toNat = UInt64.size - 1 ∧ s.update? u = none) ∨
        ∃ t, s.update? u = some t ∧ t.version.toNat = s.version.toNat + 1 ∧
          ∀ key, t.db.get? key = (u.last? key).getD (s.db.get? key)) ∧
    (∀ (s : Snapshot) (u v : Update),
      (s.update? u).bind (·.update? v) = (s.update? (u ++ v)).bind carryOver?) ∧
    (∀ s : Snapshot, s.carryOver? = s.update? []) ∧
    -- the types of the values that the rounds write
    ((∀ n : UInt64, Retained n) ∧ (∀ b : Bool, Retained b) ∧ (∀ r : Randomness, Retained r) ∧
      (∀ pk : PublicKey, Retained pk) ∧ (∀ tx : TxHash, Retained tx) ∧
      (∀ ps : PeerSet, Retained ps ↔ ps.size ≤ 524287) ∧
      ∀ m : SortedMap PublicKey Signature, Retained m ↔ m.size ≤ 174762) ∧
    ∀ (α : Type) [Wire.Format α] (s : Snapshot) (key : String), s.db.get? key = none →
      s.read α key = .error (.keyNotFound key) ∧ ∀ d : α, s.readOr key d = .ok d := by
  refine ⟨fun s u => ?_, update?_update?, fun s => (update?_nil s).symm,
    ⟨retained_lawful (by decide), retained_lawful (by decide), retained_lawful (by decide),
      retained_lawful (by decide), retained_lawful (by decide), fun ps => retained_peerSet_iff,
      fun m => retained_signatures_iff⟩, fun α _ s key => read_of_absent⟩
  cases hu : s.update? u with
  | none => exact .inl ⟨update?_eq_none_iff.1 hu, rfl⟩
  | some t => exact .inr ⟨t, rfl, version_update? hu, get?_update? hu⟩

/-- A key that is set, removed and set again, and one that is set and removed. -/
def rewriting : Update :=
  [Update.set Key.periodCount (1 : UInt64), Update.set Key.finalTx (Octets.fill 1 : TxHash),
    Update.remove Key.periodCount, Update.set Key.periodCount (2 : UInt64),
    Update.remove Key.finalTx]

theorem last_writer_wins_of_rewriting : ∃ t, empty.update? rewriting = some t ∧
    t.version.toNat = 1 ∧ t.read UInt64 Key.periodCount = .ok 2 ∧
    t.read TxHash Key.finalTx = .error (.keyNotFound Key.finalTx) := by
  obtain ⟨hupdate, -, -, ⟨hretained, -⟩, habsent⟩ := last_writer_wins
  obtain ⟨hend, -⟩ | ⟨t, ht, hversion, hget⟩ := hupdate empty rewriting
  · exact absurd hend (by decide)
  · exact ⟨t, ht, hversion, (hretained 2 empty t rewriting Key.periodCount ht rfl).2.1,
      (habsent TxHash t Key.finalTx (hget Key.finalTx)).1⟩

/-! ## What is lost -/

/-- A peer for every number. -/
def numbered (n : Nat) : PublicKey :=
  ⟨Bytes.ofNatBE (OctetRole.width .publicKey) n, Bytes.length_ofNatBE _ n⟩

theorem compare_numbered {m n : Nat} (h : m < n) (hn : n < Bytes.capacity 32) :
    compare (numbered m) (numbered n) = .lt := by
  have hlength : (numbered m).bytes.length = (numbered n).bytes.length :=
    (numbered m).length_eq.trans (numbered n).length_eq.symm
  refine (Bytes.compare_eq_compare_toNatBE hlength).trans ?_
  show compare (Bytes.ofNatBE 32 m).toNatBE (Bytes.ofNatBE 32 n).toNatBE = .lt
  rw [Bytes.toNatBE_ofNatBE (Nat.lt_trans h hn), Bytes.toNatBE_ofNatBE hn]
  exact Nat.compare_eq_lt.2 h

theorem pairwise_numbered {n : Nat} (hn : n ≤ Bytes.capacity 32) :
    ((List.range n).map numbered).Pairwise fun p q => compare p q = .lt := by
  rw [List.pairwise_map]
  refine List.pairwise_lt_range.imp_of_mem fun _ hk hlt => compare_numbered hlt ?_
  exact Nat.lt_of_lt_of_le (List.mem_range.1 hk) hn

/-- The first `n` peers. -/
def crowd (n : Nat) : PeerSet := PeerSet.ofList ((List.range n).map numbered)

theorem size_crowd {n : Nat} (hn : n ≤ Bytes.capacity 32) : (crowd n).size = n := by
  unfold crowd PeerSet.size
  rw [PeerSet.ofList_eq_of_pairwise (pairwise_numbered hn), List.length_map, List.length_range]

/-- A signature of each of the first `n` peers. -/
def signedByAll {n : Nat} (hn : n ≤ Bytes.capacity 32) : SortedMap PublicKey Signature where
  entries := ((List.range n).map numbered).map fun pk => (pk, Octets.zero)
  sorted := List.pairwise_map.2 (pairwise_numbered hn)

theorem size_signedByAll {n : Nat} (hn : n ≤ Bytes.capacity 32) : (signedByAll hn).size = n := by
  unfold signedByAll SortedMap.size
  rw [List.length_map, List.length_map, List.length_range]

/-- The last version has no update, and a set of peers or a map of signatures that is too large to
decode is written, but not read back. -/
theorem updates_end :
    (¬ ∀ (s : Snapshot) (u : Update), ∃ t, s.update? u = some t) ∧
    (¬ ∀ ps : PeerSet, ps.Built → Retained ps) ∧
    ¬ ∀ m : SortedMap PublicKey Signature, Retained m := by
  refine ⟨fun h => ?_, fun h => ?_, fun h => ?_⟩
  · obtain ⟨t, ht⟩ := h ⟨Counter.max, SortedMap.empty⟩ []
    cases ht
  · have hn : 524288 ≤ Bytes.capacity 32 := by decide
    have hsize := retained_peerSet_iff.1 (h (crowd 524288) (.ofList _))
    rw [size_crowd hn] at hsize
    exact absurd hsize (by decide)
  · have hn : 174763 ≤ Bytes.capacity 32 := by decide
    have hsize := retained_signatures_iff.1 (h (signedByAll hn))
    rw [size_signedByAll hn] at hsize
    exact absurd hsize (by decide)

end Snapshot

end Quorum
