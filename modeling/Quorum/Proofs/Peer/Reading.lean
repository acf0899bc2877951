import Mathlib.Data.Finset.Card
import Quorum.Proofs.Data.HexText
import Quorum.Proofs.Peer.Membership
import Quorum.Proofs.Wire.Uniform

/-!
# Sets of peers that are read

The operations on a set keep its peers in order. Reading one does not put them in order, and does not
look whether they are.

* `ofJson_iff` : which JSON values are read as a set;
* `actsAsSet_iff`, `sorted_iff_built`, `sorted_iff_ofList` : what the order of the peers decides;
* `read_as_written` : a set is read as it is written, and the order in which it is written decides
  whether it acts as a set;
* `reading_breaks_order` : what is read can be out of order, miss its own members and count one twice.
-/

namespace Quorum

theorem mapM_eq_ok_iff {ε α β : Type} {f : α → Except ε β} {as : List α} {bs : List β} :
    as.mapM f = .ok bs ↔ List.Forall₂ (fun a b => f a = .ok b) as bs := by
  induction as generalizing bs with
  | nil =>
    rw [List.mapM_nil, List.forall₂_nil_left_iff]
    exact ⟨fun h => (Except.ok.inj h).symm, fun h => congrArg Except.ok h.symm⟩
  | cons a as ih =>
    rw [List.mapM_cons, List.forall₂_cons_left_iff]
    constructor
    · intro h
      cases hb : f a with
      | error e =>
        rw [hb] at h
        cases h
      | ok b =>
        rw [hb] at h
        cases hbs : as.mapM f with
        | error e =>
          rw [hbs] at h
          cases h
        | ok bs' =>
          rw [hbs] at h
          cases h
          exact ⟨b, bs', rfl, ih.1 hbs, rfl⟩
    · rintro ⟨b, bs', hb, hbs, rfl⟩
      rw [hb, ih.2 hbs]
      rfl

namespace PeerSet

variable {s : PeerSet}

/-! ## JSON -/

/-- A set is read from the array of the hexadecimal forms of its peers, as they stand. -/
theorem ofJson_iff {j : Json} :
    (Readable.ofJson j : Except ReadError PeerSet) = .ok s ↔ ∃ items, j = .array items ∧
      List.Forall₂ (fun item p => ∃ text, item = .string text ∧
        Octets.parse .publicKey text = .ok p) items s.peers := by
  cases j with
  | array items =>
    show PeerSet.mk <$> items.mapM (Readable.ofJson (α := PublicKey)) = _ ↔ _
    simp only [Json.array.injEq, exists_eq_left', ← Octets.ofJson_eq_ok_iff, ← mapM_eq_ok_iff]
    cases items.mapM (Readable.ofJson (α := PublicKey)) with
    | error e => exact iff_of_false nofun nofun
    | ok ps =>
      cases s
      show Except.ok (PeerSet.mk ps) = .ok _ ↔ _
      rw [Except.ok.injEq, Except.ok.injEq, PeerSet.mk.injEq]
  | _ => exact iff_of_false nofun nofun

/-! ## What the order decides -/

theorem actsAsSet_iff : s.ActsAsSet ↔ s.Sorted := ⟨fun h => h.sorted, Sorted.actsAsSet⟩

theorem sorted_iff_ofList : s.Sorted ↔ ofList s.peers = s :=
  ⟨fun h => ofList_eq_of_pairwise h, fun h => h ▸ sorted_ofList s.peers⟩

/-- Sets that are in order can be put together by the operations. -/
theorem sorted_iff_built : s.Sorted ↔ s.Built :=
  ⟨fun h => sorted_iff_ofList.1 h ▸ .ofList s.peers, Built.sorted⟩

theorem size_eq_card_iff : s.size = s.peers.toFinset.card ↔ s.peers.Nodup := by
  rw [List.card_toFinset, eq_comm]
  constructor
  · intro h
    exact List.dedup_eq_self.1 ((List.dedup_sublist s.peers).eq_of_length h)
  · intro h
    exact congrArg List.length (List.dedup_eq_self.2 h)

/-- **A set is read as it is written**, from bytes and from JSON: the peers stand as they stood there,
in whatever order and with all repetitions. It acts as a set exactly if they are in order, which is
exactly what the sets are that the operations put together; then all its members are found, and it
counts each of them once. What is found in it is a member in any case. -/
theorem read_as_written (s : PeerSet) :
    ((∀ bs, Wire.decodeWhole PeerSet bs = .ok s ↔ 8 + s.size * 32 ≤ Wire.decodeLimit ∧
        ∃ head ∈ Wire.Varint.spellings 8 s.size, bs = head ++ s.peers.flatMap Octets.bytes) ∧
      ∀ j, (Readable.ofJson j : Except ReadError PeerSet) = .ok s ↔ ∃ items, j = .array items ∧
        List.Forall₂ (fun item p => ∃ text, item = .string text ∧
          Octets.parse .publicKey text = .ok p) items s.peers) ∧
    ((s.ActsAsSet ↔ s.Sorted) ∧ (s.Sorted ↔ s.Built) ∧ (s.Sorted ↔ ofList s.peers = s)) ∧
    (s.Sorted → (∀ p ∈ s.peers, s.contains p = true) ∧ s.size = s.peers.toFinset.card) ∧
    (s.size = s.peers.toFinset.card ↔ s.peers.Nodup) ∧
    ∀ p, s.contains p = true → p ∈ s.peers := by
  refine ⟨⟨fun bs => Wire.decodeWhole_peerSet_iff, fun j => ofJson_iff⟩,
    ⟨actsAsSet_iff, sorted_iff_built, sorted_iff_ofList⟩, fun hs => ⟨fun p hp => ?_, ?_⟩,
    size_eq_card_iff, fun p => mem_of_contains⟩
  · exact (contains_iff hs).2 hp
  · exact size_eq_card_iff.2 (SortedMap.nodup_of_pairwise hs)

/-- Two peers, the greater one first. -/
def swapped : PeerSet := ⟨[Octets.fill 2, Octets.fill 1]⟩

/-- The bytes of `swapped`, with its length in one byte. -/
def swappedBytes : Bytes := 2 :: (List.replicate 32 2 ++ List.replicate 32 1)

theorem read_as_written_of_swapped :
    (Wire.decodeWhole PeerSet swappedBytes = .ok swapped ∧ ¬ swapped.ActsAsSet ∧ ¬ swapped.Built ∧
      ofList swapped.peers ≠ swapped ∧ swapped.size = swapped.peers.toFinset.card) ∧
    (ofList swapped.peers).Sorted ∧
      ∀ p ∈ (ofList swapped.peers).peers, (ofList swapped.peers).contains p = true := by
  obtain ⟨⟨hbytes, -⟩, ⟨hacts, hbuilt, hlist⟩, -, hsize, -⟩ := read_as_written swapped
  obtain ⟨-, -, hfound, -⟩ := read_as_written (ofList swapped.peers)
  have hs : ¬ swapped.Sorted := fun h => by cases (List.pairwise_cons.1 h).1 _ List.mem_cons_self
  have hordered : (ofList swapped.peers).Sorted := sorted_ofList swapped.peers
  exact ⟨⟨(hbytes _).2 ⟨by decide, [2], by decide, rfl⟩, mt hacts.1 hs, mt hbuilt.2 hs,
    mt hlist.2 hs, hsize.2 (by decide)⟩, hordered, (hfound hordered).1⟩

/-- One peer, twice. -/
def doubled : PeerSet := ⟨[Octets.fill 1, Octets.fill 1]⟩

/-- The JSON form of `swapped`. -/
def swappedJson : Json := .array
  [.string "0202020202020202020202020202020202020202020202020202020202020202",
    .string "0101010101010101010101010101010101010101010101010101010101010101"]

/-- What is read need not be in order, need not find its own members, and can count a peer twice. -/
theorem reading_breaks_order :
    (¬ ∀ bs s, Wire.decodeWhole PeerSet bs = .ok s → s.Sorted) ∧
    (¬ ∀ bs s, Wire.decodeWhole PeerSet bs = .ok s → ∀ p ∈ s.peers, s.contains p = true) ∧
    (¬ ∀ bs s, Wire.decodeWhole PeerSet bs = .ok s → s.size = s.peers.toFinset.card) ∧
    ¬ ∀ j s, (Readable.ofJson j : Except ReadError PeerSet) = .ok s → s.Sorted := by
  have hbytes : Wire.decodeWhole PeerSet swappedBytes = .ok swapped := rfl
  have htwice : Wire.decodeWhole PeerSet (2 :: List.replicate 64 1) = .ok doubled := rfl
  have hjson : (Readable.ofJson swappedJson : Except ReadError PeerSet) = .ok swapped := rfl
  have hs : ¬ swapped.Sorted := fun h => by cases (List.pairwise_cons.1 h).1 _ List.mem_cons_self
  have hlost : swapped.contains (Octets.fill 2) = false := rfl
  refine ⟨fun h => hs (h _ _ hbytes), fun h => ?_, fun h => ?_, fun h => hs (h _ _ hjson)⟩
  · have hfound := h _ _ hbytes (Octets.fill 2) List.mem_cons_self
    rw [hlost] at hfound
    cases hfound
  · exact absurd (h _ _ htwice) (by decide)

end PeerSet

end Quorum
