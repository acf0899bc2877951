import Quorum.Proofs.Peer.Sorted
import Quorum.Proofs.Wire.RoundTrip
import Quorum.Snapshot.View

/-!
# Snapshots that hold what the rounds write

* `Update.last?`, `get?_apply` : the last mention of a key in an update decides;
* `Snapshot.Fits`, `Update.Fits` : what the rounds write under which key;
* `Snapshot.Conforms` : nothing else stands in the snapshot; kept by updates of such values
  (`Conforms.update`);
* `Conforms.read?_participants`, `Conforms.exists_keeper`, `Conforms.exists_periodCount` and their
  like : such a snapshot decodes.
-/

namespace Quorum

/-! ## Updates -/

namespace Update

/-- What the last change of a key sets it to, nothing if no change names it. -/
def last? (u : Update) (key : String) : Option (Option Bytes) :=
  (u.filterMap fun d => if d.1 = key then some d.2 else none).getLast?

theorem last?_cons (k : String) (v : Option Bytes) (u : Update) (key : String) :
    last? ((k, v) :: u) key = if key = k then some ((last? u key).getD v) else last? u key := by
  unfold last?
  rw [List.filterMap_cons]
  by_cases hk : key = k
  · rw [if_pos hk, if_pos hk.symm, List.getLast?_cons]
  · rw [if_neg hk, if_neg (Ne.symm hk)]

theorem exists_apply_cons (k : String) (v : Option Bytes) (u : Update)
    (db : SortedMap String Bytes) : ∃ db', apply ((k, v) :: u) db = apply u db' ∧
      ∀ key, db'.get? key = if key = k then v else db.get? key := by
  cases v with
  | some value => exact ⟨db.insert k value, rfl, fun key => db.get?_insert_of k key value⟩
  | none =>
    refine ⟨db.erase k, rfl, fun key => ?_⟩
    rw [SortedMap.get?_erase]
    simp only [SortedMap.compare_eq_iff]

/-- The last mention of a key decides, and a key that is not named keeps its value. -/
theorem get?_apply (u : Update) (db : SortedMap String Bytes) (key : String) :
    (u.apply db).get? key = (u.last? key).getD (db.get? key) := by
  induction u generalizing db with
  | nil => rfl
  | cons d u ih =>
    obtain ⟨k, v⟩ := d
    obtain ⟨db', happly, hget⟩ := exists_apply_cons k v u db
    rw [happly, ih, hget, last?_cons]
    by_cases hk : key = k
    · rw [if_pos hk, if_pos hk, Option.getD_some]
    · rw [if_neg hk, if_neg hk]

theorem last?_singleton (key : String) (v : Option Bytes) : last? [(key, v)] key = some v := by
  unfold last?
  rw [List.filterMap_cons, if_pos rfl]
  rfl

theorem last?_pair {key other : String} (hne : other ≠ key) (v w : Option Bytes) :
    last? [(key, v), (other, w)] key = some v ∧ last? [(key, v), (other, w)] other = some w := by
  unfold last?
  simp [hne, hne.symm]

theorem mem_of_last? {u : Update} {key : String} {v : Option Bytes} (h : u.last? key = some v) :
    (key, v) ∈ u := by
  obtain ⟨⟨k, w⟩, hm, hd⟩ := List.mem_filterMap.1 (List.mem_of_getLast? h)
  split_ifs at hd with hk
  cases hd
  exact hk ▸ hm

theorem exists_last? {u : Update} {key : String} (h : key ∈ u.map (·.1)) :
    ∃ w, u.last? key = some w := by
  obtain ⟨d, hd, hk⟩ := List.mem_map.1 h
  cases hl : u.last? key with
  | some w => exact ⟨w, rfl⟩
  | none =>
    have hnil := List.getLast?_eq_none_iff.1 hl
    have hm : d.2 ∈ u.filterMap fun d => if d.1 = key then some d.2 else none :=
      List.mem_filterMap.2 ⟨d, hd, if_pos hk⟩
    rw [hnil] at hm
    cases hm

end Update

namespace Snapshot

theorem exists_update? {s : Snapshot} (h : s.version.toNat + 1 < UInt64.size) (u : Update) :
    ∃ t, s.update? u = some t := by
  cases hn : s.version.next? with
  | some v => exact ⟨⟨v, u.apply s.db⟩, by rw [update?, hn]; rfl⟩
  | none =>
    have := Counter.next?_eq_none.1 hn
    omega

theorem get?_update? {s t : Snapshot} {u : Update} (h : s.update? u = some t) (key : String) :
    t.db.get? key = (u.last? key).getD (s.db.get? key) := by
  obtain ⟨v, -, rfl⟩ := Option.map_eq_some_iff.1 h
  exact Update.get?_apply u s.db key

/-! ## Values of the rounds -/

/-- What the rounds of a service write under its keys, after at most `periods` periods. Registration
agrees on exactly the configured peers. -/
inductive Fits (configured : PeerSet) (periods : Nat) : String → Bytes → Prop
  | participants :
    Fits configured periods Key.participants (Wire.encode (PeerSet.ofList configured.peers))
  | randomness (value : Randomness) :
    Fits configured periods Key.randomness (Wire.encode value)
  | randomnessRound (round : UInt64) :
    Fits configured periods Key.randomnessRound (Wire.encode round)
  | keeper (pk : PublicKey) : Fits configured periods Key.keeper (Wire.encode pk)
  | signatures (sigs : SortedMap PublicKey Signature) (h : sigs.size ≤ PeerCount.limit) :
    Fits configured periods Key.signatures (Wire.encode sigs)
  | finalTx (tx : TxHash) : Fits configured periods Key.finalTx (Wire.encode tx)
  | periodCount (n : UInt64) (h : n.toNat ≤ periods) :
    Fits configured periods Key.periodCount (Wire.encode n)
  | terminationReached (reached : Bool) :
    Fits configured periods Key.terminationReached (Wire.encode reached)
  | terminationTx (tx : TxHash) : Fits configured periods Key.terminationTx (Wire.encode tx)

end Snapshot

/-- The update only sets keys, to values that the rounds write there. -/
def Update.Fits (u : Update) (configured : PeerSet) (periods : Nat) : Prop :=
  ∀ d ∈ u, ∃ value, d.2 = some value ∧ Snapshot.Fits configured periods d.1 value

theorem Update.Fits.nil {configured : PeerSet} {periods : Nat} :
    Update.Fits [] configured periods := by
  intro d hd
  cases hd

theorem Update.Fits.one {configured : PeerSet} {periods : Nat} {k : String} {v : Bytes}
    (h : Snapshot.Fits configured periods k v) :
    Update.Fits [(k, some v)] configured periods := by
  intro d hd
  rw [List.mem_singleton.1 hd]
  exact ⟨v, rfl, h⟩

theorem Update.Fits.two {configured : PeerSet} {periods : Nat} {k l : String} {v w : Bytes}
    (hk : Snapshot.Fits configured periods k v) (hl : Snapshot.Fits configured periods l w) :
    Update.Fits [(k, some v), (l, some w)] configured periods := by
  intro d hd
  rcases List.mem_cons.1 hd with rfl | hd
  · exact ⟨v, rfl, hk⟩
  · exact Update.Fits.one hl d hd

namespace Snapshot

/-- Nothing but values of the rounds stands in the snapshot. -/
def Conforms (s : Snapshot) (configured : PeerSet) (periods : Nat) : Prop :=
  ∀ key value, s.db.get? key = some value → Fits configured periods key value

/-- Something stands under the key. -/
def Has (s : Snapshot) (key : String) : Prop := ∃ value, s.db.get? key = some value

variable {configured : PeerSet} {periods periods' : Nat}

theorem Fits.mono {key : String} {value : Bytes} (h : Fits configured periods key value)
    (hle : periods ≤ periods') : Fits configured periods' key value := by
  cases h with
  | participants => exact .participants
  | randomness value => exact .randomness value
  | randomnessRound round => exact .randomnessRound round
  | keeper pk => exact .keeper pk
  | signatures sigs hs => exact .signatures sigs hs
  | finalTx tx => exact .finalTx tx
  | periodCount n hn => exact .periodCount n (Nat.le_trans hn hle)
  | terminationReached reached => exact .terminationReached reached
  | terminationTx tx => exact .terminationTx tx

theorem conforms_empty : Snapshot.empty.Conforms configured periods := by
  intro key value h
  cases h

/-- An update of fitting values keeps a snapshot conforming. -/
theorem Conforms.update {s t : Snapshot} {u : Update} (h : s.Conforms configured periods)
    (hle : periods ≤ periods') (hu : u.Fits configured periods') (ht : s.update? u = some t) :
    t.Conforms configured periods' := by
  intro key value hv
  rw [get?_update? ht] at hv
  cases hl : u.last? key with
  | none =>
    rw [hl] at hv
    exact (h key value hv).mono hle
  | some w =>
    rw [hl] at hv
    obtain ⟨value', hw, hf⟩ := hu _ (Update.mem_of_last? hl)
    cases hw.symm.trans hv
    exact hf

/-- An update that removes nothing keeps every key. -/
theorem Has.update {s t : Snapshot} {u : Update} {key : String} (h : s.Has key)
    (hu : u.Fits configured periods) (ht : s.update? u = some t) : t.Has key := by
  obtain ⟨value, hv⟩ := h
  unfold Has
  rw [get?_update? ht, hv]
  cases hl : u.last? key with
  | none => exact ⟨value, rfl⟩
  | some w =>
    obtain ⟨value', hw, -⟩ := hu _ (Update.mem_of_last? hl)
    exact ⟨value', hw⟩

/-- A key that an update sets stands in the new snapshot. -/
theorem has_of_mem {s t : Snapshot} {u : Update} {key : String} (hm : key ∈ u.map (·.1))
    (hu : u.Fits configured periods) (ht : s.update? u = some t) : t.Has key := by
  obtain ⟨w, hl⟩ := Update.exists_last? hm
  obtain ⟨value, hw, -⟩ := hu _ (Update.mem_of_last? hl)
  unfold Has
  rw [get?_update? ht, hl]
  exact ⟨value, hw⟩

/-! ## Reading -/

theorem read?_congr {α : Type} [Wire.Format α] {s t : Snapshot} {key : String}
    (h : t.db.get? key = s.db.get? key) : t.read? α key = s.read? α key := by
  unfold read?
  rw [h]

theorem read_congr {α : Type} [Wire.Format α] {s t : Snapshot} {key : String}
    (h : t.db.get? key = s.db.get? key) : t.read α key = s.read α key := by
  unfold read
  rw [read?_congr h]

theorem read?_of_get? {α : Type} [Wire.Format α] {s : Snapshot} {key : String} {value : Bytes}
    {a : α} (h : s.db.get? key = some value) (hd : Wire.decodeWhole α value = .ok a) :
    s.read? α key = .ok (some a) := by
  unfold read?
  rw [h]
  dsimp only
  rw [hd]

theorem read?_of_absent {α : Type} [Wire.Format α] {s : Snapshot} {key : String}
    (h : ¬ s.Has key) : s.read? α key = .ok none := by
  unfold read?
  cases hg : s.db.get? key with
  | none => rfl
  | some value => exact absurd ⟨value, hg⟩ h

theorem read_of_read? {α : Type} [Wire.Format α] {s : Snapshot} {key : String} {a : α}
    (h : s.read? α key = .ok (some a)) : s.read α key = .ok a := by
  unfold read
  rw [h]

theorem readOr_of_read? {α : Type} [Wire.Format α] {s : Snapshot} {key : String} {a : Option α}
    (h : s.read? α key = .ok a) (default : α) : s.readOr key default = .ok (a.getD default) := by
  unfold readOr
  rw [h]
  rfl

theorem decodeWhole_lawful {α : Type} [Wire.Format α] [Wire.Lawful α]
    (hf : Wire.Format.footprint α ≤ Wire.decodeLimit) (a : α) :
    Wire.decodeWhole α (Wire.encode a) = .ok a :=
  Wire.decodeWhole_encode (Wire.Lawful.readsBack a) hf

theorem decodeWhole_map {κ ν : Type} [Ord κ] [Std.TransOrd κ] [Std.LawfulEqOrd κ] [Wire.Format κ]
    [Wire.Format ν] [Wire.Lawful κ] [Wire.Lawful ν] {m : SortedMap κ ν}
    (hm : m.size ≤ PeerCount.limit)
    (hf : 8 + PeerCount.limit * (Wire.Format.footprint κ + Wire.Format.footprint ν) ≤
      Wire.decodeLimit) :
    Wire.decodeWhole (SortedMap κ ν) (Wire.encode m) = .ok m :=
  Wire.decodeWhole_encode (Wire.readsBack_map (Nat.lt_of_le_of_lt hm (by decide)))
    (Nat.le_trans (Nat.add_le_add_left (Nat.mul_le_mul_right _ hm) 8) hf)

theorem Fits.eq_participants {key : String} {value : Bytes}
    (h : Fits configured periods key value) (hk : key = Key.participants) :
    value = Wire.encode (PeerSet.ofList configured.peers) := by
  cases h with
  | participants => rfl
  | _ => exact absurd hk (by decide)

theorem Fits.eq_keeper {key : String} {value : Bytes}
    (h : Fits configured periods key value) (hk : key = Key.keeper) :
    ∃ pk : PublicKey, value = Wire.encode pk := by
  cases h with
  | keeper pk => exact ⟨pk, rfl⟩
  | _ => exact absurd hk (by decide)

theorem Fits.eq_randomness {key : String} {value : Bytes}
    (h : Fits configured periods key value) (hk : key = Key.randomness) :
    ∃ v : Randomness, value = Wire.encode v := by
  cases h with
  | randomness v => exact ⟨v, rfl⟩
  | _ => exact absurd hk (by decide)

theorem Fits.eq_finalTx {key : String} {value : Bytes}
    (h : Fits configured periods key value) (hk : key = Key.finalTx) :
    ∃ tx : TxHash, value = Wire.encode tx := by
  cases h with
  | finalTx tx => exact ⟨tx, rfl⟩
  | _ => exact absurd hk (by decide)

theorem Fits.eq_signatures {key : String} {value : Bytes}
    (h : Fits configured periods key value) (hk : key = Key.signatures) :
    ∃ sigs : SortedMap PublicKey Signature, sigs.size ≤ PeerCount.limit ∧
      value = Wire.encode sigs := by
  cases h with
  | signatures sigs hs => exact ⟨sigs, hs, rfl⟩
  | _ => exact absurd hk (by decide)

theorem Fits.eq_periodCount {key : String} {value : Bytes}
    (h : Fits configured periods key value) (hk : key = Key.periodCount) :
    ∃ n : UInt64, n.toNat ≤ periods ∧ value = Wire.encode n := by
  cases h with
  | periodCount n hn => exact ⟨n, hn, rfl⟩
  | _ => exact absurd hk (by decide)

/-- The participants, if any were agreed on, are the configured peers in order. -/
theorem Conforms.read?_participants {s : Snapshot} (h : s.Conforms configured periods)
    (hle : configured.size ≤ PeerCount.limit) (hs : s.Has Key.participants) :
    s.read? PeerSet Key.participants = .ok (some (PeerSet.ofList configured.peers)) := by
  obtain ⟨value, hv⟩ := hs
  obtain rfl := (h _ _ hv).eq_participants rfl
  exact read?_of_get? hv (Wire.decodeWhole_peerSet
    (Nat.le_trans (PeerSet.size_ofList_le configured.peers) hle))

/-- What stands under a key decodes, if only encodings of one type fit there. -/
theorem Conforms.exists_read? {α : Type} [Wire.Format α] [Wire.Lawful α] {s : Snapshot}
    {key : String} (h : s.Conforms configured periods)
    (he : ∀ {value}, Fits configured periods key value → ∃ a : α, value = Wire.encode a)
    (hf : Wire.Format.footprint α ≤ Wire.decodeLimit) (hs : s.Has key) :
    ∃ a, s.read? α key = .ok (some a) := by
  obtain ⟨value, hv⟩ := hs
  obtain ⟨a, rfl⟩ := he (h _ _ hv)
  exact ⟨a, read?_of_get? hv (decodeWhole_lawful hf a)⟩

section
variable {s : Snapshot} (h : s.Conforms configured periods)
include h

theorem Conforms.exists_keeper (hs : s.Has Key.keeper) : ∃ pk, s.keeper = .ok pk := by
  obtain ⟨pk, hpk⟩ := h.exists_read? (α := PublicKey) (·.eq_keeper rfl) (by decide) hs
  exact ⟨pk, read_of_read? hpk⟩

theorem Conforms.exists_previousKeeper : ∃ previous, s.previousKeeper = .ok previous := by
  by_cases hs : s.Has Key.keeper
  · obtain ⟨pk, hpk⟩ := h.exists_read? (α := PublicKey) (·.eq_keeper rfl) (by decide) hs
    exact ⟨some pk, hpk⟩
  · exact ⟨none, read?_of_absent hs⟩

theorem Conforms.exists_randomness (hs : s.Has Key.randomness) :
    ∃ value, s.randomness = .ok value := by
  obtain ⟨v, hv⟩ := h.exists_read? (α := Randomness) (·.eq_randomness rfl) (by decide) hs
  exact ⟨v, read_of_read? hv⟩

theorem Conforms.exists_finalTx (hs : s.Has Key.finalTx) : ∃ tx, s.finalTx = .ok tx := by
  obtain ⟨tx, htx⟩ := h.exists_read? (α := TxHash) (·.eq_finalTx rfl) (by decide) hs
  exact ⟨tx, read_of_read? htx⟩

theorem Conforms.exists_signatures (hs : s.Has Key.signatures) :
    ∃ sigs, s.signatures = .ok sigs := by
  obtain ⟨value, hv⟩ := hs
  obtain ⟨sigs, hle, rfl⟩ := (h _ _ hv).eq_signatures rfl
  exact ⟨sigs, read_of_read? (read?_of_get? hv (decodeWhole_map hle (by decide)))⟩

end

theorem Conforms.exists_periodCount {s : Snapshot} (h : s.Conforms configured periods) :
    ∃ n, s.periodCount = .ok n ∧ n.toNat ≤ periods := by
  by_cases hs : s.Has Key.periodCount
  · obtain ⟨value, hv⟩ := hs
    obtain ⟨n, hn, rfl⟩ := (h _ _ hv).eq_periodCount rfl
    exact ⟨n, readOr_of_read? (read?_of_get? hv (decodeWhole_lawful (by decide) n)) 0, hn⟩
  · exact ⟨0, readOr_of_read? (read?_of_absent hs) 0, Nat.zero_le _⟩

end Snapshot

end Quorum
