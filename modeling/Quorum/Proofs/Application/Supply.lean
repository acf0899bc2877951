import Quorum.Proofs.Application.Restart
import Quorum.Proofs.Application.Safety
import Quorum.Proofs.Behaviour.Reading
import Quorum.Proofs.Round.Writes

/-!
# Behaviours find the data that they read

* `SafeTx.MadeOf` : the period count, the keeper and the randomness of a transaction are those of the
  agreed data; this is when the agreed data calls for it (`SafeTx.ofSnapshot_eq_ok_iff`);
* `Conforms.supplies` : data with the keys that a kind of round needs decodes all that its behaviour
  reads;
* `Step.has`, `Coherent.has_afterBlocks` : a key stays in the agreed data once it is written;
* `behaviours_supplied` : so the behaviour of a round that runs finds what it reads, then and after
  any further blocks.
-/

namespace Quorum

open Snapshot

/-! ## What a round needs -/

/-- A transaction is made of what the agreed data holds. -/
structure SafeTx.MadeOf (tx : SafeTx) (s : Snapshot) : Prop where
  periodCount : s.periodCount = .ok tx.periodCount
  keeper : s.keeper = .ok tx.keeper
  randomness : s.randomness = .ok tx.randomness

theorem SafeTx.ofSnapshot_eq_ok_iff {s : Snapshot} {tx : SafeTx} :
    SafeTx.ofSnapshot s = .ok tx ↔ tx.MadeOf s := by
  unfold SafeTx.ofSnapshot
  constructor
  · intro h
    obtain ⟨periods, hperiods, h⟩ := bind_eq_ok.1 h
    obtain ⟨keeper, hkeeper, h⟩ := bind_eq_ok.1 h
    obtain ⟨value, hvalue, h⟩ := bind_eq_ok.1 h
    cases h
    exact ⟨hperiods, hkeeper, hvalue⟩
  · rintro ⟨hperiods, hkeeper, hvalue⟩
    rw [hperiods, hkeeper, hvalue]
    rfl

namespace Snapshot

variable {s : Snapshot} {configured : PeerSet} {periods : Nat}

theorem Conforms.exists_safeTx (h : s.Conforms configured periods) (hk : s.Has Key.keeper)
    (hr : s.Has Key.randomness) : ∃ t, SafeTx.ofSnapshot s = .ok t := by
  obtain ⟨n, hn, -⟩ := h.exists_periodCount
  obtain ⟨pk, hpk⟩ := h.exists_keeper hk
  obtain ⟨value, hvalue⟩ := h.exists_randomness hr
  exact ⟨⟨_, pk, value⟩, SafeTx.ofSnapshot_eq_ok_iff.2 ⟨hn, hpk, hvalue⟩⟩

/-- The keys that a round needs are those that its behaviour reads. -/
theorem Conforms.supplies (h : s.Conforms configured periods)
    (hle : configured.size ≤ PeerCount.limit) {k : RoundKind} (hn : ∀ key ∈ k.needs, s.Has key) :
    s.Supplies k := by
  cases k with
  | selectKeeper =>
    have hp := h.read?_participants hle (hn _ (by decide))
    exact ⟨⟨_, read_of_read? hp⟩, h.exists_randomness (hn _ (by decide)), h.exists_previousKeeper⟩
  | collectSignature => exact h.exists_safeTx (hn _ (by decide)) (hn _ (by decide))
  | finalization =>
    exact ⟨h.exists_keeper (hn _ (by decide)),
      h.exists_safeTx (hn _ (by decide)) (hn _ (by decide)), h.exists_signatures (hn _ (by decide))⟩
  | validateTransaction => exact h.exists_finalTx (hn _ (by decide))
  | _ => trivial

end Snapshot

namespace Application

variable {a a' : Application} {b : Block} {bs : List Block} {key : String}

/-! ## Keys stay -/

theorem Succeeds.has {r next : Round} {data : Snapshot} {event : Event} {roundCount : RoundCount}
    {target : RoundKind} (hs : a.Succeeds b r data event roundCount target next) (h : a.Coherent)
    (hr : a.Hosts r) (hk : a.data.Has key) : data.Has key := by
  obtain ⟨u, hver, hu⟩ := hs.verdict
  exact hk.update (h.fits_of_verdict hr hver) hu

theorem Step.has {t : Option Transition} (hs : Step a b a' t) (h : a.Coherent)
    (hk : a.data.Has key) : a'.data.Has key := by
  cases hs with
  | finished | waits => exact hk
  | terminates hf hbg hs => exact hs.has h (h.hosts_background hbg) hk
  | moves hf hbg hu hs => exact hs.has h h.hosts_current hk

theorem Coherent.has_afterBlocks (h : a.Coherent) (hk : a.data.Has key)
    (hin : InOrder a.height.toNat bs) : (a.afterBlocks bs).data.Has key :=
  (h.run_induction (P := fun _ x => x.data.Has key) hk
    (fun _ _ _ _ _ hcoh _ _ hs hhas => hs.has hcoh hhas) hin).1

/-- The data supplies a round that runs, then and after any further blocks. -/
theorem Coherent.supplies_afterBlocks (h : a.Coherent) {r : Round} (hr : r ∈ a.rounds)
    (hin : InOrder a.height.toNat bs) : (a.afterBlocks bs).data.Supplies r.kind := by
  obtain ⟨h', -⟩ := h.afterBlocks hin
  have hneeds : ∀ key ∈ r.kind.needs, a.data.Has key := by
    rcases List.mem_cons.1 hr with rfl | hr
    · exact h.needs
    · exact (h.hosts_background (Option.mem_toList.1 hr)).needs
  exact h'.conforms.supplies h'.bounded fun key hkey => h.has_afterBlocks (hneeds key hkey) hin

/-- **Behaviours find the data that they read.** In every run from the start the agreed data decodes
all that the behaviour of the current round reads, and the behaviour of a round that runs never
fails to read, if what it gets for the agreed data is that of this or a later moment of the run. -/
theorem behaviours_supplied {params : AppParams} (hstart : start params = .ok a)
    (hin : InOrder 0 bs) :
    (a.afterBlocks bs).data.Supplies (a.afterBlocks bs).current.kind ∧
      ∀ r ∈ (a.afterBlocks bs).rounds, ∀ k, BehaviourKind.ofRound? r.kind = some k →
        ∀ p key st, Stage.Reached p key (fun s => ∃ more, InOrder 0 (bs ++ more) ∧
            s = (a.afterBlocks (bs ++ more)).data) k st →
          ∀ e, Stage.step p key st ≠ .done (.error (.snapshot e)) := by
  obtain ⟨h, hheight, -⟩ := coherent_of_start hstart hin
  have hnil : InOrder (a.afterBlocks bs).height.toNat [] := trivial
  refine ⟨h.supplies_afterBlocks List.mem_cons_self hnil, ?_⟩
  intro r hr k hk p key st hst
  refine hst.not_failed (BehaviourKind.ofRound?_eq_some_iff.1 hk) ?_
  rintro s ⟨more, hmore, rfl⟩
  rw [afterBlocks_append]
  refine h.supplies_afterBlocks hr ?_
  rw [hheight, ← Nat.zero_add bs.length]
  exact (inOrder_append.1 hmore).2

/-! ## A peer that chooses the keeper -/

/-- A block with one submission that counts. -/
theorem Coherent.processBlock_of_routed (h : a.Coherent) (hf : a.isFinished = false)
    (hb : b.height.toNat = a.height.toNat + 1) {s : Submission} {p : Payload}
    (hsub : b.submissions = [s]) (hs : s.open = .ok p) (hp : a.routePayload p = .ok a') :
    (a.processBlock b).1 =
      (({ a' with height := b.height } : Application).endBlock b.height).1 := by
  rw [processBlock_of_running h.apart hf hb]
  unfold Application.received
  rw [hsub, collectAll_of_routed h.apart hs hp]

/-- The value of the beacon that the first peer has seen. -/
def beaconVote : Submission where
  payload := Wire.encode (⟨firstPeer, Counter.ofNat 1, .randomness 1 Octets.zero⟩ : Payload)
  sig := ⟨Bytes.ofNatBE 64 0x514c42ab534cc047ed0c937626eacb7841646206d1202d7bca4c96b6617a663c23b7dd11bf542402cf9c012bc496aa9e4b5fafd54a719d93fbf527ef1800270a,
    Bytes.length_ofNatBE 64 _⟩

theorem open_beaconVote :
    beaconVote.open = .ok ⟨firstPeer, Counter.ofNat 1, .randomness 1 Octets.zero⟩ := by
  decide +kernel

def soloBlock : Block := Block.first [firstRegistration]

def beaconBlock : Block := ⟨Counter.ofNat 2, soloBlock.hash, [beaconVote]⟩

/-- The service of the first peer alone after it has registered. -/
def soloRegistered : Application :=
  (({ initial soloParams with
    current := (initial soloParams).current.count ⟨firstPeer, Counter.zero, .registration⟩
    height := Counter.ofNat 1 } : Application).endBlock (Counter.ofNat 1)).1

theorem afterBlocks_soloBlock : (initial soloParams).afterBlocks [soloBlock] = soloRegistered := by
  have h := coherent_initial_solo
  have hroute : (initial soloParams).routePayload ⟨firstPeer, Counter.zero, .registration⟩ =
      .ok { initial soloParams with current :=
        (initial soloParams).current.count ⟨firstPeer, Counter.zero, .registration⟩ } := by
    decide +kernel
  rw [← List.nil_append [soloBlock], afterBlocks_concat, afterBlocks_nil,
    h.processBlock_of_routed rfl rfl rfl opened_pair.1 hroute]
  rfl

theorem kind_beaconBlock : ((initial soloParams).afterBlocks
    ([soloBlock] ++ [beaconBlock])).current.kind = .selectKeeper := by
  have h := coherent_initial_solo
  have hin : InOrder (initial soloParams).height.toNat [soloBlock] := ⟨rfl, trivial⟩
  obtain ⟨h', -⟩ := h.afterBlocks hin
  rw [afterBlocks_concat, afterBlocks_soloBlock]
  rw [afterBlocks_soloBlock] at h'
  have hroute : soloRegistered.routePayload
      ⟨firstPeer, Counter.ofNat 1, .randomness 1 Octets.zero⟩ =
      .ok { soloRegistered with
        current := soloRegistered.current.count
          ⟨firstPeer, Counter.ofNat 1, .randomness 1 Octets.zero⟩ } := by decide +kernel
  rw [h'.processBlock_of_routed (by decide +kernel) (by decide +kernel) rfl open_beaconVote hroute]
  decide +kernel

/-- After two blocks the only peer chooses the keeper, and finds the data that it needs. -/
theorem behaviours_supplied_of_one :
    ((initial soloParams).afterBlocks ([soloBlock] ++ [beaconBlock])).data.Supplies .selectKeeper ∧
      (Stage.choose .standard ((initial soloParams).afterBlocks
        ([soloBlock] ++ [beaconBlock])).data).step .standard Octets.zero ≠
          .done (.error (.snapshot (.keyNotFound Key.randomness))) := by
  have hin : InOrder 0 ([soloBlock] ++ [beaconBlock]) := ⟨rfl, rfl, trivial⟩
  have hkind := kind_beaconBlock
  have h := behaviours_supplied start_solo hin
  rw [hkind] at h
  refine ⟨h.1, h.2 _ List.mem_cons_self .selectKeeper (by rw [hkind]; rfl) _ _ _ ?_ _⟩
  have hfirst (published : Snapshot → Prop) :
      Stage.Reached .standard Octets.zero published .selectKeeper .choosing := .start
  refine (hfirst _).read rfl ⟨[], ?_, ?_⟩
  · rwa [List.append_nil]
  · rw [List.append_nil]

end Application

end Quorum
