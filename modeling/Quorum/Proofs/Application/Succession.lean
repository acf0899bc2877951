import Quorum.Application.Basic
import Quorum.Proofs.Round.Verdict

/-!
# The round that follows

* `RoundKind.needs` : the keys that stand in the snapshot when a kind of round runs;
* `RoundKind.Follows` : what holds of the round that follows on an update;
* `edge_of_target` : the bundled table leads along the bundled edges only;
* `Verdict.leads` : the bundled table has a round for every verdict, and it may follow;
* `Verdict.fits` : a verdict writes nothing but values of the rounds;
* `RoundKind.asked` : the peers that a round asks;
* `exists_instantiate` : so the round that follows can always be started.
-/

namespace Quorum

open Snapshot

namespace RoundKind

/-! ## Needs -/

/-- The keys that stand in the snapshot when a kind of round runs in the bundled application. -/
def needs : RoundKind → List String
  | registrationStartup | termination => []
  | randomness => [Key.participants]
  | selectKeeper => [Key.participants, Key.randomness, Key.randomnessRound]
  | collectSignature => [Key.participants, Key.randomness, Key.randomnessRound, Key.keeper]
  | finalization =>
    [Key.participants, Key.randomness, Key.randomnessRound, Key.keeper, Key.signatures]
  | validateTransaction =>
    [Key.participants, Key.randomness, Key.randomnessRound, Key.keeper, Key.signatures,
      Key.finalTx]
  | terminated => [Key.terminationReached, Key.terminationTx]

/-- The round `target` may follow `source` once some keys are written: it runs in the foreground, it
is the last one exactly after termination, and what it needs was there or is written. -/
structure Follows (source : RoundKind) (written : List String) (target : RoundKind) : Prop where
  foreground : target ≠ termination
  started : target ≠ registrationStartup
  isTerminal : target.isTerminal = true ↔ source = termination
  needs : ∀ key ∈ target.needs, key ∈ source.needs ∨ key ∈ written

theorem keeper_mem_needs {k : RoundKind} (h : k.strategy = .onlyKeeperSends) :
    Key.keeper ∈ k.needs := by
  rw [strategy_eq_onlyKeeperSends.1 h]
  decide

/-- The bundled table leads from a round on an event to a round that may follow. -/
def Leads (source : RoundKind) (written : List String) (e : Event) : Prop :=
  ∀ t, Table.bundled = .ok t → ∃ k, t.target source e = .ok k ∧ source.Follows written k

theorem leads_to {source : RoundKind} (target : RoundKind) (written : List String)
    {e : Event}
    (ht : (⟨registrationStartup, Table.bundledEdges, some Table.bundledBackground⟩ : Table).target
      source e = .ok target) (hf : source.Follows written target) : source.Leads written e := by
  intro t h
  rw [Table.bundled_eq] at h
  cases h
  exact ⟨target, ht, hf⟩

/-- The bundled table leads along the bundled edges only. -/
theorem edge_of_target {table : Table} (ht : Table.bundled = .ok table) {k target : RoundKind}
    {e : Event} (hk : table.target k e = .ok target) :
    ⟨k, e, target⟩ ∈ Table.bundledBackground :: Table.bundledEdges := by
  rw [Table.bundled_eq] at ht
  cases ht
  unfold Table.target at hk
  split at hk
  · rename_i edge hf
    obtain ⟨hedge, hp⟩ := Option.filter_eq_some_iff.1 hf
    cases hedge
    cases hk
    rw [Bool.and_eq_true, decide_eq_true_eq, decide_eq_true_eq] at hp
    obtain ⟨rfl, rfl⟩ := hp
    exact List.mem_cons_self
  · cases hfind : Table.find? Table.bundledEdges k e with
    | none =>
      rw [hfind] at hk
      cases hk
    | some next =>
      rw [hfind] at hk
      cases hk
      obtain ⟨edge, hedge, rfl⟩ := Option.map_eq_some_iff.1 hfind
      have hp := List.find?_some hedge
      rw [Bool.and_eq_true, decide_eq_true_eq, decide_eq_true_eq] at hp
      obtain ⟨rfl, rfl⟩ := hp
      exact List.mem_cons_of_mem _ (List.mem_of_find?_eq_some hedge)

theorem target_of_termination {table : Table} (ht : Table.bundled = .ok table) {e : Event}
    {target : RoundKind} (hk : table.target termination e = .ok target) : target = terminated := by
  have hall : ∀ edge ∈ Table.bundledBackground :: Table.bundledEdges,
      edge.source = termination → edge.target = terminated := by decide
  exact hall _ (edge_of_target ht hk) rfl

theorem Settles.leads {data : Snapshot} {k : RoundKind} {v : Vote} {u : Update} {e : Event}
    (h : Settles data k v u e) : k.Leads (u.map (·.1)) e := by
  cases h with
  | randomness =>
    exact leads_to .selectKeeper [Key.randomness, Key.randomnessRound] rfl
      (by constructor <;> decide)
  | selectKeeper => exact leads_to .collectSignature [Key.keeper] rfl (by constructor <;> decide)
  | finalized => exact leads_to .validateTransaction [Key.finalTx] rfl (by constructor <;> decide)
  | unfinalized => exact leads_to .selectKeeper [] rfl (by constructor <;> decide)
  | validated => exact leads_to .randomness [Key.periodCount] rfl (by constructor <;> decide)
  | refuted => exact leads_to .selectKeeper [] rfl (by constructor <;> decide)
  | terminated =>
    exact leads_to .terminated [Key.terminationReached, Key.terminationTx] rfl
      (by constructor <;> decide)

theorem leads_noMajority {k : RoundKind} (h : k.emits .noMajority = true) :
    k.Leads [] .noMajority := by
  cases k with
  | randomness => exact leads_to .randomness [] rfl (by constructor <;> decide)
  | _ => cases h

/-- Rounds before a keeper is chosen start over with randomness, later ones with the choice. -/
theorem leads_roundTimeout {k : RoundKind} (h : k.emits .roundTimeout = true) :
    k.Leads [] .roundTimeout := by
  cases k with
  | randomness | selectKeeper | collectSignature =>
    exact leads_to .randomness [] rfl (by constructor <;> decide)
  | finalization | validateTransaction =>
    exact leads_to .selectKeeper [] rfl (by constructor <;> decide)
  | _ => cases h

theorem toNat_add_one_le (n : UInt64) : (n + 1).toNat ≤ n.toNat + 1 := by
  rw [UInt64.toNat_add]
  exact Nat.mod_le _ _

theorem Settles.fits {data : Snapshot} {k : RoundKind} {v : Vote} {u : Update} {e : Event}
    {configured : PeerSet} {periods : Nat} (h : Settles data k v u e)
    (hp : ∀ n, data.periodCount = .ok n → n.toNat ≤ periods) :
    u.Fits configured (periods + 1) := by
  cases h with
  | randomness round value => exact .two (.randomness value) (.randomnessRound round)
  | selectKeeper pk => exact .one (.keeper pk)
  | finalized tx => exact .one (.finalTx tx)
  | validated n hn =>
    exact .one (.periodCount _ (Nat.le_trans (toNat_add_one_le n) (Nat.succ_le_succ (hp n hn))))
  | terminated tx => exact .two (.terminationReached true) (.terminationTx tx)
  | unfinalized | refuted => exact .nil

end RoundKind

/-! ## Verdicts -/

namespace Round

variable {r : Round} {data : Snapshot} {height : Height} {timeout : UInt64} {u : Update} {e : Event}

/-- The bundled table has a round for every verdict. -/
theorem Verdict.leads (h : r.Verdict data height timeout u e) : r.kind.Leads (u.map (·.1)) e := by
  cases h with
  | agreed _ _ _ settles => exact settles.leads
  | registered kind =>
    rw [kind]
    exact RoundKind.leads_to .randomness [Key.participants] rfl (by constructor <;> decide)
  | signed kind =>
    rw [kind]
    exact RoundKind.leads_to .finalization [Key.signatures] rfl (by constructor <;> decide)
  | noMajority kind => exact RoundKind.leads_noMajority kind
  | timeout late =>
    unfold timedOut at late
    rw [Bool.and_eq_true] at late
    exact RoundKind.leads_roundTimeout late.1

/-- The keys of a map whose values all come from the payloads are senders of payloads. -/
theorem WellFormed.size_signatures_le (h : r.WellFormed) {sigs : SortedMap PublicKey Signature}
    (hs : ∀ pk sig, sigs.get? pk = some sig ↔
      ∃ p, r.payloads.get? pk = some p ∧ p.vote = .signature sig) :
    sigs.size ≤ PeerCount.limit := by
  have hsub : sigs.keys ⊆ r.payloads.keys := fun pk hpk => by
    obtain ⟨sig, hsig⟩ := SortedMap.mem_keys_iff.1 hpk
    obtain ⟨p, hp, -⟩ := (hs pk sig).1 hsig
    exact SortedMap.mem_keys_iff.2 ⟨p, hp⟩
  have hle := sigs.nodup_keys.length_le_of_subset hsub
  rw [SortedMap.length_keys, SortedMap.length_keys] at hle
  exact Nat.le_trans hle (Nat.le_trans h.size_le h.bounded)

/-- A verdict writes nothing but values of the rounds. -/
theorem Verdict.fits {configured : PeerSet} {periods : Nat} (h : r.Verdict data height timeout u e)
    (hw : r.WellFormed) (hr : r.kind = .registrationStartup → r.participants = configured)
    (hp : ∀ n, data.periodCount = .ok n → n.toNat ≤ periods) :
    u.Fits configured (periods + 1) := by
  cases h with
  | agreed _ _ _ settles => exact settles.fits hp
  | registered kind all =>
    rw [hw.ofList_keys all, hr kind]
    exact .one .participants
  | signed _ _ get => exact .one (.signatures _ (hw.size_signatures_le get))
  | noMajority | timeout => exact .nil

end Round

/-! ## Whom a round asks -/

/-- The peers that a round asks: registration the configured ones, the others those that were agreed
on, if any were. -/
def RoundKind.asked (k : RoundKind) (data : Snapshot) (configured : PeerSet) : PeerSet :=
  if k = .registrationStartup then configured
  else if (data.db.get? Key.participants).isSome then PeerSet.ofList configured.peers
  else configured

section
variable {data : Snapshot} {configured : PeerSet} {periods : Nat}

theorem RoundKind.participants_eq (k : RoundKind) (h : data.Conforms configured periods)
    (hle : configured.size ≤ PeerCount.limit) :
    k.participants data configured = .ok (k.asked data configured) := by
  unfold participants asked
  by_cases hk : k = .registrationStartup
  · rw [if_pos hk, if_pos hk]
  · rw [if_neg hk, if_neg hk]
    by_cases hs : (data.db.get? Key.participants).isSome = true
    · rw [if_pos hs, readOr_of_read? (h.read?_participants hle (Option.isSome_iff_exists.1 hs))]
      rfl
    · have hn : ¬ data.Has Key.participants := mt Option.isSome_iff_exists.2 hs
      rw [if_neg hs, readOr_of_read? (read?_of_absent hn)]
      rfl

theorem RoundKind.asked_bounds (k : RoundKind) (data : Snapshot)
    (hne : configured.peers ≠ []) (hle : configured.size ≤ PeerCount.limit) :
    (k.asked data configured).peers ≠ [] ∧
      (k.asked data configured).size ≤ PeerCount.limit := by
  have hof : (PeerSet.ofList configured.peers).peers ≠ [] := fun hnil => by
    obtain ⟨p, hp⟩ := List.exists_mem_of_ne_nil _ hne
    have := PeerSet.mem_ofList.2 hp
    rw [hnil] at this
    cases this
  unfold asked
  split_ifs
  · exact ⟨hne, hle⟩
  · exact ⟨hof, Nat.le_trans (PeerSet.size_ofList_le _) hle⟩
  · exact ⟨hne, hle⟩

/-- **A round whose needs are met can be started.** -/
theorem exists_instantiate {params : AppParams} {k : RoundKind}
    (h : data.Conforms params.participants periods)
    (hne : params.participants.peers ≠ []) (hle : params.participants.size ≤ PeerCount.limit)
    (hn : ∀ key ∈ k.needs, data.Has key) (roundCount : RoundCount) (height : Height) :
    ∃ keeper, k.keeper? data = .ok keeper ∧
      (k.strategy = .onlyKeeperSends → ∃ pk, keeper = some pk) ∧
      Application.instantiate params data k roundCount height =
        .ok (Round.fresh k roundCount (k.asked data params.participants) keeper height false) := by
  obtain ⟨keeper, hk, hsome⟩ : ∃ keeper, k.keeper? data = .ok keeper ∧
      (k.strategy = .onlyKeeperSends → ∃ pk, keeper = some pk) := by
    unfold RoundKind.keeper?
    by_cases hs : k.strategy = .onlyKeeperSends
    · obtain ⟨pk, hpk⟩ := h.exists_keeper (hn _ (RoundKind.keeper_mem_needs hs))
      rw [if_pos hs, hpk]
      exact ⟨some pk, rfl, fun _ => ⟨pk, rfl⟩⟩
    · rw [if_neg hs]
      exact ⟨none, rfl, fun hs' => absurd hs' hs⟩
  obtain ⟨hane, hale⟩ := k.asked_bounds data hne hle
  refine ⟨keeper, hk, hsome, ?_⟩
  unfold Application.instantiate
  rw [k.participants_eq h hle, hk]
  show (Round.start k roundCount _ keeper height false).mapError _ = _
  rw [Round.start_eq hane hale]
  rfl

end

end Quorum
