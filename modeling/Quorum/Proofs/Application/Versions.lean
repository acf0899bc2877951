import Quorum.Proofs.Application.Advance
import Quorum.Proofs.Application.Evidence
import Quorum.Proofs.Application.SideBySide
import Quorum.Proofs.Snapshot.History

/-!
# Versions, round counts and the history

* `Application.Opened` : the ways in which an application comes about, and the version and the round
  count that it begins with;
* `Application.Published` : the snapshots that a run has published, and what they say about the
  application after it;
* `Published.step`, `exists_published` : every run that does not fail publishes one more snapshot
  with each transition;
* `counters_in_step` : so the version, the round count and the history are known from the number of
  transitions.
-/

namespace Quorum

theorem Numbered.version_last {first : Nat} {ps : List Snapshot} (h : Numbered first ps)
    {s : Snapshot} (hs : ps.getLast? = some s) : s.version.toNat + 1 = first + ps.length := by
  obtain ⟨qs, rfl⟩ := List.getLast?_eq_some_iff.1 hs
  have hlast := congrArg List.getLast? h
  simp [List.range'_concat] at hlast
  simp [hlast]
  omega

namespace Application

/-- An application comes about with a version and a round count. -/
inductive Opened (params : AppParams) : Version → RoundCount → Application → Prop
  | started {a : Application} (h : start params = .ok a) :
    Opened params Counter.zero Counter.zero a
  | startedWith {table : Table} {a : Application} (h : startWith params table = .ok a) :
    Opened params Counter.zero Counter.zero a
  | restored {c : Checkpoint} {a : Application} (h : restore params c = .ok a) :
    Opened params c.data.version c.roundCount a

variable {params : AppParams} {a x : Application} {bs : List Block} {b : Block}
  {os : List BlockOutcome} {o : BlockOutcome} {k : Nat} {ps : List Snapshot}

theorem of_restoreWith {table : Table} {c : Checkpoint} (h : restoreWith params table c = .ok a) :
    a.data = c.data ∧ a.roundCount = c.roundCount ∧
      a.history = History.start c.data params.historyLength := by
  unfold restoreWith at h
  obtain ⟨current, -, h⟩ := bind_eq_ok.1 h
  obtain ⟨bg, rfl⟩ := refreshBackground_of_ok h
  exact ⟨rfl, rfl, rfl⟩

theorem Opened.begins {v : Version} {c : RoundCount} (h : Opened params v c a) :
    a.data.version = v ∧ a.roundCount = c ∧
      a.history = History.start a.data params.historyLength := by
  have begins {table : Table} {c : Checkpoint} (h : restoreWith params table c = .ok a) :
      a.data.version = c.data.version ∧ a.roundCount = c.roundCount ∧
        a.history = History.start a.data params.historyLength := by
    obtain ⟨hdata, hcount, hhistory⟩ := of_restoreWith h
    exact ⟨congrArg _ hdata, hcount, hdata ▸ hhistory⟩
  cases h with
  | started h =>
    unfold start at h
    obtain ⟨table, -, h⟩ := bind_eq_ok.1 h
    exact begins h
  | startedWith h => exact begins h
  | restored h =>
    unfold restore at h
    obtain ⟨table, -, h⟩ := bind_eq_ok.1 h
    exact begins h

/-! ## Runs -/

/-- What holds before the first block and is kept by every block that is applied holds after every
run that does not fail. -/
theorem outcomes_induction {P : List Block → List BlockOutcome → Prop} (h0 : P [] [])
    (hstep : ∀ bs b os o x, (a.afterBlocks bs).processBlock b = (x, .ok o) → P bs os →
      P (bs ++ [b]) (os ++ [o])) (hrun : a.outcomes bs = os.map .ok) : P bs os := by
  induction bs using List.reverseRecOn generalizing os with
  | nil =>
    rw [List.map_eq_nil_iff.1 hrun.symm]
    exact h0
  | append_singleton bs b ih =>
    rw [outcomes_concat, eq_comm, List.map_eq_append_iff] at hrun
    obtain ⟨os, rest, rfl, hos, hrest⟩ := hrun
    obtain ⟨o, rest, rfl, ho, hnil⟩ := List.map_eq_cons_iff.1 hrest
    rw [List.map_eq_nil_iff] at hnil
    subst hnil
    exact hstep bs b os o _ (Prod.ext rfl ho.symm) (ih hos.symm)

/-- The snapshots that a run has published in some number of transitions, the oldest one first. -/
structure Published (a : Application) (bs : List Block) (transitions : Nat) (ps : List Snapshot) :
    Prop where
  length : ps.length = transitions + 1
  numbered : Numbered a.data.version.toNat ps
  mem_iff : ∀ s, s ∈ ps ↔ ∃ pre, pre <+: bs ∧ (a.afterBlocks pre).data = s
  last : ps.getLast? = some (a.afterBlocks bs).data
  recalls : (a.afterBlocks bs).history.Recalls ps
  capacity : (a.afterBlocks bs).history.capacity = a.history.capacity
  roundCount : (a.afterBlocks bs).roundCount.toNat = a.roundCount.toNat + transitions

theorem published_nil (h : a.history.Recalls [a.data]) : Published a [] 0 [a.data] where
  length := rfl
  numbered := rfl
  mem_iff s := by
    simp only [List.mem_singleton, List.prefix_nil]
    exact ⟨fun hs => ⟨[], rfl, hs.symm⟩, fun ⟨pre, hpre, hs⟩ => by rw [← hs, hpre]; rfl⟩
  last := rfl
  recalls := h
  capacity := rfl
  roundCount := rfl

theorem Published.version (h : Published a bs k ps) :
    (a.afterBlocks bs).data.version.toNat = a.data.version.toNat + k := by
  have := h.numbered.version_last h.last
  have := h.length
  omega

/-- The data after one more block is either published already, or with the block. -/
theorem exists_prefix_concat {s : Snapshot} :
    (∃ pre, pre <+: bs ++ [b] ∧ (a.afterBlocks pre).data = s) ↔
      (∃ pre, pre <+: bs ∧ (a.afterBlocks pre).data = s) ∨ (a.afterBlocks (bs ++ [b])).data = s := by
  simp only [List.prefix_concat_iff, or_and_right, exists_or, exists_eq_left]
  exact or_comm

/-- **With each transition one more snapshot is published.** -/
theorem Published.step (h : Published a bs k ps)
    (hproc : (a.afterBlocks bs).processBlock b = (x, .ok o)) :
    ∃ ps', Published a (bs ++ [b]) (k + o.transition.toList.length) ps' := by
  have hx : a.afterBlocks (bs ++ [b]) = x := by rw [afterBlocks_concat, hproc]
  obtain ⟨hadvance, -⟩ := processBlock_advances hproc
  generalize o.transition = t at *
  cases hadvance with
  | stays same =>
    refine ⟨ps, h.length, h.numbered, fun s => ?_, ?_, ?_, ?_, ?_⟩
    · have hmem : (a.afterBlocks bs).data ∈ ps := List.mem_of_getLast? h.last
      rw [exists_prefix_concat, ← h.mem_iff, hx, same.data]
      exact ⟨.inl, fun hs => hs.elim id fun hs => hs ▸ hmem⟩
    · rw [hx, same.data, h.last]
    · rw [hx, same.history]
      exact h.recalls
    · rw [hx, same.history, h.capacity]
    · rw [hx, same.roundCount]
      exact h.roundCount
  | moves hm =>
    have hversion : x.data.version.toNat = a.data.version.toNat + ps.length := by
      have := hm.revises.version
      have := h.version
      have := h.length
      omega
    refine ⟨ps ++ [x.data], ?_, h.numbered.concat hversion, fun s => ?_, ?_, ?_, ?_, ?_⟩
    · simp [h.length]
    · rw [exists_prefix_concat, ← h.mem_iff, hx]
      simp [eq_comm]
    · rw [hx, List.getLast?_concat]
    · rw [hx, hm.history]
      exact h.recalls.push h.numbered hversion
    · rw [hx, hm.history]
      exact h.capacity
    · rw [hx, ← hm.roundCount, Counter.next?_eq_some.1 hm.counts, h.roundCount]
      rfl

theorem exists_published (h : a.history.Recalls [a.data]) (hrun : a.outcomes bs = os.map .ok) :
    ∃ ps, Published a bs (os.filterMap BlockOutcome.transition).length ps := by
  refine outcomes_induction (P := fun bs os =>
    ∃ ps, Published a bs (os.filterMap BlockOutcome.transition).length ps)
    ⟨_, published_nil h⟩ ?_ hrun
  rintro bs b os o x hproc ⟨ps, hps⟩
  obtain ⟨ps', hps'⟩ := hps.step hproc
  have hlength : ((os ++ [o]).filterMap BlockOutcome.transition).length =
      (os.filterMap BlockOutcome.transition).length + o.transition.toList.length := by
    rw [List.filterMap_append, List.length_append]
    cases ho : o.transition <;> simp [ho]
  rw [hlength]
  exact ⟨ps', hps'⟩

/-- **Versions, round counts and the history stay in step.** After a run of blocks that are applied
without an error, with `k` transitions, the version and the round count have grown by `k`, every
transition has reported them as they were after it, and the history holds the last of the snapshots
that were the agreed data during the run, as many as it has room for, under their versions. -/
theorem counters_in_step {v₀ : Version} {c₀ : RoundCount} (hopened : Opened params v₀ c₀ a)
    (hrun : a.outcomes bs = os.map .ok) (hk : (os.filterMap BlockOutcome.transition).length = k) :
    (a.afterBlocks bs).data.version.toNat = v₀.toNat + k ∧
      (a.afterBlocks bs).roundCount.toNat = c₀.toNat + k ∧
      (∀ pre b o t, pre ++ [b] <+: bs → ((a.afterBlocks pre).processBlock b).2 = .ok o →
        o.transition = some t → t.version = (a.afterBlocks (pre ++ [b])).data.version ∧
          t.roundCount = (a.afterBlocks (pre ++ [b])).roundCount) ∧
      ∀ kept, kept = min (max params.historyLength 1) (k + 1) →
        (a.afterBlocks bs).history.versions.map Counter.toNat =
          List.range' (v₀.toNat + k + 1 - kept) kept ∧
        (∀ v s, (a.afterBlocks bs).history.get? v = some s ↔
          s.version = v ∧ v₀.toNat + k < v.toNat + kept ∧
            ∃ pre, pre <+: bs ∧ (a.afterBlocks pre).data = s) ∧
        (a.afterBlocks bs).history.latest? = some (a.afterBlocks bs).data := by
  obtain ⟨rfl, rfl, hhistory⟩ := hopened.begins
  have hstart : a.history.Recalls [a.data] := by
    rw [hhistory]
    exact History.recalls_start _ _
  obtain ⟨ps, hps⟩ := exists_published hstart hrun
  rw [hk] at hps
  have hcap : (a.afterBlocks bs).history.capacity = max params.historyLength 1 := by
    rw [hps.capacity, hhistory]
    rfl
  have hlen := hps.length
  refine ⟨hps.version, hps.roundCount, fun pre b o t _ ho ht => ?_, fun kept hkept =>
    ⟨?_, fun v s => ?_, ?_⟩⟩
  · obtain ⟨hadvance, -⟩ := processBlock_advances (b := b) (Prod.ext rfl ho)
    rw [ht] at hadvance
    cases hadvance with
    | moves hm =>
      rw [afterBlocks_concat]
      exact ⟨hm.version, hm.roundCount⟩
  · rw [hps.recalls.versions_eq hps.numbered, hcap, hlen, hkept]
    congr 1
    omega
  · rw [hps.recalls.get?_eq_some_iff hps.numbered, hps.mem_iff, hcap, hlen, hkept]
    have hroom : a.data.version.toNat + (k + 1 - max params.historyLength 1) ≤ v.toNat ↔
        a.data.version.toNat + k < v.toNat + min (max params.historyLength 1) (k + 1) := by omega
    rw [hroom]
    exact and_congr_right fun _ => and_comm
  · exact hps.recalls.latest?_eq (by omega) hps.last

/-! ## A history with room for one snapshot -/

/-- A service of one peer that keeps one snapshot, in a round that is out of time at once. -/
def brief : AppParams := { soloParams with roundTimeout := 0, historyLength := 1 }

/-- The service waits for randomness for the third time. -/
def thirdAttempt : Checkpoint where
  data := ⟨Counter.ofNat 3, SortedMap.empty⟩
  round := .randomness
  previous := some .randomness
  roundCount := Counter.ofNat 3
  height := Counter.ofNat 9

def emptyBlocks : List Block :=
  [⟨Counter.ofNat 10, Octets.zero, []⟩, ⟨Counter.ofNat 11, Octets.zero, []⟩]

/-- Two blocks lead to two more attempts, and the last snapshot alone is kept. -/
theorem counters_in_step_of_one : ∃ a, restore brief thirdAttempt = .ok a ∧
    (a.afterBlocks emptyBlocks).data.version.toNat = 5 ∧
      (a.afterBlocks emptyBlocks).roundCount.toNat = 5 ∧
      (a.afterBlocks emptyBlocks).history.versions.map Counter.toNat = [5] ∧
      (a.afterBlocks emptyBlocks).history.latest? = some (a.afterBlocks emptyBlocks).data := by
  obtain ⟨a, os, hrestore, hrun, hk⟩ : ∃ (a : Application) (os : List BlockOutcome),
      restore brief thirdAttempt = .ok a ∧ a.outcomes emptyBlocks = os.map .ok ∧
        (os.filterMap BlockOutcome.transition).length = 2 :=
    ⟨_, [_, _], rfl, rfl, rfl⟩
  obtain ⟨hversion, hcount, -, hhistory⟩ := counters_in_step (.restored hrestore) hrun hk
  obtain ⟨hversions, -, hlatest⟩ := hhistory 1 rfl
  exact ⟨a, hrestore, hversion, hcount, hversions, hlatest⟩

end Application

end Quorum
