import Quorum.Proofs.Application.Closure
import Quorum.Proofs.Application.Errors
import Quorum.Proofs.Application.Instance
import Quorum.Proofs.Application.Safety
import Quorum.Proofs.Application.Versions

/-!
# Runs of any validated table

The rounds here are those of any table that was built, so the current round may be any of them, and
what it needs may be missing. A block can then fail, but never for want of a round that follows.

* `Configured` : a result that is no error of the configuration;
* `Verdict.emits` : a round ends with one of its events only;
* `Round.Proper`, `Proper.endBlock` : a round that asks the peers it may ask ends a block without an
  error, and if it ends, with one of its events and data that conforms;
* `Application.Grounded` : the rounds are among some that the table leads to only, and they and the
  agreed data are in order;
* `Grounded.transition`, `Grounded.endBlock`, `Grounded.processBlock` : every block keeps it so;
* `table_never_strands` : so every event has a round that follows.
-/

namespace Quorum

open Snapshot

/-- No error of the configuration. -/
abbrev Configured {α : Type} (r : Except FatalError α) : Prop := Avoids FatalError.configuration r

/-! ## One round -/

theorem RoundKind.Settles.emits {data : Snapshot} {k : RoundKind} {v : Vote} {u : Update} {e : Event}
    (h : k.Settles data v u e) : e ∈ k.events := by
  cases h <;> decide

namespace Round

variable {r r' : Round} {data : Snapshot} {height : Height} {timeout : UInt64} {u : Update}
  {e : Event} {configured : PeerSet} {periods : Nat} {p : Payload}

/-- A round ends with one of its events only. -/
theorem Verdict.emits (h : r.Verdict data height timeout u e) : e ∈ r.kind.events := by
  cases h with
  | agreed _ _ _ settles => exact settles.emits
  | registered kind =>
    rw [kind]
    decide
  | signed kind =>
    rw [kind]
    decide
  | noMajority kind => exact List.contains_iff_mem.1 kind
  | timeout late =>
    unfold timedOut at late
    rw [Bool.and_eq_true] at late
    exact List.contains_iff_mem.1 late.1

/-- The round asks the peers that it may ask, and holds only what it may hold. -/
structure Proper (r : Round) (configured : PeerSet) : Prop where
  wellFormed : r.WellFormed
  registers : r.kind = .registrationStartup → r.participants = configured

theorem Proper.accept (h : r.Proper configured) (ha : r.accept p = .ok r') :
    r'.Proper configured ∧ r'.kind = r.kind := by
  obtain ⟨hcounts, rfl⟩ := accept_eq_ok_iff.1 ha
  exact ⟨⟨h.wellFormed.count (check_eq_ok_iff.2 hcounts), h.registers⟩, rfl⟩

theorem WellFormed.conclude (h : r.WellFormed) : ({ r with concluded := true } : Round).WellFormed where
  __ := h

/-- **A block leaves such a round as it is, or ends it with one of its events.** -/
theorem Proper.endBlock (h : r.Proper configured) (hdata : data.Conforms configured periods)
    (hv : data.version.toNat + 1 < UInt64.size) (height : Height) (timeout : UInt64) :
    ∃ r' o, r.endBlock data height timeout = (r', .ok o) ∧ r'.Proper configured ∧
      r'.kind = r.kind ∧ ∀ s e, o = some (s, e) → e ∈ r.kind.events ∧
        s.Conforms configured (periods + 1) ∧ s.version.toNat = data.version.toNat + 1 := by
  obtain ⟨n, hn, hle⟩ := hdata.exists_periodCount
  cases hc : r.concluded with
  | true =>
    refine ⟨r, none, ?_, h, rfl, fun _ _ ho => by cases ho⟩
    unfold Round.endBlock
    rw [hc]
    rfl
  | false =>
    rcases h.wellFormed.endBlock_cases height timeout hc ⟨n, hn⟩ hv with
      ⟨hend, -⟩ | ⟨u, e, s, hver, hu, hend⟩
    · exact ⟨r, none, hend, h, rfl, fun _ _ ho => by cases ho⟩
    · refine ⟨_, some (s, e), hend, ⟨h.wellFormed.conclude, h.registers⟩, rfl, fun s' e' ho => ?_⟩
      cases ho
      have hfits := hver.fits h.wellFormed h.registers fun m hm => by
        cases hn.symm.trans hm
        exact hle
      exact ⟨hver.emits, hdata.update (Nat.le_succ _) hfits hu, version_update? hu⟩

end Round

/-- The keeper is read for a round that listens to it only. -/
theorem RoundKind.keeper?_cases (k : RoundKind) (data : Snapshot) :
    (∃ cause, k.keeper? data = .error (.snapshot k cause)) ∨
      ∃ keeper, k.keeper? data = .ok keeper ∧
        (k.strategy = .onlyKeeperSends → ∃ pk, keeper = some pk) := by
  unfold RoundKind.keeper?
  by_cases hs : k.strategy = .onlyKeeperSends
  · rw [if_pos hs]
    cases data.keeper with
    | error cause => exact .inl ⟨cause, rfl⟩
    | ok pk => exact .inr ⟨some pk, rfl, fun _ => ⟨pk, rfl⟩⟩
  · rw [if_neg hs]
    exact .inr ⟨none, rfl, fun hs' => absurd hs' hs⟩

namespace Application

/-- A round is started for peers that may be asked, or the data has no keeper for it. -/
theorem instantiate_cases {params : AppParams} {data : Snapshot} {periods : Nat}
    (hdata : data.Conforms params.participants periods) (hne : params.participants.peers ≠ [])
    (hle : params.participants.size ≤ PeerCount.limit) (k : RoundKind) (roundCount : RoundCount)
    (height : Height) :
    (∃ cause, instantiate params data k roundCount height = .error (.snapshot k cause)) ∨
      ∃ r, instantiate params data k roundCount height = .ok r ∧
        r.Proper params.participants ∧ r.kind = k := by
  obtain ⟨hane, hale⟩ := k.asked_bounds data hne hle
  unfold instantiate
  rw [k.participants_eq hdata hle, ok_bind]
  rcases k.keeper?_cases data with ⟨cause, hkeeper⟩ | ⟨keeper, hkeeper, hsome⟩
  · rw [hkeeper]
    exact .inl ⟨cause, rfl⟩
  · rw [hkeeper, ok_bind, Round.start_eq hane hale]
    exact .inr ⟨_, rfl, ⟨Round.wellFormed_fresh hane hale hsome, fun hk => if_pos hk⟩, rfl⟩

/-! ## Applications -/

/-- The rounds are among some that a table leads to, and they and the agreed data are in order. -/
structure Grounded (t : Table) (rounds : List RoundKind) (a : Application) : Prop where
  table : a.table = t
  nonempty : a.params.participants.peers ≠ []
  bounded : a.params.participants.size ≤ PeerCount.limit
  conforms : a.data.Conforms a.params.participants a.roundCount.toNat
  current : a.current.Proper a.params.participants
  reached : a.current.kind ∈ rounds
  background : ∀ bg, a.background = some bg →
    bg.Proper a.params.participants ∧ t.backgroundRound? = some bg.kind

variable {t : Table} {rounds : List RoundKind} {a a' : Application} {b : Block} {height : Height}

theorem Grounded.route (h : Grounded t rounds a) {s : Submission} (hs : a.route s = .ok a') :
    Grounded t rounds a' := by
  unfold Application.route at hs
  cases ho : s.open with
  | error e =>
    rw [ho] at hs
    cases hs
  | ok p =>
    simp only [ho] at hs
    unfold routePayload at hs
    split at hs
    · rename_i bg hbg
      obtain ⟨hsome, -⟩ := Option.filter_eq_some_iff.1 hbg
      obtain ⟨hproper, hkind⟩ := h.background bg hsome
      cases hr : bg.accept p with
      | error e =>
        rw [hr] at hs
        cases hs
      | ok r =>
        rw [hr] at hs
        cases hs
        obtain ⟨hproper', hkind'⟩ := hproper.accept hr
        exact { h with background := fun bg' hbg' => by cases hbg'; exact ⟨hproper', hkind' ▸ hkind⟩ }
    · cases hr : a.current.accept p with
      | error e =>
        rw [hr] at hs
        cases hs
      | ok r =>
        rw [hr] at hs
        cases hs
        obtain ⟨hproper', hkind'⟩ := h.current.accept hr
        exact { h with
          current := hproper'
          reached := hkind' ▸ h.reached }

theorem Grounded.routeAll (h : Grounded t rounds a) (subs : List Submission) :
    Grounded t rounds (a.routeAll subs).1 :=
  routeAll_induction h (fun _ _ _ hx hs => hx.route hs) subs

/-- The background round can always be started. -/
theorem Grounded.refreshBackground (h : Grounded t rounds a) (ht : t.Complete rounds) :
    ∃ a', a.refreshBackground = .ok a' ∧ Grounded t rounds a' ∧ a'.data = a.data ∧
      a'.height = a.height := by
  unfold Application.refreshBackground
  cases hbg : a.table.backgroundRound? with
  | none => exact ⟨a, rfl, h, rfl, rfl⟩
  | some kind =>
    obtain ⟨hane, hale⟩ := kind.asked_bounds a.data h.nonempty h.bounded
    simp only [kind.participants_eq h.conforms h.bounded, ok_bind]
    split_ifs
    · exact ⟨_, rfl, { h with background := fun bg hbg' => by cases hbg' }, rfl, rfl⟩
    · exact ⟨a, rfl, h, rfl, rfl⟩
    · rw [Round.start_eq hane hale]
      rw [h.table] at hbg
      have hproper : (Round.fresh kind a.roundCount (kind.asked a.data a.params.participants) none
          a.height true).Proper a.params.participants := by
        refine ⟨Round.wellFormed_fresh hane hale fun hs => ?_, fun hk => if_pos hk⟩
        rw [ht.background kind hbg] at hs
        cases hs
      refine ⟨_, rfl, { h with background := fun bg hbg' => ?_ }, rfl, rfl⟩
      cases hbg'
      exact ⟨hproper, hbg⟩

/-! ## Blocks -/

/-- A round of a kind has ended with an event and data from which the application can go on. -/
structure Leads (t : Table) (rounds : List RoundKind) (a : Application) (k : RoundKind)
    (data : Snapshot) (e : Event) : Prop where
  follows : ∃ next ∈ rounds, t.target k e = .ok next
  conforms : data.Conforms a.params.participants (a.roundCount.toNat + 1)
  version : data.version.toNat = a.data.version.toNat + 1

theorem Leads.of_same {k : RoundKind} {data : Snapshot} {e : Event} (hl : Leads t rounds a k data e)
    (hsame : SameInstance a a') : Leads t rounds a' k data e := by
  obtain ⟨hfollows, hconf, hversion⟩ := hl
  refine ⟨hfollows, ?_, ?_⟩
  · rwa [hsame.params, hsame.roundCount]
  · rwa [hsame.data]

/-- A step keeps the application in order, with one more version at most, and does not fail for the
configuration. -/
structure Keeps {α : Type} (t : Table) (rounds : List RoundKind) (a : Application)
    (step : Application × Except FatalError α) : Prop where
  grounded : Grounded t rounds step.1
  version : step.1.data.version.toNat ≤ a.data.version.toNat + 1
  height : step.1.height = a.height
  configured : Configured step.2

theorem Grounded.keeps_error {α : Type} (h : Grounded t rounds a) {e : FatalError}
    (he : ∀ c, e ≠ .configuration c) : Keeps t rounds a (a, (.error e : Except FatalError α)) :=
  ⟨h, Nat.le_succ _, rfl, avoids_error he⟩

/-- **A transition leads to one of the rounds, or the data has no keeper for it.** -/
theorem Grounded.transition (h : Grounded t rounds a) (ht : t.Complete rounds) {k : RoundKind}
    {data : Snapshot} {e : Event} (hl : Leads t rounds a k data e) (preempted : Bool) :
    Keeps t rounds a (a.transition k data e preempted) := by
  obtain ⟨target, htarget, hfollows⟩ := hl.follows
  have hk : a.table.target k e = .ok target := by rw [h.table, hfollows]
  have hversion := Nat.le_of_eq hl.version
  cases hc : a.roundCount.next? with
  | none =>
    have heq : a.transition k data e preempted = (a, .error .outOfNumbers) := by
      unfold Application.transition
      rw [hk, hc]
      rfl
    rw [heq]
    exact h.keeps_error nofun
  | some roundCount =>
    have hconf : data.Conforms a.params.participants roundCount.toNat := by
      rw [Counter.next?_eq_some.1 hc]
      exact hl.conforms
    rcases instantiate_cases hconf h.nonempty h.bounded target roundCount a.height with
      ⟨cause, hi⟩ | ⟨next, hi, hproper, hkind⟩
    · have heq : a.transition k data e preempted = (a, .error (.snapshot target cause)) := by
        unfold Application.transition
        rw [hk, hc]
        simp only [Except.mapError, Option.elim_some, ok_bind, hi]
        rfl
      rw [heq]
      exact h.keeps_error nofun
    · have hmoved (bg : Option Round) (hbg : ∀ r, bg = some r →
          r.Proper a.params.participants ∧ t.backgroundRound? = some r.kind) :
          Grounded t rounds (a.moved data roundCount next bg) :=
        ⟨h.table, h.nonempty, h.bounded, hconf, hproper, hkind ▸ htarget, hbg⟩
      cases preempted with
      | true =>
        rw [transition_preempting hk hc hi]
        exact ⟨hmoved none fun r hr => (by cases hr), hversion, rfl, avoids_ok _⟩
      | false =>
        obtain ⟨a', href, ha', hdata, hheight⟩ :=
          (hmoved a.background h.background).refreshBackground ht
        rw [transition_moving hk hc hi href]
        exact ⟨ha', by rw [hdata]; exact hversion, hheight, avoids_ok _⟩

section
variable (h : Grounded t rounds a) (ht : t.Complete rounds)
  (hv : a.data.version.toNat + 1 < UInt64.size) (height : Height)
include h ht hv

/-- The background round ends a block without an error. -/
theorem Grounded.endBackground : ∃ a' o, a.endBackground height = (a', .ok o) ∧
    Grounded t rounds a' ∧ ∀ k s e, o = some (k, s, e) → Leads t rounds a k s e := by
  cases hbg : a.background with
  | none =>
    refine ⟨a, none, ?_, h, fun _ _ _ ho => by cases ho⟩
    unfold Application.endBackground
    rw [hbg]
  | some bg =>
    obtain ⟨hproper, hkind⟩ := h.background bg hbg
    obtain ⟨bg', o, hend, hproper', hkind', hends⟩ :=
      hproper.endBlock h.conforms hv height a.params.roundTimeout
    refine ⟨_, _, endBackground_eq hbg hend, { h with background := fun r hr => ?_ },
      fun k s e ho => ?_⟩
    · cases hr
      exact ⟨hproper', hkind' ▸ hkind⟩
    · obtain ⟨⟨s', e'⟩, hsome, heq⟩ := Option.map_eq_some_iff.1 ho
      cases heq
      obtain ⟨hemits, hconf, hversion⟩ := hends s e hsome
      exact ⟨ht.leads _ (.inr hkind) e hemits, hconf, hversion⟩

theorem Grounded.endForeground : ∃ a' o, a.endForeground height = (a', .ok o) ∧
    Grounded t rounds a' ∧ ∀ s e, o = some (s, e) → Leads t rounds a a.current.kind s e := by
  obtain ⟨r, o, hend, hproper, hkind, hends⟩ :=
    h.current.endBlock h.conforms hv height a.params.roundTimeout
  refine ⟨_, o, endForeground_eq hend,
    { h with current := hproper, reached := hkind ▸ h.reached }, fun s e ho => ?_⟩
  obtain ⟨hemits, hconf, hversion⟩ := hends s e ho
  exact ⟨ht.leads _ (.inl h.reached) e hemits, hconf, hversion⟩

/-- **The end of a block leads to one of the rounds, or the data has no keeper for it.** -/
theorem Grounded.endBlock : Keeps t rounds a (a.endBlock height) := by
  obtain ⟨a₁, background, hbg, h₁, hleads₁⟩ := h.endBackground ht hv height
  obtain ⟨hsame₁, hheight₁, -⟩ := endBackground_of_ok hbg
  obtain ⟨a₂, foreground, hfg, h₂, hleads₂⟩ :=
    h₁.endForeground ht (by rwa [hsame₁.data]) height
  obtain ⟨hsame₂, hheight₂, -⟩ := endForeground_of_ok hfg
  have hsame := hsame₁.trans hsame₂
  have hheight := hheight₂.trans hheight₁
  -- whichever round has ended, the transition starts from the same instance
  have moves {k : RoundKind} {s : Snapshot} {e : Event} (hl : Leads t rounds a₂ k s e)
      (preempted : Bool) : Keeps t rounds a ((a₂.transition k s e preempted).1,
        (a₂.transition k s e preempted).2.map some) := by
    have hkeeps := h₂.transition ht hl preempted
    exact ⟨hkeeps.grounded, hsame.data ▸ hkeeps.version, hkeeps.height.trans hheight,
      hkeeps.configured.map _⟩
  unfold Application.endBlock
  rw [hbg]
  simp only [hfg]
  split
  · rename_i k s e
    exact moves ((hleads₁ k s e rfl).of_same hsame) true
  · rename_i s e
    have hl := (hleads₂ s e rfl).of_same hsame₂
    rw [← hsame₂.kind] at hl
    exact moves hl false
  · exact ⟨h₂, by rw [hsame.data]; exact Nat.le_succ _, hheight, avoids_ok _⟩

end

theorem configured_refusal (height : Height) (b : Block) :
    Configured (.error (refusal height b) : Except FatalError BlockOutcome) := by
  unfold refusal
  cases height.next? <;> exact nofun

/-- **Every block keeps the application in order.** -/
theorem Grounded.processBlock (h : Grounded t rounds a) (ht : t.Complete rounds)
    (hv : a.data.version.toNat ≤ a.height.toNat) (b : Block) :
    Grounded t rounds (a.processBlock b).1 ∧
      (a.processBlock b).1.data.version.toNat ≤ (a.processBlock b).1.height.toNat ∧
      Configured (a.processBlock b).2 := by
  by_cases hb : b.height.toNat = a.height.toNat + 1
  · cases hf : a.isFinished with
    | true =>
      rw [processBlock_of_finished hf hb]
      refine ⟨{ h with }, ?_, avoids_ok _⟩
      show a.data.version.toNat ≤ b.height.toNat
      omega
    | false =>
      have hat : Grounded t rounds { a with height := b.height } := { h with }
      obtain ⟨hsame, hheight⟩ := sameInstance_routeAll { a with height := b.height } b.submissions
      have hrouted := hat.routeAll b.submissions
      rw [processBlock_eq hf hb]
      generalize ({ a with height := b.height } : Application).routeAll b.submissions = routed at *
      have hdata : routed.1.data = a.data := hsame.data
      have hlt := b.height.toNat_lt
      have hkeeps := hrouted.endBlock ht (by rw [hdata]; omega) b.height
      refine ⟨hkeeps.grounded, ?_, hkeeps.configured.map _⟩
      have hle := hkeeps.version
      rw [hdata] at hle
      rw [hkeeps.height, hheight]
      exact Nat.le_trans hle (by show _ ≤ b.height.toNat; omega)
  · rw [processBlock_of_refused hb]
    exact ⟨h, hv, configured_refusal a.height b⟩

/-! ## Runs -/

theorem processBlock_finished (hf : a.isFinished = true) (b : Block) :
    (a.processBlock b).1.isFinished = true ∧ Configured (a.processBlock b).2 := by
  by_cases hb : b.height.toNat = a.height.toNat + 1
  · rw [processBlock_of_finished hf hb]
    exact ⟨hf, avoids_ok _⟩
  · rw [processBlock_of_refused hb]
    exact ⟨hf, configured_refusal a.height b⟩

/-- At the next block a round of a kind ends with an event, in the current place or in the
background. -/
structure Concludes (x : Application) (b : Block) (k : RoundKind) (e : Event) : Prop where
  next : b.height.toNat = x.height.toNat + 1
  running : x.isFinished = false
  ends : ∃ r ∈ (x.routeAll b.submissions).1.rounds, r.kind = k ∧
    ∃ s, (r.endBlock x.data b.height x.params.roundTimeout).2 = .ok (some (s, e))

/-- An event with which a round ends has a round that follows. -/
theorem Grounded.follows (h : Grounded t rounds a) (ht : t.Complete rounds)
    (hv : a.data.version.toNat ≤ a.height.toNat) {k : RoundKind} {e : Event}
    (hc : a.Concludes b k e) : ∃ next, t.target k e = .ok next := by
  obtain ⟨hnext, -, r, hr, rfl, s, hend⟩ := hc
  have hrouted := h.routeAll b.submissions
  obtain ⟨hsame, -⟩ := sameInstance_routeAll a b.submissions
  have hlt := b.height.toNat_lt
  have hroom : a.data.version.toNat + 1 < UInt64.size := by omega
  obtain ⟨hproper, hplace⟩ : r.Proper a.params.participants ∧
      (r.kind ∈ rounds ∨ t.backgroundRound? = some r.kind) := by
    rw [← hsame.params]
    rcases List.mem_cons.1 hr with rfl | hr
    · exact ⟨hrouted.current, .inl hrouted.reached⟩
    · obtain ⟨hproper, hkind⟩ := hrouted.background r (Option.mem_toList.1 hr)
      exact ⟨hproper, .inr hkind⟩
  obtain ⟨r', o, hend', -, -, hends⟩ :=
    hproper.endBlock h.conforms hroom b.height a.params.roundTimeout
  rw [hend'] at hend
  obtain ⟨next, -, hfollows⟩ := ht.leads r.kind hplace e (hends s e (Except.ok.inj hend)).1
  exact ⟨next, hfollows⟩

/-- A service starts in order, unless it has ended from the start. -/
theorem grounded_of_startWith {params : AppParams} (hstart : startWith params t = .ok a)
    (ht : t.Complete rounds) (hinitial : t.initial ∈ rounds) :
    a.isFinished = true ∨ Grounded t rounds a ∧ a.data.version.toNat ≤ a.height.toNat := by
  unfold startWith restoreWith at hstart
  obtain ⟨current, hi, href⟩ := bind_eq_ok.1 hstart
  have hkind : current.kind = t.initial := kind_of_instantiate hi
  cases hterminal : t.initial.isTerminal with
  | true =>
    obtain ⟨bg, rfl⟩ := refreshBackground_of_ok href
    refine .inl ?_
    show current.kind.isTerminal = true
    rw [hkind, hterminal]
  | false =>
    obtain ⟨peers, keeper, hpeers, -, hround⟩ := of_instantiate_eq_ok hi
    have hconfigured : peers = params.participants := by
      unfold RoundKind.participants at hpeers
      split_ifs at hpeers <;> exact (Except.ok.inj hpeers).symm
    obtain ⟨hne, hle⟩ := Round.of_start_eq_ok hterminal hround
    rw [hconfigured] at hne hle
    have hdata : Snapshot.empty.Conforms params.participants 0 := conforms_empty
    rcases instantiate_cases hdata hne hle t.initial Counter.zero Counter.zero with
      ⟨cause, hfail⟩ | ⟨r, hr, hproper, -⟩
    · cases hfail.symm.trans hi
    · cases hr.symm.trans hi
      have hfirst : Grounded t rounds ⟨params, t, current, none, none, Snapshot.empty,
          History.start Snapshot.empty params.historyLength, Counter.zero, Counter.zero⟩ :=
        ⟨rfl, hne, hle, hdata, hproper, hkind ▸ hinitial, fun bg hbg => by cases hbg⟩
      obtain ⟨a', href', ha', hdata', hheight'⟩ := hfirst.refreshBackground ht
      cases href.symm.trans href'
      refine .inr ⟨ha', ?_⟩
      rw [hdata', hheight']
      exact Nat.le_refl _

theorem grounded_after (ht : t.Complete rounds)
    (h : a.isFinished = true ∨ Grounded t rounds a ∧ a.data.version.toNat ≤ a.height.toNat)
    (bs : List Block) : (a.afterBlocks bs).isFinished = true ∨
      Grounded t rounds (a.afterBlocks bs) ∧
        (a.afterBlocks bs).data.version.toNat ≤ (a.afterBlocks bs).height.toNat := by
  induction bs using List.reverseRecOn with
  | nil => exact h
  | append_singleton bs b ih =>
    rw [afterBlocks_concat]
    rcases ih with hf | ⟨hground, hv⟩
    · exact .inl (processBlock_finished hf b).1
    · obtain ⟨hground', hv', -⟩ := hground.processBlock ht hv b
      exact .inr ⟨hground', hv'⟩

/-- **A validated table never strands a run.** Whatever the initial round, the edges and the
background edge are, if a table is built from them and a service starts with it, no block of any run
fails for the configuration: whenever a round ends, in the current place or in the background, the
table has a round that follows. -/
theorem table_never_strands {initial : RoundKind} {edges : List Edge} {background : Option Edge}
    (hbuild : Table.build initial edges background = .ok t) {params : AppParams}
    (hstart : startWith params t = .ok a) (bs : List Block) (b : Block) :
    (∀ c, ((a.afterBlocks bs).processBlock b).2 ≠ .error (.configuration c)) ∧
      ∀ k e, (a.afterBlocks bs).Concludes b k e → ∃ next, t.target k e = .ok next := by
  obtain ⟨rfl, rounds, hinitial, ht⟩ := Table.complete_of_build hbuild
  rcases grounded_after ht (grounded_of_startWith hstart ht hinitial) bs with hf | ⟨hground, hv⟩
  · refine ⟨(processBlock_finished hf b).2, fun k e hc => ?_⟩
    cases hf.symm.trans hc.running
  · exact ⟨(hground.processBlock ht hv b).2.2, fun k e hc => hground.follows ht hv hc⟩

/-! ## A table that never ends -/

/-- Randomness and termination take turns. -/
def turns : List Edge := [
  ⟨.randomness, .done, .termination⟩,
  ⟨.randomness, .noMajority, .randomness⟩,
  ⟨.randomness, .roundTimeout, .termination⟩,
  ⟨.termination, .terminate, .randomness⟩]

/-- The background round, which is one of the others as well, leads back to the first one. -/
def turnsBackground : Edge := ⟨.termination, .terminate, .randomness⟩

/-- The first round times out at the first block, and the table has a round that follows. -/
theorem table_never_strands_of_turns : ∃ t a,
    Table.build .randomness turns (some turnsBackground) = .ok t ∧ startWith brief t = .ok a ∧
      a.Concludes (Block.first []) .randomness .roundTimeout ∧
      (∀ c, (a.processBlock (Block.first [])).2 ≠ .error (.configuration c)) ∧
      ∃ next, t.target .randomness .roundTimeout = .ok next := by
  obtain ⟨t, a, hbuild, hstart, hc⟩ : ∃ t a,
      Table.build .randomness turns (some turnsBackground) = .ok t ∧ startWith brief t = .ok a ∧
        a.Concludes (Block.first []) .randomness .roundTimeout :=
    ⟨_, _, rfl, rfl, rfl, rfl, _, List.mem_cons_self, rfl, _, rfl⟩
  obtain ⟨hsafe, hfollows⟩ := table_never_strands hbuild hstart [] (Block.first [])
  exact ⟨t, a, hbuild, hstart, hc, hsafe, hfollows _ _ hc⟩

end Application

end Quorum
