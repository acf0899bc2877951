import Quorum.Proofs.Application.Routing
import Quorum.Proofs.Application.Succession

/-!
# What a block does to the application

* `Round.Watches` : a round that runs in the background and asks some peers;
* `Application.moved` : the application in its next round;
* `Application.Step` : everything that a block can do: nothing once the service has ended, count
  votes, end the service, or move on to the next round;
* `Application.Coherent` : the snapshot, the rounds and the counters fit together;
* `Coherent.processBlock` : from a coherent application the next block is one of these steps, and it
  never fails;
* `Step.coherent` : each step leads to a coherent application.
-/

namespace Quorum

open Snapshot

/-! ## The round in the background -/

namespace Round

/-- The round runs in the background and asks some peers. -/
structure Watches (r : Round) (peers : PeerSet) : Prop where
  wellFormed : r.WellFormed
  kind : r.kind = .termination
  anyRoundCount : r.anyRoundCount = true
  keeper : r.keeper = none
  collecting : r.concluded = false
  participants : r.participants = peers

theorem Watches.collectAll {r : Round} {peers : PeerSet} (h : r.Watches peers)
    (subs : List Submission) : (r.collectAll subs).Watches peers where
  wellFormed := h.wellFormed.collectAll h.collecting subs
  kind := (r.collectAll_kind subs).trans h.kind
  anyRoundCount := (r.collectAll_anyRoundCount subs).trans h.anyRoundCount
  keeper := (r.collectAll_keeper subs).trans h.keeper
  collecting := (r.collectAll_concluded subs).trans h.collecting
  participants := (r.collectAll_participants subs).trans h.participants

/-- A background round that nobody has voted in. -/
def watch (peers : PeerSet) (roundCount : RoundCount) (height : Height) : Round :=
  fresh .termination roundCount peers none height true

theorem watches_watch {peers : PeerSet} (hne : peers.peers ≠ [])
    (hle : peers.size ≤ PeerCount.limit) (roundCount : RoundCount) (height : Height) :
    (watch peers roundCount height).Watches peers where
  wellFormed := wellFormed_fresh hne hle fun h => by cases h
  kind := rfl
  anyRoundCount := rfl
  keeper := rfl
  collecting := rfl
  participants := rfl

/-- The background round for some peers: the one that runs, if it asks them. -/
def kept (bg : Option Round) (peers : PeerSet) (roundCount : RoundCount) (height : Height) :
    Round :=
  (bg.filter (·.participants = peers)).getD (watch peers roundCount height)

theorem kept_of_asks {bg : Round} {peers : PeerSet} (h : bg.participants = peers)
    (roundCount : RoundCount) (height : Height) : kept (some bg) peers roundCount height = bg := by
  have hf : (some bg).filter (·.participants = peers) = some bg :=
    Option.filter_some_pos (decide_eq_true h)
  unfold kept
  rw [hf]
  rfl

theorem kept_of_others {bg : Option Round} {peers : PeerSet}
    (h : ∀ r, bg = some r → r.participants ≠ peers) (roundCount : RoundCount) (height : Height) :
    kept bg peers roundCount height = watch peers roundCount height := by
  have hf : bg.filter (·.participants = peers) = none := by
    rw [Option.filter_eq_none_iff]
    intro r hr
    simpa using h r hr
  unfold kept
  rw [hf]
  rfl

end Round

namespace Application

/-! ## Steps -/

/-- The application at the height of a block, with its submissions counted. -/
def received (a : Application) (b : Block) : Application :=
  { a.collectAll b.submissions with height := b.height }

/-- The application in its next round. -/
def moved (a : Application) (data : Snapshot) (roundCount : RoundCount) (current : Round)
    (background : Option Round) : Application :=
  { a with
    history := a.history.push data
    data, roundCount, current, background
    previous := some a.current.kind }

theorem received_current (a : Application) (b : Block) :
    (a.received b).current = a.current.collectAll b.submissions := rfl

theorem received_kind (a : Application) (b : Block) :
    (a.received b).current.kind = a.current.kind := a.current.collectAll_kind b.submissions

theorem received_isFinished (a : Application) (b : Block) :
    (a.received b).isFinished = a.isFinished := congrArg RoundKind.isTerminal (a.received_kind b)

theorem received_background {a : Application} {bg : Round} (h : a.background = some bg)
    (b : Block) : (a.received b).background = some (bg.collectAll b.submissions) := by
  show a.background.map _ = _
  rw [h, Option.map_some]

/-- No value has enough votes in the background after a block. -/
def Undecided (a : Application) (b : Block) : Prop :=
  ∀ bg, a.background = some bg → ∀ fp, (bg.collectAll b.submissions).held fp < bg.threshold

/-- A verdict of a round after a block leads the application to new data and its next round. -/
structure Succeeds (a : Application) (b : Block) (r : Round) (data : Snapshot) (event : Event)
    (roundCount : RoundCount) (target : RoundKind) (next : Round) : Prop where
  verdict : ∃ u, (r.collectAll b.submissions).Verdict a.data b.height a.params.roundTimeout u event ∧
    a.data.update? u = some data
  counts : a.roundCount.next? = some roundCount
  follows : a.table.target r.kind event = .ok target
  starts : instantiate a.params data target roundCount b.height = .ok next

/-- Everything that a block can do. -/
inductive Step (a : Application) (b : Block) : Application → Option Transition → Prop
  /-- The service has ended. -/
  | finished (h : a.isFinished = true) : Step a b { a with height := b.height } none
  /-- Votes are counted, and nothing is decided. -/
  | waits (h : a.isFinished = false) (undecided : a.Undecided b)
    (current : (a.received b).current.decide b.height a.params.roundTimeout = .ok none) :
    Step a b (a.received b) none
  /-- The background round ends the service. -/
  | terminates {bg : Round} {data : Snapshot} {event : Event} {roundCount : RoundCount}
    {target : RoundKind} {next : Round} (h : a.isFinished = false)
    (background : a.background = some bg)
    (succeeds : a.Succeeds b bg data event roundCount target next) :
    Step a b ((a.received b).moved data roundCount next none)
      (some ⟨bg.kind, event, target, data.version, roundCount, true⟩)
  /-- The current round ends, and the next one starts. -/
  | moves {bg : Round} {data : Snapshot} {event : Event} {roundCount : RoundCount}
    {target : RoundKind} {next : Round} (h : a.isFinished = false)
    (background : a.background = some bg) (undecided : a.Undecided b)
    (succeeds : a.Succeeds b a.current data event roundCount target next) :
    Step a b ((a.received b).moved data roundCount next (some (Round.kept
        (some (bg.collectAll b.submissions))
        (RoundKind.termination.asked data a.params.participants) roundCount b.height)))
      (some ⟨a.current.kind, event, target, data.version, roundCount, false⟩)

/-! ## Coherence -/

/-- The snapshot, the rounds and the counters fit together. -/
structure Coherent (a : Application) : Prop where
  table : Table.bundled = .ok a.table
  nonempty : a.params.participants.peers ≠ []
  bounded : a.params.participants.size ≤ PeerCount.limit
  /-- Only values of the rounds stand in the snapshot, and there are at most as many periods as
  rounds. -/
  conforms : a.data.Conforms a.params.participants a.roundCount.toNat
  needs : ∀ key ∈ a.current.kind.needs, a.data.Has key
  wellFormed : a.current.WellFormed
  collecting : a.current.concluded = false
  foreground : a.current.kind ≠ .termination
  /-- The current round is the one that the snapshot calls for, with the votes since its start. -/
  instantiated : instantiate a.params a.data a.current.kind a.roundCount a.current.startHeight =
    .ok { a.current with payloads := SortedMap.empty, seen := [] }
  roundCount_le : a.roundCount.toNat ≤ a.height.toNat
  version_le : a.data.version.toNat ≤ a.height.toNat
  startHeight_le : a.current.startHeight.toNat ≤ a.height.toNat
  running : a.isFinished = false → ∃ bg, a.background = some bg ∧
    bg.Watches (RoundKind.termination.asked a.data a.params.participants) ∧
    bg.startHeight.toNat ≤ a.height.toNat
  ended : a.isFinished = true → a.background = none

variable {a a' : Application} {b : Block}

theorem Coherent.asked_bounds (h : a.Coherent) (k : RoundKind) (data : Snapshot) :
    (k.asked data a.params.participants).peers ≠ [] ∧
      (k.asked data a.params.participants).size ≤ PeerCount.limit :=
  k.asked_bounds data h.nonempty h.bounded

/-- The current round is a fresh one with votes. -/
theorem Coherent.exists_fresh (h : a.Coherent) : ∃ keeper,
    a.current.kind.keeper? a.data = .ok keeper ∧
      { a.current with payloads := SortedMap.empty, seen := [] } =
        Round.fresh a.current.kind a.roundCount
          (a.current.kind.asked a.data a.params.participants) keeper a.current.startHeight false := by
  obtain ⟨keeper, hk, -, hi⟩ := exists_instantiate h.conforms h.nonempty h.bounded h.needs
    a.roundCount a.current.startHeight
  exact ⟨keeper, hk, Except.ok.inj (h.instantiated.symm.trans hi)⟩

theorem Coherent.current_anyRoundCount (h : a.Coherent) : a.current.anyRoundCount = false := by
  obtain ⟨keeper, -, hf⟩ := h.exists_fresh
  exact congrArg Round.anyRoundCount hf

theorem Coherent.current_participants (h : a.Coherent) :
    a.current.participants = a.current.kind.asked a.data a.params.participants := by
  obtain ⟨keeper, -, hf⟩ := h.exists_fresh
  exact congrArg Round.participants hf

theorem Coherent.current_keeper (h : a.Coherent) :
    a.current.kind.keeper? a.data = .ok a.current.keeper := by
  obtain ⟨keeper, hk, hf⟩ := h.exists_fresh
  have : a.current.keeper = keeper := congrArg Round.keeper hf
  rw [this, hk]

theorem Coherent.exists_periodCount (h : a.Coherent) : ∃ n, a.data.periodCount = .ok n := by
  obtain ⟨n, hn, -⟩ := h.conforms.exists_periodCount
  exact ⟨n, hn⟩

theorem votes?_ne_termination {k : RoundKind} (h : k ≠ .termination) :
    RoundKind.termination.votes? ≠ k.votes? := by
  cases k <;> first | contradiction | decide

theorem Coherent.apart (h : a.Coherent) : a.Apart := by
  intro bg hbg
  cases hf : a.isFinished with
  | true =>
    rw [h.ended hf] at hbg
    cases hbg
  | false =>
    obtain ⟨bg', hbg', hw, -⟩ := h.running hf
    cases hbg.symm.trans hbg'
    rw [hw.kind]
    exact votes?_ne_termination h.foreground

/-- The heights run out before the versions do. -/
theorem Coherent.version_lt (h : a.Coherent) (hb : b.height.toNat = a.height.toNat + 1) :
    a.data.version.toNat + 1 < UInt64.size := by
  have := h.version_le
  have := b.height.toNat_lt
  omega

/-! ## Verdicts lead on -/

/-- The application can carry out the verdicts of a round. -/
structure Hosts (a : Application) (r : Round) : Prop where
  wellFormed : r.WellFormed
  collecting : r.concluded = false
  registers : r.kind = .registrationStartup → r.participants = a.params.participants
  needs : ∀ key ∈ r.kind.needs, a.data.Has key

theorem Coherent.hosts_current (h : a.Coherent) : a.Hosts a.current where
  wellFormed := h.wellFormed
  collecting := h.collecting
  registers hk := by
    rw [h.current_participants]
    exact if_pos hk
  needs := h.needs

theorem Coherent.background_watches (h : a.Coherent) {bg : Round}
    (hbg : a.background = some bg) :
    bg.Watches (RoundKind.termination.asked a.data a.params.participants) ∧
      bg.startHeight.toNat ≤ a.height.toNat := by
  cases hf : a.isFinished with
  | true =>
    rw [h.ended hf] at hbg
    cases hbg
  | false =>
    obtain ⟨bg', hbg', hw⟩ := h.running hf
    cases hbg.symm.trans hbg'
    exact hw

theorem Coherent.hosts_background (h : a.Coherent) {bg : Round} (hbg : a.background = some bg) :
    a.Hosts bg := by
  obtain ⟨hw, -⟩ := h.background_watches hbg
  exact {
    wellFormed := hw.wellFormed
    collecting := hw.collecting
    registers := fun hk => by
      rw [hw.kind] at hk
      cases hk
    needs := fun key hkey => by
      rw [hw.kind] at hkey
      cases hkey }

/-- A verdict of a round of the application writes nothing but values of the rounds. -/
theorem Coherent.fits_of_verdict (h : a.Coherent) {r : Round} (hr : a.Hosts r) {u : Update}
    {e : Event}
    (hver : (r.collectAll b.submissions).Verdict a.data b.height a.params.roundTimeout u e) :
    u.Fits a.params.participants (a.roundCount.toNat + 1) := by
  refine hver.fits (hr.wellFormed.collectAll hr.collecting _) (fun hk => ?_) fun n hn => ?_
  · rw [Round.collectAll_participants]
    exact hr.registers (by rwa [Round.collectAll_kind] at hk)
  · obtain ⟨m, hm, hle⟩ := h.conforms.exists_periodCount
    cases hn.symm.trans hm
    exact hle

/-- The data after a verdict conforms, and meets the needs of a round that follows. -/
theorem Coherent.after_verdict (h : a.Coherent) {r : Round} (hr : a.Hosts r)
    {u : Update} {e : Event} {data : Snapshot} {roundCount : RoundCount}
    (hver : (r.collectAll b.submissions).Verdict a.data b.height a.params.roundTimeout u e)
    (hu : a.data.update? u = some data) (hc : a.roundCount.next? = some roundCount) :
    data.Conforms a.params.participants roundCount.toNat ∧ ∃ k, a.table.target r.kind e = .ok k ∧
      r.kind.Follows (u.map (·.1)) k ∧ ∀ key ∈ k.needs, data.Has key := by
  have hfits := h.fits_of_verdict hr hver
  obtain ⟨k, hk, hf⟩ := hver.leads a.table h.table
  rw [Round.collectAll_kind] at hk hf
  refine ⟨?_, k, hk, hf, fun key hkey => ?_⟩
  · rw [Counter.next?_eq_some.1 hc]
    exact h.conforms.update (Nat.le_succ _) hfits hu
  · rcases hf.needs key hkey with hs | hw
    · exact (hr.needs key hs).update hfits hu
    · exact has_of_mem hw hfits hu

/-- Every verdict of a round of the application leads it on. -/
theorem Coherent.exists_succeeds (h : a.Coherent) {r : Round} (hr : a.Hosts r)
    (hb : b.height.toNat = a.height.toNat + 1) {u : Update} {e : Event} {data : Snapshot}
    (hver : (r.collectAll b.submissions).Verdict a.data b.height a.params.roundTimeout u e)
    (hu : a.data.update? u = some data) :
    ∃ roundCount target next, a.Succeeds b r data e roundCount target next := by
  -- there are no more rounds than blocks, so the rounds do not run out before the heights do
  obtain ⟨roundCount, hc⟩ : ∃ c, a.roundCount.next? = some c := by
    cases hc : a.roundCount.next? with
    | some c => exact ⟨c, rfl⟩
    | none =>
      have := Counter.next?_eq_none.1 hc
      have := h.roundCount_le
      have := b.height.toNat_lt
      omega
  obtain ⟨hconf, k, hk, -, hneeds⟩ := h.after_verdict hr hver hu hc
  obtain ⟨keeper, -, -, hi⟩ := exists_instantiate hconf h.nonempty h.bounded hneeds roundCount
    b.height
  exact ⟨roundCount, k, _, ⟨u, hver, hu⟩, hc, hk, hi⟩

/-- What the application is led on to: data that conforms, and a round that it calls for. -/
theorem Coherent.of_succeeds (h : a.Coherent) {r next : Round} {data : Snapshot} {event : Event}
    {roundCount : RoundCount} {target : RoundKind} (hr : a.Hosts r)
    (hs : a.Succeeds b r data event roundCount target next) :
    data.Conforms a.params.participants roundCount.toNat ∧
      (∃ written, r.kind.Follows written target) ∧ (∀ key ∈ target.needs, data.Has key) ∧
      ∃ keeper, (target.strategy = .onlyKeeperSends → ∃ pk, keeper = some pk) ∧
        next = Round.fresh target roundCount (target.asked data a.params.participants) keeper
          b.height false := by
  obtain ⟨u, hver, hu⟩ := hs.verdict
  obtain ⟨hconf, k, hk, hfol, hneeds⟩ := h.after_verdict hr hver hu hs.counts
  obtain rfl : target = k := Except.ok.inj (hs.follows.symm.trans hk)
  obtain ⟨keeper, -, hsome, hi⟩ := exists_instantiate hconf h.nonempty h.bounded hneeds roundCount
    b.height
  exact ⟨hconf, ⟨_, hfol⟩, hneeds, keeper, hsome, Except.ok.inj (hs.starts.symm.trans hi)⟩

/-! ## Blocks -/

theorem refreshBackground_eq {periods : Nat} (ht : Table.bundled = .ok a.table)
    (hc : a.data.Conforms a.params.participants periods)
    (hne : a.params.participants.peers ≠ []) (hle : a.params.participants.size ≤ PeerCount.limit) :
    a.refreshBackground = .ok { a with
      background := if a.isFinished then none else some (Round.kept a.background
        (RoundKind.termination.asked a.data a.params.participants) a.roundCount a.height) } := by
  have hb : a.table.backgroundRound? = some .termination := by
    rw [Table.bundled_eq] at ht
    rw [← Except.ok.inj ht]
    rfl
  obtain ⟨hane, hale⟩ := RoundKind.termination.asked_bounds a.data hne hle
  unfold refreshBackground
  rw [hb]
  simp only [RoundKind.participants_eq .termination hc hle, ok_bind, Round.start_eq hane hale]
  by_cases hf : a.isFinished = true
  · rw [if_pos hf, if_pos hf]
  rw [if_neg hf, if_neg hf]
  by_cases hany : a.background.any (fun r => decide (r.participants =
      RoundKind.termination.asked a.data a.params.participants)) = true
  · obtain ⟨bg, hbg, hp⟩ := (Option.any_eq_true _ _).1 hany
    rw [if_pos hany, hbg, Round.kept_of_asks (of_decide_eq_true hp), ← hbg]
    rfl
  · rw [if_neg hany, Round.kept_of_others fun r hr hp => hany ?_]
    · rfl
    · rw [hr]
      exact decide_eq_true hp

theorem refreshBackground_moved {periods : Nat} {data : Snapshot} {next : Round}
    (ht : Table.bundled = .ok a.table) (hc : data.Conforms a.params.participants periods)
    (hne : a.params.participants.peers ≠ []) (hle : a.params.participants.size ≤ PeerCount.limit)
    (hrun : next.kind.isTerminal = false) (roundCount : RoundCount) (bg : Option Round) :
    (a.moved data roundCount next bg).refreshBackground =
      .ok (a.moved data roundCount next (some (Round.kept bg
        (RoundKind.termination.asked data a.params.participants) roundCount a.height))) := by
  have hf : (a.moved data roundCount next bg).isFinished = false := hrun
  rw [refreshBackground_eq (a := a.moved data roundCount next bg) ht hc hne hle, hf]
  rfl

theorem endBackground_eq {height : Height} {bg bg' : Round} {o : Option (Snapshot × Event)}
    (hbg : a.background = some bg)
    (h : bg.endBlock a.data height a.params.roundTimeout = (bg', .ok o)) :
    a.endBackground height =
      ({ a with background := some bg' }, .ok (o.map fun (s, e) => (bg.kind, s, e))) := by
  unfold endBackground
  rw [hbg]
  simp only [h]
  rfl

theorem endForeground_eq {height : Height} {r : Round} {o : Option (Snapshot × Event)}
    (h : a.current.endBlock a.data height a.params.roundTimeout = (r, .ok o)) :
    a.endForeground height = ({ a with current := r }, .ok o) := by
  unfold endForeground
  simp only [h]

section
variable {source target : RoundKind} {data : Snapshot} {event : Event} {roundCount : RoundCount}
  {next : Round}

/-- The background round ends the service, so there is no background round any more. -/
theorem transition_preempting (hk : a.table.target source event = .ok target)
    (hc : a.roundCount.next? = some roundCount)
    (hi : instantiate a.params data target roundCount a.height = .ok next) :
    a.transition source data event true = (a.moved data roundCount next none,
      .ok ⟨source, event, target, data.version, roundCount, true⟩) := by
  unfold transition
  rw [hk, hc]
  simp only [Except.mapError, Option.elim_some, ok_bind, hi]
  rfl

theorem transition_moving (hk : a.table.target source event = .ok target)
    (hc : a.roundCount.next? = some roundCount)
    (hi : instantiate a.params data target roundCount a.height = .ok next)
    (hr : (a.moved data roundCount next a.background).refreshBackground = .ok a') :
    a.transition source data event false =
      (a', .ok ⟨source, event, target, data.version, roundCount, false⟩) := by
  unfold transition
  rw [hk, hc]
  unfold moved at hr
  simp only [Except.mapError, Option.elim_some, ok_bind, hi]
  simp only [pure, Except.pure, hr]
  rfl

theorem endBlock_waiting {height : Height} {bg : Round} (hbg : a.background = some bg)
    (hend : bg.endBlock a.data height a.params.roundTimeout = (bg, .ok none))
    (hcur : a.current.endBlock a.data height a.params.roundTimeout = (a.current, .ok none)) :
    a.endBlock height = (a, .ok none) := by
  have hb := endBackground_eq hbg hend
  rw [← hbg] at hb
  unfold endBlock
  rw [hb]
  simp only [Option.map_none]
  rw [endForeground_eq hcur]

/-- Once the background round has a verdict, that of the current round does not matter. -/
theorem endBlock_preempting {height : Height} {bg bg' r : Round} {o : Option (Snapshot × Event)}
    (hbg : a.background = some bg)
    (hend : bg.endBlock a.data height a.params.roundTimeout = (bg', .ok (some (data, event))))
    (hcur : a.current.endBlock a.data height a.params.roundTimeout = (r, .ok o))
    (hr : r.kind = a.current.kind) (hk : a.table.target bg.kind event = .ok target)
    (hc : a.roundCount.next? = some roundCount)
    (hi : instantiate a.params data target roundCount a.height = .ok next) :
    a.endBlock height = (a.moved data roundCount next none,
      .ok (some ⟨bg.kind, event, target, data.version, roundCount, true⟩)) := by
  have hf := endForeground_eq (a := { a with background := some bg' }) hcur
  have ht := transition_preempting (a := { a with background := some bg', current := r }) hk hc hi
  unfold endBlock
  rw [endBackground_eq hbg hend]
  simp only [Option.map_some, hf, ht]
  unfold moved
  rw [hr]
  rfl

theorem endBlock_moving {height : Height} {bg r : Round} (hbg : a.background = some bg)
    (hend : bg.endBlock a.data height a.params.roundTimeout = (bg, .ok none))
    (hcur : a.current.endBlock a.data height a.params.roundTimeout = (r, .ok (some (data, event))))
    (hr : r.kind = a.current.kind) (hk : a.table.target a.current.kind event = .ok target)
    (hc : a.roundCount.next? = some roundCount)
    (hi : instantiate a.params data target roundCount a.height = .ok next)
    (href : (a.moved data roundCount next (some bg)).refreshBackground = .ok a') :
    a.endBlock height =
      (a', .ok (some ⟨a.current.kind, event, target, data.version, roundCount, false⟩)) := by
  have hb := endBackground_eq hbg hend
  rw [← hbg] at hb
  have ht : ({ a with current := r } : Application).transition r.kind data event false =
      (a', .ok ⟨r.kind, event, target, data.version, roundCount, false⟩) := by
    refine transition_moving (a := { a with current := r }) (hr ▸ hk) hc hi ?_
    rw [← href, ← hbg]
    unfold moved
    rw [hr]
  unfold endBlock
  rw [hb]
  simp only [Option.map_none]
  rw [endForeground_eq hcur]
  simp only [ht]
  rw [hr]
  rfl

end

/-- What a round comes to at the end of a block. -/
def verdict (a : Application) (b : Block) (r : Round) :
    Except FatalError (Option (Snapshot × Event)) :=
  ((r.collectAll b.submissions).endBlock a.data b.height a.params.roundTimeout).2

/-- How a block ends, by the verdicts of the background round and of the current one. A verdict of
the current round counts only if the background round has none. -/
inductive Ending (a : Application) (b : Block) :
    Option (Snapshot × Event) → Option (Snapshot × Event) → Application → Option Transition → Prop
  | waits : Ending a b none none (a.received b) none
  | preempts {bg : Round} {data : Snapshot} {event : Event} {o : Option (Snapshot × Event)}
    {roundCount : RoundCount} {target : RoundKind} {next : Round}
    (background : a.background = some bg)
    (succeeds : a.Succeeds b bg data event roundCount target next) :
    Ending a b (some (data, event)) o ((a.received b).moved data roundCount next none)
      (some ⟨bg.kind, event, target, data.version, roundCount, true⟩)
  | moves {bg : Round} {data : Snapshot} {event : Event} {roundCount : RoundCount}
    {target : RoundKind} {next : Round} (background : a.background = some bg)
    (succeeds : a.Succeeds b a.current data event roundCount target next) :
    Ending a b none (some (data, event)) ((a.received b).moved data roundCount next
        (some (Round.kept (some (bg.collectAll b.submissions))
          (RoundKind.termination.asked data a.params.participants) roundCount b.height)))
      (some ⟨a.current.kind, event, target, data.version, roundCount, false⟩)

/-- The two verdicts decide how a block ends. -/
theorem Coherent.ending (h : a.Coherent) {bg : Round}
    (hbg : a.background = some bg) (hb : b.height.toNat = a.height.toNat + 1) :
    ∃ v o a' t, a.verdict b bg = .ok v ∧ a.verdict b a.current = .ok o ∧
      (a.received b).endBlock b.height = (a', .ok t) ∧ Ending a b v o a' t := by
  have hw := (h.background_watches hbg).1
  have hbg' := received_background hbg b
  have hv := h.version_lt hb
  have hrk := a.received_kind b
  have hbgCases := (hw.wellFormed.collectAll hw.collecting b.submissions).endBlock_cases b.height
    a.params.roundTimeout (hw.collectAll b.submissions).collecting h.exists_periodCount hv
  have hcurCases := (h.wellFormed.collectAll h.collecting b.submissions).endBlock_cases b.height
    a.params.roundTimeout ((a.current.collectAll_concluded _).trans h.collecting)
    h.exists_periodCount hv
  -- the background round goes first: once it has a verdict, that of the current round is dropped
  rcases hbgCases with ⟨hbgEnd, -⟩ | ⟨u, e, data, hver, hu, hbgEnd⟩
  · rcases hcurCases with ⟨hcur, -⟩ | ⟨u, e, data, hver, hu, hcur⟩
    · exact ⟨none, none, _, _, congrArg _ hbgEnd, congrArg _ hcur,
        endBlock_waiting hbg' hbgEnd hcur, .waits⟩
    · obtain ⟨roundCount, target, next, hs⟩ := h.exists_succeeds h.hosts_current hb hver hu
      obtain ⟨hconf, ⟨_, hfol⟩, -, keeper, -, hnext⟩ := h.of_succeeds h.hosts_current hs
      have hrun : next.kind.isTerminal = false := by
        rw [hnext]
        exact Bool.eq_false_iff.2 fun ht => h.foreground (hfol.isTerminal.1 ht)
      have href := refreshBackground_moved (a := a.received b) h.table hconf h.nonempty h.bounded
        hrun roundCount (some (bg.collectAll b.submissions))
      have hend := endBlock_moving hbg' hbgEnd hcur rfl (hrk ▸ hs.follows) hs.counts hs.starts href
      rw [hrk] at hend
      exact ⟨none, some (data, e), _, _, congrArg _ hbgEnd, congrArg _ hcur, hend, .moves hbg hs⟩
  · obtain ⟨roundCount, target, next, hs⟩ := h.exists_succeeds (h.hosts_background hbg) hb hver hu
    obtain ⟨r, o, hcur, hr⟩ : ∃ r o, (a.current.collectAll b.submissions).endBlock a.data b.height
        a.params.roundTimeout = (r, .ok o) ∧ r.kind = a.current.kind := by
      rcases hcurCases with ⟨hcur, -⟩ | ⟨u, e, data, -, -, hcur⟩
      · exact ⟨_, _, hcur, hrk⟩
      · exact ⟨_, _, hcur, hrk⟩
    have hend := endBlock_preempting hbg' hbgEnd hcur (hr.trans hrk.symm)
      (by rw [Round.collectAll_kind]; exact hs.follows) hs.counts hs.starts
    rw [Round.collectAll_kind] at hend
    exact ⟨some (data, e), o, _, _, congrArg _ hbgEnd, congrArg _ hcur, hend, .preempts hbg hs⟩

/-- Without a verdict of the background round no value has enough votes in it. -/
theorem Coherent.undecided (h : a.Coherent) {bg : Round} (hbg : a.background = some bg)
    (hv : a.verdict b bg = .ok none) : a.Undecided b := by
  intro bg' hbg' fp
  cases hbg.symm.trans hbg'
  have hw := (h.background_watches hbg).1.collectAll b.submissions
  have := hw.wellFormed.held_lt (.inl (by rw [hw.kind]; rfl))
    (Round.decide_of_endBlock hw.collecting hv) fp
  rwa [Round.collectAll_threshold] at this

/-- The two rounds end a block with one of the steps. -/
theorem Coherent.endBlock_received (h : a.Coherent) (hf : a.isFinished = false)
    (hb : b.height.toNat = a.height.toNat + 1) :
    ∃ a' t, (a.received b).endBlock b.height = (a', .ok t) ∧ Step a b a' t := by
  obtain ⟨bg, hbg, -⟩ := h.running hf
  obtain ⟨v, o, a', t, hv, ho, hend, hending⟩ := h.ending hbg hb
  refine ⟨a', t, hend, ?_⟩
  cases hending with
  | waits =>
    exact .waits hf (h.undecided hbg hv) (Round.decide_of_endBlock
      ((a.current.collectAll_concluded _).trans h.collecting) ho)
  | preempts hbg' hs => exact .terminates hf hbg' hs
  | moves hbg' hs => exact .moves hf hbg' (h.undecided hbg hv) hs

theorem processBlock_of_finished (hf : a.isFinished = true)
    (hb : b.height.toNat = a.height.toNat + 1) :
    a.processBlock b = ({ a with height := b.height }, .ok ⟨b.height, 0, 0, none⟩) := by
  have hn : a.height.next? = some b.height := Counter.next?_eq_some.2 hb
  unfold processBlock
  rw [hn]
  simp only [ne_eq, not_true_eq_false, if_false]
  exact if_pos hf

/-- While the service runs the submissions of the next block are routed, and then the block ends for
both rounds. -/
theorem processBlock_eq (hf : a.isFinished = false) (hb : b.height.toNat = a.height.toNat + 1) :
    a.processBlock b =
      (((({ a with height := b.height } : Application).routeAll b.submissions).1.endBlock
          b.height).1,
        ((({ a with height := b.height } : Application).routeAll b.submissions).1.endBlock
          b.height).2.map fun t => ⟨b.height,
            (({ a with height := b.height } : Application).routeAll b.submissions).2.1,
            (({ a with height := b.height } : Application).routeAll b.submissions).2.2, t⟩) := by
  have hn : a.height.next? = some b.height := Counter.next?_eq_some.2 hb
  have hf' : ({ a with height := b.height } : Application).isFinished = false := hf
  unfold Application.processBlock
  rw [hn]
  simp only [ne_eq, not_true_eq_false, if_false, hf', Bool.false_eq_true]

/-- If the two rounds collect different votes, the submissions are counted as if each were alone. -/
theorem processBlock_of_running (h : a.Apart) (hf : a.isFinished = false)
    (hb : b.height.toNat = a.height.toNat + 1) :
    a.processBlock b = (((a.received b).endBlock b.height).1,
      ((a.received b).endBlock b.height).2.map fun t => ⟨b.height, b.submissions.countP a.admits,
        b.submissions.countP fun s => !a.admits s, t⟩) := by
  have hroute := routeAll_eq_countP (a := { a with height := b.height }) h b.submissions
  have hadmits : ({ a with height := b.height } : Application).admits = a.admits := by
    funext s
    rw [admits_eq h, admits_eq (a := { a with height := b.height }) h]
  rw [processBlock_eq hf hb, hroute, hadmits]
  rfl

/-- **The next block is one of the steps, and never fails.** -/
theorem Coherent.processBlock (h : a.Coherent) (hb : b.height.toNat = a.height.toNat + 1) :
    ∃ a' o, a.processBlock b = (a', .ok o) ∧ Step a b a' o.transition ∧ o.height = b.height ∧
      (a.isFinished = false → o.accepted + o.rejected = b.submissions.length) := by
  cases hf : a.isFinished with
  | true =>
    exact ⟨_, _, processBlock_of_finished hf hb, .finished hf, rfl, fun h => by cases h⟩
  | false =>
    obtain ⟨a', t, hend, hstep⟩ := h.endBlock_received hf hb
    exact ⟨a', _, by rw [processBlock_of_running h.apart hf hb, hend]; rfl, hstep, rfl,
      fun _ => countP_admits_add a b.submissions⟩

/-! ## Coherence is kept -/

theorem Step.height_eq {t : Option Transition} (hs : Step a b a' t) : a'.height = b.height := by
  cases hs <;> rfl

theorem Step.params_eq {t : Option Transition} (hs : Step a b a' t) : a'.params = a.params := by
  cases hs <;> rfl

theorem kept_watches {bg : Round} {peers asked : PeerSet} {roundCount : RoundCount}
    (hw : bg.Watches peers) (hs : bg.startHeight.toNat ≤ b.height.toNat) (hne : asked.peers ≠ [])
    (hle : asked.size ≤ PeerCount.limit) :
    (Round.kept (some bg) asked roundCount b.height).Watches asked ∧
      (Round.kept (some bg) asked roundCount b.height).startHeight.toNat ≤ b.height.toNat := by
  by_cases hp : bg.participants = asked
  · rw [Round.kept_of_asks hp]
    exact ⟨{ hw with participants := hp }, hs⟩
  · rw [Round.kept_of_others fun r hr => by cases hr; exact hp]
    exact ⟨Round.watches_watch hne hle roundCount b.height, Nat.le_refl _⟩

theorem Coherent.moved (h : a.Coherent) (hb : b.height.toNat = a.height.toNat + 1)
    {r next : Round} {data : Snapshot} {event : Event} {roundCount : RoundCount}
    {target : RoundKind} {bg : Option Round} (hr : a.Hosts r)
    (hs : a.Succeeds b r data event roundCount target next)
    (hrunning : target.isTerminal = false → ∃ r, bg = some r ∧
      r.Watches (RoundKind.termination.asked data a.params.participants) ∧
      r.startHeight.toNat ≤ b.height.toNat)
    (hended : target.isTerminal = true → bg = none) :
    ((a.received b).moved data roundCount next bg).Coherent := by
  obtain ⟨hconf, ⟨_, hfol⟩, hneeds, keeper, hsome, rfl⟩ := h.of_succeeds hr hs
  obtain ⟨u, -, hu⟩ := hs.verdict
  obtain ⟨hane, hale⟩ := h.asked_bounds target data
  have hc := Counter.next?_eq_some.1 hs.counts
  have hv := version_update? hu
  have hcle := h.roundCount_le
  have hvle := h.version_le
  exact {
    table := h.table
    nonempty := h.nonempty
    bounded := h.bounded
    conforms := hconf
    needs := hneeds
    wellFormed := Round.wellFormed_fresh hane hale hsome
    collecting := rfl
    foreground := hfol.foreground
    instantiated := hs.starts
    roundCount_le := by
      show roundCount.toNat ≤ b.height.toNat
      omega
    version_le := by
      show data.version.toNat ≤ b.height.toNat
      omega
    startHeight_le := Nat.le_refl _
    running := hrunning
    ended := hended }

theorem Coherent.received (h : a.Coherent) (hf : a.isFinished = false)
    (hb : b.height.toNat = a.height.toNat + 1) : (a.received b).Coherent := by
  have hkind := a.received_kind b
  have hstart : (a.received b).current.startHeight = a.current.startHeight :=
    a.current.collectAll_startHeight _
  have hle : a.height.toNat ≤ b.height.toNat := by omega
  exact { h with
    needs := by
      rw [hkind]
      exact h.needs
    wellFormed := h.wellFormed.collectAll h.collecting _
    collecting := (a.current.collectAll_concluded _).trans h.collecting
    foreground := by
      rw [hkind]
      exact h.foreground
    instantiated := by
      rw [hkind, hstart]
      exact h.instantiated.trans (congrArg _ (a.current.collectAll_emptied _).symm)
    roundCount_le := Nat.le_trans h.roundCount_le hle
    version_le := Nat.le_trans h.version_le hle
    startHeight_le := by
      rw [hstart]
      exact Nat.le_trans h.startHeight_le hle
    running := fun _ => by
      obtain ⟨bg, hbg, hw, hs⟩ := h.running hf
      refine ⟨bg.collectAll b.submissions, received_background hbg b, hw.collectAll _, ?_⟩
      rw [Round.collectAll_startHeight]
      exact Nat.le_trans hs hle
    ended := fun hf' => by
      rw [received_isFinished, hf] at hf'
      cases hf' }

/-- **Each step leads to a coherent application.** -/
theorem Step.coherent {t : Option Transition} (hs : Step a b a' t) (h : a.Coherent)
    (hb : b.height.toNat = a.height.toNat + 1) : a'.Coherent := by
  have hle : a.height.toNat ≤ b.height.toNat := by omega
  cases hs with
  | finished hf =>
    exact { h with
      roundCount_le := Nat.le_trans h.roundCount_le hle
      version_le := Nat.le_trans h.version_le hle
      startHeight_le := Nat.le_trans h.startHeight_le hle
      running := fun hf' => by cases hf.symm.trans hf' }
  | waits hf _ _ => exact h.received hf hb
  | terminates hf hbg hs =>
    have hr := h.hosts_background hbg
    obtain ⟨-, ⟨_, hfol⟩, -⟩ := h.of_succeeds hr hs
    have hend := hfol.isTerminal.2 (h.background_watches hbg).1.kind
    refine h.moved hb hr hs (fun hrun => ?_) fun _ => rfl
    rw [hend] at hrun
    cases hrun
  | moves hf hbg _ hs =>
    have hr := h.hosts_current
    obtain ⟨-, ⟨_, hfol⟩, -⟩ := h.of_succeeds hr hs
    obtain ⟨hw, hstart⟩ := h.background_watches hbg
    obtain ⟨hane, hale⟩ := h.asked_bounds .termination _
    refine h.moved hb hr hs (fun _ => ⟨_, rfl, ?_⟩) fun hend => ?_
    · refine kept_watches (hw.collectAll _) ?_ hane hale
      rw [Round.collectAll_startHeight]
      exact Nat.le_trans hstart hle
    · exact absurd (hfol.isTerminal.1 hend) h.foreground

end Application

end Quorum
