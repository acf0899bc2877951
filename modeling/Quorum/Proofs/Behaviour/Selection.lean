import Mathlib.Data.List.Nodup
import Quorum.Application.Table
import Quorum.Behaviour.Stage
import Quorum.Proofs.Round.Verdict
import Quorum.Proofs.Round.Writes

/-!
# Who becomes the keeper when attempts fail

The previous keeper is left out when the next one is chosen, so all peers after it move up by one
place. With the same randomness the choice therefore goes back and forth between two neighbours.

* `keeperDraw`, `selections` : the number drawn from the randomness, and the keepers chosen one after
  the other with the same randomness;
* `selectKeeper_of_getElem?` : one choice, by the position of the previous keeper;
* `selections_succ` : all choices;
* `Attempt`, `FailedAttempts` : the peers agree on keepers whose transactions come to nothing;
  `Attempt.reads` : each attempt leaves the randomness and the participants as they are;
* `retries_try_two_peers` : however many attempts fail, they fail with the same two peers.
-/

namespace Quorum

/-! ## Choices -/

/-- The number that is drawn from a value of the beacon to choose among `n` candidates. -/
def keeperDraw (randomness : Randomness) (n : Nat) : Nat :=
  Bytes.toNatBE (Blake3.hash randomness.bytes).bytes % n

/-- The keepers chosen one after the other with the same randomness, the first previous one before
them. -/
def selections (participants : PeerSet) (randomness : Randomness) (first : PublicKey) :
    Nat → Option PublicKey
  | 0 => some first
  | n + 1 => selectKeeper participants randomness (selections participants randomness first n)

variable {participants : PeerSet} {randomness : Randomness} {q first : PublicKey} {j k : Nat}

theorem PeerSet.Sorted.nodup (hs : participants.Sorted) : participants.peers.Nodup :=
  SortedMap.nodup_of_pairwise hs

theorem selectKeeper_eq (participants : PeerSet) (randomness : Randomness)
    (previous : Option PublicKey) : selectKeeper participants randomness previous =
      (keeperCandidates participants previous)[keeperDraw randomness
        (keeperCandidates participants previous).length]? := rfl

theorem keeperDraw_lt (randomness : Randomness) {n : Nat} (hn : 0 < n) :
    keeperDraw randomness n < n := Nat.mod_lt _ hn

/-- There is somebody else among two peers or more. -/
theorem exists_other (hs : participants.Sorted) (hn : 2 ≤ participants.size)
    (previous : Option PublicKey) : ∃ p ∈ participants.peers, some p ≠ previous := by
  have hnodup := hs.nodup
  unfold PeerSet.size at hn
  match hpeers : participants.peers with
  | [] | [_] => simp [hpeers] at hn
  | a :: b :: rest =>
    rw [hpeers] at hnodup
    by_cases ha : some a = previous
    · have hab : a ≠ b := fun h => (List.nodup_cons.1 hnodup).1 (h ▸ List.mem_cons_self)
      exact ⟨b, by simp, fun hb => hab (Option.some.inj (ha.trans hb.symm))⟩
    · exact ⟨a, List.mem_cons_self, ha⟩

/-- So the candidates are the others. -/
theorem keeperCandidates_eq (hs : participants.Sorted) (hn : 2 ≤ participants.size)
    (previous : Option PublicKey) : keeperCandidates participants previous =
      participants.peers.filter fun p => some p ≠ previous := by
  obtain ⟨p, hp, hne⟩ := exists_other hs hn previous
  have hmem : p ∈ participants.peers.filter fun p => some p ≠ previous :=
    List.mem_filter.2 ⟨hp, decide_eq_true hne⟩
  unfold keeperCandidates
  exact if_neg fun he => List.ne_nil_of_mem hmem (List.isEmpty_iff.1 he)

/-- **A peer other than the previous keeper is chosen.** -/
theorem exists_selectKeeper (hs : participants.Sorted) (hn : 2 ≤ participants.size)
    (randomness : Randomness) (previous : Option PublicKey) : ∃ keeper ∈ participants.peers,
      selectKeeper participants randomness previous = some keeper ∧ previous ≠ some keeper := by
  have hcandidates := keeperCandidates_eq hs hn previous
  obtain ⟨p, hp, hne⟩ := exists_other hs hn previous
  have hpos : 0 < (keeperCandidates participants previous).length := by
    rw [hcandidates]
    exact List.length_pos_of_mem (List.mem_filter.2 ⟨hp, decide_eq_true hne⟩)
  obtain ⟨keeper, hkeeper⟩ : ∃ keeper, selectKeeper participants randomness previous = some keeper :=
    ⟨_, List.getElem?_eq_getElem (keeperDraw_lt randomness hpos)⟩
  have hmem := List.mem_of_getElem? hkeeper
  rw [hcandidates, List.mem_filter, decide_eq_true_eq] at hmem
  exact ⟨keeper, hmem.1, hkeeper, hmem.2.symm⟩

/-- Without the peer at position `j` the peers after it move up by one place. -/
theorem keeperCandidates_of_getElem? (hs : participants.Sorted) (hn : 2 ≤ participants.size)
    (hq : participants.peers[j]? = some q) :
    keeperCandidates participants (some q) = participants.peers.eraseIdx j := by
  obtain ⟨hj, rfl⟩ := List.getElem?_eq_some_iff.1 hq
  rw [keeperCandidates_eq hs hn, ← List.Nodup.erase_getElem hs.nodup j hj,
    List.Nodup.erase_eq_filter hs.nodup]
  refine List.filter_congr fun p _ => ?_
  rw [Bool.eq_iff_iff]
  simp

/-- **The peer chosen after the one at position `j`**: the one at the position drawn if that is
before `j`, the next one otherwise. -/
theorem selectKeeper_of_getElem? (hs : participants.Sorted) (hn : 2 ≤ participants.size)
    (hq : participants.peers[j]? = some q) (randomness : Randomness) :
    selectKeeper participants randomness (some q) =
      participants.peers[if keeperDraw randomness (participants.size - 1) < j
        then keeperDraw randomness (participants.size - 1)
        else keeperDraw randomness (participants.size - 1) + 1]? := by
  have hj := (List.getElem?_eq_some_iff.1 hq).1
  rw [selectKeeper_eq, keeperCandidates_of_getElem? hs hn hq, List.length_eraseIdx_of_lt hj,
    List.getElem?_eraseIdx]
  unfold PeerSet.size
  split_ifs <;> rfl

/-- **The keepers chosen one after the other** are at the position drawn and the next one, in
turn. -/
theorem selections_succ (hs : participants.Sorted) (hn : 2 ≤ participants.size)
    (hk : keeperDraw randomness (participants.size - 1) = k)
    (hfirst : participants.peers[j]? = some first) (n : Nat) :
    selections participants randomness first (n + 1) =
      participants.peers[if n % 2 = 0 ↔ k < j then k else k + 1]? := by
  have hlt : k + 1 < participants.peers.length :=
    Nat.add_lt_of_lt_sub (hk ▸ keeperDraw_lt randomness (Nat.sub_pos_of_lt hn))
  induction n with
  | zero =>
    unfold selections
    rw [selections, selectKeeper_of_getElem? hs hn hfirst, hk]
    simp
  | succ n ih =>
    have hin : (if n % 2 = 0 ↔ k < j then k else k + 1) < participants.peers.length := by
      split_ifs <;> omega
    rw [List.getElem?_eq_getElem hin] at ih
    -- the parity of the number of choices changes, and with it the side of `k` that was chosen
    have hturn : (if k < (if n % 2 = 0 ↔ k < j then k else k + 1) then k else k + 1) =
        if (n + 1) % 2 = 0 ↔ k < j then k else k + 1 := by
      split_ifs <;> omega
    rw [selections, ih, selectKeeper_of_getElem? hs hn (List.getElem?_eq_getElem hin), hk, hturn]

/-- What follows the first choice is what is chosen with it as the previous keeper. -/
theorem selections_shift {keeper : PublicKey}
    (h : selections participants randomness first 1 = some keeper) (n : Nat) :
    selections participants randomness first (n + 1) =
      selections participants randomness keeper n := by
  induction n with
  | zero => exact h
  | succ n ih => exact congrArg (selectKeeper participants randomness) ih

/-! ## Attempts -/

/-- From a round of a kind the service comes back to the choice of a keeper, without asking for new
randomness on the way. -/
inductive Retry : RoundKind → Snapshot → Snapshot → Prop
  | back {k : RoundKind} {s s' : Snapshot} {d : Decision} {e : Event}
    (ends : k.conclude d s = .ok (s', e))
    (leads : Table.find? Table.bundledEdges k e = some .selectKeeper) : Retry k s s'
  | on {k next : RoundKind} {s s₁ s' : Snapshot} {d : Decision} {e : Event}
    (ends : k.conclude d s = .ok (s₁, e)) (leads : Table.find? Table.bundledEdges k e = some next)
    (within : next ≠ .randomness ∧ next ≠ .selectKeeper) (rest : Retry next s₁ s') : Retry k s s'

/-- The peers agree on a keeper, and the service comes back to the choice of a keeper. -/
def Attempt (s : Snapshot) (keeper : PublicKey) (s' : Snapshot) : Prop :=
  ∃ (p : Payload) (s₁ : Snapshot) (e : Event) (next : RoundKind), p.vote = .selectKeeper keeper ∧
    RoundKind.selectKeeper.conclude (.agreed p) s = .ok (s₁, e) ∧
    Table.find? Table.bundledEdges .selectKeeper e = some next ∧ Retry next s₁ s'

/-- The peers agree on the keepers that their behaviours choose, and attempt after attempt comes to
nothing. -/
inductive FailedAttempts (p : BehaviourParams) : Snapshot → List PublicKey → Snapshot → Prop
  | none (s : Snapshot) : FailedAttempts p s [] s
  | more {s s₁ s' : Snapshot} {keeper : PublicKey} {keepers : List PublicKey}
    (chosen : Stage.choose p s = Stage.voting p (.selectKeeper keeper))
    (fails : Attempt s keeper s₁) (rest : FailedAttempts p s₁ keepers s') :
    FailedAttempts p s (keeper :: keepers) s'

/-- The rounds between two choices of a keeper. -/
def RoundKind.carriesOut (k : RoundKind) : Prop :=
  k ∈ [RoundKind.collectSignature, .finalization, .validateTransaction]

theorem RoundKind.carriesOut_of_leads {k next : RoundKind} {e : Event}
    (h : Table.find? Table.bundledEdges k e = some next) (hk : k.carriesOut ∨ k = .selectKeeper)
    (hnext : next ≠ .randomness ∧ next ≠ .selectKeeper) : next.carriesOut := by
  unfold carriesOut at *
  revert h hk hnext
  cases k <;> cases e <;> cases next <;> decide

/-- They write neither the participants nor the randomness nor the keeper. -/
theorem RoundKind.carriesOut.not_mem_writes {k : RoundKind} (hk : k.carriesOut) (e : Event) :
    ∀ key ∈ [Snapshot.Key.participants, Snapshot.Key.randomness, Snapshot.Key.keeper],
      key ∉ k.writes e := by
  unfold carriesOut at hk
  revert hk
  cases k <;> cases e <;> decide

/-- **What is read to choose a keeper stays as it is between two choices.** -/
theorem Retry.frame {kind : RoundKind} {s s' : Snapshot} (h : Retry kind s s')
    (hk : kind.carriesOut) :
    ∀ key ∈ [Snapshot.Key.participants, Snapshot.Key.randomness, Snapshot.Key.keeper],
      s'.db.get? key = s.db.get? key := by
  induction h with
  | back ends leads =>
    intro key hkey
    exact (RoundKind.conclude_revises ends).frame key (hk.not_mem_writes _ key hkey)
  | on ends leads within rest ih =>
    intro key hkey
    rw [ih (RoundKind.carriesOut_of_leads leads (.inl hk) within) key hkey]
    exact (RoundKind.conclude_revises ends).frame key (hk.not_mem_writes _ key hkey)

/-- **An attempt leaves the participants and the randomness as they are, and its keeper is the
previous one afterwards.** -/
theorem Attempt.reads {s s' : Snapshot} {keeper : PublicKey} (h : Attempt s keeper s') :
    s'.participants = s.participants ∧ s'.randomness = s.randomness ∧
      s'.previousKeeper = .ok (some keeper) := by
  obtain ⟨p, s₁, e, next, hvote, hends, hleads, hretry⟩ := h
  have hrevises := RoundKind.conclude_revises hends
  change RoundKind.selectKeeper.concludeAgreed p.vote s = _ at hends
  rw [hvote] at hends
  obtain ⟨t, hupdated, hends⟩ := bind_eq_ok.1 hends
  cases hends
  have hkeeper : s₁.db.get? Snapshot.Key.keeper = some (Wire.encode keeper) := by
    rw [Snapshot.get?_update? (RoundKind.updated_eq_ok hupdated), Update.set, Update.last?_singleton]
    rfl
  have hnext : next = .collectSignature := (Option.some.inj hleads).symm
  have hframe := hretry.frame (hnext ▸ List.mem_cons_self)
  refine ⟨Snapshot.read_congr ?_, Snapshot.read_congr ?_, ?_⟩
  · rw [hframe _ (by simp)]
    exact hrevises.frame _ (by decide)
  · rw [hframe _ (by simp)]
    exact hrevises.frame _ (by decide)
  · exact Snapshot.read?_of_get? ((hframe _ (by simp)).trans hkeeper)
      (Snapshot.decodeWhole_lawful (by decide) keeper)

/-- The behaviours vote for the peer that is chosen from the agreed data. -/
theorem choose_eq {s : Snapshot} {previous : Option PublicKey} {keeper : PublicKey}
    (p : BehaviourParams) (hs : s.participants = .ok participants)
    (hr : s.randomness = .ok randomness) (hp : s.previousKeeper = .ok previous)
    (hk : selectKeeper participants randomness previous = some keeper) :
    Stage.choose p s = Stage.voting p (.selectKeeper keeper) := by
  unfold Stage.choose Stage.reading
  simp only [hs, hr, hp, hk]

/-- The keepers whose attempts fail are those chosen one after the other. -/
theorem FailedAttempts.eq_selections {p : BehaviourParams} {s s' : Snapshot}
    {keepers : List PublicKey} (h : FailedAttempts p s keepers s')
    (hsorted : participants.Sorted) (hn : 2 ≤ participants.size)
    (hs : s.participants = .ok participants) (hr : s.randomness = .ok randomness)
    (hp : s.previousKeeper = .ok (some first)) (i : Nat) (hi : i < keepers.length) :
    selections participants randomness first (i + 1) = some keepers[i] := by
  induction h generalizing first i with
  | none => cases hi
  | @more s s₁ s' keeper keepers chosen fails rest ih =>
    obtain ⟨chosenKeeper, -, hselect, -⟩ := exists_selectKeeper hsorted hn randomness (some first)
    rw [choose_eq p hs hr hp hselect] at chosen
    cases chosen
    cases i with
    | zero => exact hselect
    | succ i =>
      obtain ⟨hs₁, hr₁, hp₁⟩ := fails.reads
      rw [selections_shift hselect]
      exact ih (hs₁.trans hs) (hr₁.trans hr) hp₁ i (Nat.lt_of_succ_lt_succ hi)

/-- An attempt may come to nothing: the peers sign the transaction, and the keeper is too late. -/
theorem exists_attempt {s : Snapshot} (keeper : PublicKey)
    (hv : s.version.toNat + 3 < UInt64.size) :
    ∃ s', Attempt s keeper s' ∧ s'.version.toNat = s.version.toNat + 3 := by
  obtain ⟨s₁, h₁⟩ := Snapshot.exists_update? (show s.version.toNat + 1 < UInt64.size by omega)
    [Update.set Snapshot.Key.keeper keeper]
  have hv₁ := Snapshot.version_update? h₁
  obtain ⟨s₂, h₂⟩ := Snapshot.exists_update? (show s₁.version.toNat + 1 < UInt64.size by omega)
    [Update.set Snapshot.Key.signatures (SortedMap.empty : SortedMap PublicKey Signature)]
  have hv₂ := Snapshot.version_update? h₂
  obtain ⟨s₃, h₃⟩ := Snapshot.exists_update? (show s₂.version.toNat + 1 < UInt64.size by omega) []
  have hv₃ := Snapshot.version_update? h₃
  have hchosen : RoundKind.selectKeeper.concludeAgreed (.selectKeeper keeper) s = .ok (s₁, .done) :=
    (RoundKind.Settles.selectKeeper keeper).concludeAgreed_eq h₁
  have hsigned : RoundKind.collectSignature.conclude (.collected SortedMap.empty) s₁ =
      .ok (s₂, .done) := by
    unfold RoundKind.conclude RoundKind.concludeCollected
    dsimp only
    rw [show RoundKind.collectSignature.signaturesOf SortedMap.empty = .ok SortedMap.empty from rfl,
      ok_bind, RoundKind.updated_eq h₂]
    rfl
  have hlate : RoundKind.finalization.conclude .timeout s₂ = .ok (s₃, .roundTimeout) := by
    unfold RoundKind.conclude
    dsimp only
    rw [RoundKind.updated_eq h₃]
    rfl
  refine ⟨s₃, ⟨⟨keeper, Counter.zero, .selectKeeper keeper⟩, s₁, .done, .collectSignature, rfl,
    hchosen, rfl, .on hsigned rfl (by decide) (.back hlate rfl)⟩, by omega⟩

/-- So any number of attempts may come to nothing, one after the other. -/
theorem exists_failedAttempts (p : BehaviourParams) (hs : participants.Sorted)
    (hn : 2 ≤ participants.size) (n : Nat) {s : Snapshot}
    (hparticipants : s.participants = .ok participants) (hrandomness : s.randomness = .ok randomness)
    (hprevious : s.previousKeeper = .ok (some first))
    (hv : s.version.toNat + 3 * n < UInt64.size) :
    ∃ keepers s', FailedAttempts p s keepers s' ∧ keepers.length = n := by
  induction n generalizing s first with
  | zero => exact ⟨[], s, .none s, rfl⟩
  | succ n ih =>
    obtain ⟨keeper, -, hselect, -⟩ := exists_selectKeeper hs hn randomness (some first)
    obtain ⟨s₁, hattempt, hv₁⟩ := exists_attempt (s := s) keeper (by omega)
    obtain ⟨hparticipants₁, hrandomness₁, hprevious₁⟩ := hattempt.reads
    obtain ⟨keepers, s', h, hlength⟩ := ih (hparticipants₁.trans hparticipants)
      (hrandomness₁.trans hrandomness) hprevious₁ (by omega)
    exact ⟨keeper :: keepers, s',
      .more (choose_eq p hparticipants hrandomness hprevious hselect) hattempt h,
      congrArg (· + 1) hlength⟩

/-- **However many attempts fail, they fail with the same two peers.** Among two peers or more the
choice never falls on the previous keeper. Chosen again and again with the same randomness, whoever
was the keeper first, the keepers are the peers at the position drawn from the randomness and the
next one, in turn. And these are the keepers whose attempts fail in the service, as long as it comes
back to the choice of a keeper without new randomness: because the keeper sent nothing, because the
peers found its transaction wanting, or because a round took too long. -/
theorem retries_try_two_peers (hs : participants.Sorted) (hn : 2 ≤ participants.size)
    (randomness : Randomness) :
    (∀ previous, ∃ keeper ∈ participants.peers,
      selectKeeper participants randomness previous = some keeper ∧ previous ≠ some keeper) ∧
    ∃ k a b, k = keeperDraw randomness (participants.size - 1) ∧
      participants.peers[k]? = some a ∧ participants.peers[k + 1]? = some b ∧
      ∀ (j : Nat) (first : PublicKey), participants.peers[j]? = some first →
        (∀ n, selections participants randomness first (n + 1) =
          some (if n % 2 = 0 ↔ k < j then a else b)) ∧
        ∀ (p : BehaviourParams) (s s' : Snapshot) (keepers : List PublicKey),
          FailedAttempts p s keepers s' → s.participants = .ok participants →
          s.randomness = .ok randomness → s.previousKeeper = .ok (some first) →
          ∀ i (hi : i < keepers.length), keepers[i] = if i % 2 = 0 ↔ k < j then a else b := by
  refine ⟨exists_selectKeeper hs hn randomness, ?_⟩
  generalize hk : keeperDraw randomness (participants.size - 1) = k
  have hlt : k + 1 < participants.peers.length :=
    Nat.add_lt_of_lt_sub (hk ▸ keeperDraw_lt randomness (Nat.sub_pos_of_lt hn))
  have ha := List.getElem?_eq_getElem (Nat.lt_of_succ_lt hlt)
  have hb := List.getElem?_eq_getElem hlt
  refine ⟨k, _, _, rfl, ha, hb, fun j first hfirst => ?_⟩
  have hall (n : Nat) : selections participants randomness first (n + 1) =
      some (if n % 2 = 0 ↔ k < j then participants.peers[k] else participants.peers[k + 1]) := by
    rw [selections_succ hs hn hk hfirst]
    split_ifs
    · exact ha
    · exact hb
  refine ⟨hall, fun p s s' keepers h hparticipants hrandomness hprevious i hi => ?_⟩
  have hi' := h.eq_selections hs hn hparticipants hrandomness hprevious i hi
  rw [hall] at hi'
  exact (Option.some.inj hi').symm

/-! ## Three peers -/

/-- Three peers. -/
def trio : PeerSet := ⟨[Octets.fill 0, Octets.fill 1, Octets.fill 2]⟩

/-- The last of the three peers was the keeper. -/
def lastOfTrio : Snapshot where
  version := Counter.ofNat 3
  db := SortedMap.ofList [(Snapshot.Key.participants, Wire.encode trio),
    (Snapshot.Key.randomness, Wire.encode (Octets.zero : Randomness)),
    (Snapshot.Key.keeper, Wire.encode (Octets.fill 2 : PublicKey))]

theorem reads_lastOfTrio : lastOfTrio.participants = .ok trio ∧
    lastOfTrio.randomness = .ok Octets.zero ∧
    lastOfTrio.previousKeeper = .ok (some (Octets.fill 2)) := by
  decide +kernel

/-- The third peer is never the keeper again, and two attempts in a row can fail without it. -/
theorem retries_try_two_peers_of_trio :
    (∀ n, selections trio Octets.zero (Octets.fill 2) (n + 1) =
      some (if n % 2 = 0 then Octets.fill 0 else Octets.fill 1)) ∧
    ∃ s', FailedAttempts .standard lastOfTrio [Octets.fill 0, Octets.fill 1] s' := by
  have hs : trio.Sorted := by unfold PeerSet.Sorted; decide
  obtain ⟨hparticipants, hrandomness, hprevious⟩ := reads_lastOfTrio
  obtain ⟨-, k, a, b, hk, ha, hb, hall⟩ :=
    retries_try_two_peers hs (by decide) Octets.zero
  obtain rfl : k = 0 := by rw [hk]; decide +kernel
  cases ha
  cases hb
  obtain ⟨hselections, hattempts⟩ := hall 2 (Octets.fill 2) rfl
  refine ⟨fun n => by simpa using hselections n, ?_⟩
  obtain ⟨keepers, s', h, hlength⟩ := exists_failedAttempts .standard hs (by decide) 2 hparticipants
    hrandomness hprevious (by decide)
  have hkeepers := hattempts _ _ _ _ h hparticipants hrandomness hprevious
  match keepers, hlength with
  | [c, d], _ =>
    have hc : c = Octets.fill 0 := hkeepers 0 (by simp)
    have hd : d = Octets.fill 1 := hkeepers 1 (by simp)
    exact ⟨s', hc ▸ hd ▸ h⟩

end Quorum
