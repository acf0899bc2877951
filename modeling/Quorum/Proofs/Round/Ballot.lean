import Quorum.Proofs.Round.Tally

/-!
# What a round holds after a list of submissions

* `Submission.ballot?` : the payload that a submission casts for a peer, if its bytes decode to a
  payload that names the peer, the peer signed exactly these bytes, and the payload is of the kind
  and the round count asked for;
* `lastBallot` : the last one of a list of submissions;
* `Round.collect`, `Round.collectAll` : the round after submissions, those that do not count
  dropped;
* `get?_collectAll` : the round holds the last ballot of every peer that it hears;
* `Round.takes` : whether a submission counts, which the submissions before it do not change
  (`takes_collectAll`).
-/

namespace Quorum

/-- The payload that a submission casts for a peer in a round of a kind; no round count asks for
payloads of every round count. -/
def Submission.ballot? (s : Submission) (kind : RoundKind) (count : Option RoundCount)
    (pk : PublicKey) : Option Payload :=
  match Wire.decodeWhole Payload s.payload with
  | .error _ => none
  | .ok p =>
    if p.sender = pk ∧ s.signedBy pk = true ∧ kind.votes? = some p.kind ∧
        (count = none ∨ count = some p.roundCount) then some p
    else none

/-- The last payload that a list of submissions casts for a peer. -/
def lastBallot (kind : RoundKind) (count : Option RoundCount) (subs : List Submission)
    (pk : PublicKey) : Option Payload :=
  (subs.filterMap fun s => s.ballot? kind count pk).getLast?

theorem lastBallot_append (kind : RoundKind) (count : Option RoundCount)
    (xs ys : List Submission) (pk : PublicKey) :
    lastBallot kind count (xs ++ ys) pk =
      (lastBallot kind count ys pk).or (lastBallot kind count xs pk) := by
  unfold lastBallot
  rw [List.filterMap_append, List.getLast?_append]

@[simp] theorem lastBallot_nil (kind : RoundKind) (count : Option RoundCount) (pk : PublicKey) :
    lastBallot kind count [] pk = none := rfl

theorem lastBallot_singleton (kind : RoundKind) (count : Option RoundCount) (s : Submission)
    (pk : PublicKey) : lastBallot kind count [s] pk = s.ballot? kind count pk := by
  unfold lastBallot
  rw [List.filterMap_cons]
  cases s.ballot? kind count pk <;> rfl

/-- What a submission that opens casts. -/
theorem Submission.ballot?_of_open {s : Submission} {p : Payload} (h : s.open = .ok p)
    (kind : RoundKind) (count : Option RoundCount) (pk : PublicKey) :
    s.ballot? kind count pk = if pk = p.sender ∧ kind.votes? = some p.kind ∧
      (count = none ∨ count = some p.roundCount) then some p else none := by
  unfold «open» at h
  unfold ballot?
  cases hd : Wire.decodeWhole Payload s.payload with
  | error e =>
    rw [hd] at h
    cases h
  | ok q =>
    rw [hd] at h
    by_cases hs : s.signedBy q.sender = true
    · simp only [hs, if_true, Except.ok.injEq] at h
      subst h
      dsimp only
      by_cases hpk : pk = q.sender
      · subst hpk
        simp only [hs, true_and]
      · rw [if_neg fun h => hpk h.1.symm, if_neg fun h => hpk h.1]
    · simp only [hs] at h
      cases h

/-- The last ballot is one of the ballots. -/
theorem exists_ballot_of_lastBallot {kind : RoundKind} {count : Option RoundCount}
    {subs : List Submission} {pk : PublicKey} {p : Payload}
    (h : lastBallot kind count subs pk = some p) :
    ∃ s ∈ subs, s.ballot? kind count pk = some p := by
  unfold lastBallot at h
  exact List.mem_filterMap.1 (List.mem_of_getLast? h)

namespace Round

/-- The round count that the payloads of a round have, if they must have one. -/
def countTag (r : Round) : Option RoundCount := if r.anyRoundCount then none else some r.roundCount

/-- The round after a submission, unchanged if it does not count. -/
def collect (r : Round) (s : Submission) : Round :=
  match r.submit s with
  | .ok r' => r'
  | .error _ => r

/-- The round after submissions, those that do not count dropped. -/
def collectAll (r : Round) (subs : List Submission) : Round := subs.foldl collect r

theorem collectAll_singleton (r : Round) (s : Submission) : r.collectAll [s] = r.collect s := rfl

theorem collectAll_cons (r : Round) (s : Submission) (subs : List Submission) :
    r.collectAll (s :: subs) = (r.collect s).collectAll subs := rfl

theorem expects_iff {r : Round} {p : Payload} :
    r.Expects p ↔ r.kind.votes? = some p.kind ∧
      (r.countTag = none ∨ r.countTag = some p.roundCount) := by
  unfold Expects countTag
  cases r.anyRoundCount <;> simp [eq_comm]

/-- A submission counts exactly if it casts a ballot for a peer that the round hears. -/
theorem submit_cases {r : Round} (hc : r.concluded = false) (s : Submission) :
    (∃ p, s.open = .ok p ∧ r.check p = .ok () ∧ r.submit s = .ok (r.count p) ∧
        r.hears p.sender = true ∧ ∀ pk, s.ballot? r.kind r.countTag pk =
          if pk = p.sender then some p else none) ∨
      (∃ e, r.submit s = .error e) ∧
        ∀ pk, r.hears pk = true → s.ballot? r.kind r.countTag pk = none := by
  unfold submit Submission.open Submission.ballot?
  cases Wire.decodeWhole Payload s.payload with
  | error e => exact .inr ⟨⟨_, rfl⟩, fun _ _ => rfl⟩
  | ok p =>
    by_cases hs : s.signedBy p.sender = true
    · simp only [hs, if_true]
      by_cases hp : r.hears p.sender = true ∧ r.Expects p
      · have hck : r.check p = .ok () := check_eq_ok_iff.2 ⟨hc, hp⟩
        refine .inl ⟨p, rfl, hck, accept_eq_ok_iff.2 ⟨⟨hc, hp⟩, rfl⟩, hp.1, fun pk => ?_⟩
        by_cases hpk : pk = p.sender
        · subst hpk
          rw [if_pos rfl, if_pos ⟨rfl, hs, expects_iff.1 hp.2⟩]
        · rw [if_neg hpk, if_neg fun h => hpk h.1.symm]
      · refine .inr ⟨accept_eq_error fun h => hp h.2, fun pk hpk => if_neg ?_⟩
        rintro ⟨rfl, -, he⟩
        exact hp ⟨hpk, expects_iff.2 he⟩
    · simp only [hs]
      refine .inr ⟨⟨_, rfl⟩, fun pk _ => if_neg ?_⟩
      rintro ⟨rfl, h, -⟩
      exact hs h

theorem collect_of_unopened (r : Round) {s : Submission} {e : OpenError} (hs : s.open = .error e) :
    r.collect s = r := by
  unfold collect submit
  rw [hs]

theorem collect_of_accepted {r r' : Round} {s : Submission} {p : Payload} (hs : s.open = .ok p)
    (hp : r.accept p = .ok r') : r.collect s = r' := by
  unfold collect submit
  rw [hs]
  simp only [hp]

theorem collect_of_refused {r : Round} {s : Submission} {p : Payload} {e : Rejection}
    (hs : s.open = .ok p) (hp : r.accept p = .error e) : r.collect s = r := by
  unfold collect submit
  rw [hs]
  simp only [hp]

/-- A round drops votes of other kinds. -/
theorem collect_of_votes {r : Round} {s : Submission} {p : Payload} (hs : s.open = .ok p)
    (hv : r.kind.votes? ≠ some p.kind) : r.collect s = r := by
  obtain ⟨e, he⟩ := accept_eq_error fun h => hv h.2.2.1
  exact collect_of_refused hs he

theorem collect_eq (r : Round) (s : Submission) :
    r.collect s = r ∨ ∃ p, r.collect s = r.count p := by
  unfold collect submit
  cases s.open with
  | error e => exact .inl rfl
  | ok p =>
    dsimp only
    cases ha : r.accept p with
    | error e => exact .inl rfl
    | ok r' => exact .inr ⟨p, (accept_eq_ok_iff.1 ha).2⟩

/-- Collecting changes nothing but the payloads and the values seen. -/
theorem collectAll_eq (r : Round) (subs : List Submission) : r.collectAll subs =
    { r with payloads := (r.collectAll subs).payloads, seen := (r.collectAll subs).seen } := by
  induction subs generalizing r with
  | nil => rfl
  | cons s subs ih =>
    rw [collectAll_cons]
    rcases collect_eq r s with h | ⟨p, h⟩
    · rw [h]
      exact ih r
    · rw [h]
      exact ih (r.count p)

theorem collectAll_emptied (r : Round) (subs : List Submission) :
    { r.collectAll subs with payloads := SortedMap.empty, seen := [] } =
      { r with payloads := SortedMap.empty, seen := [] } := by
  rw [collectAll_eq]

section
variable (r : Round) (subs : List Submission)

@[simp] theorem collectAll_kind : (r.collectAll subs).kind = r.kind := by rw [collectAll_eq]
@[simp] theorem collectAll_concluded : (r.collectAll subs).concluded = r.concluded := by
  rw [collectAll_eq]
@[simp] theorem collectAll_roundCount : (r.collectAll subs).roundCount = r.roundCount := by
  rw [collectAll_eq]
@[simp] theorem collectAll_participants : (r.collectAll subs).participants = r.participants := by
  rw [collectAll_eq]
@[simp] theorem collectAll_threshold : (r.collectAll subs).threshold = r.threshold := by
  rw [collectAll_eq]
@[simp] theorem collectAll_startHeight : (r.collectAll subs).startHeight = r.startHeight := by
  rw [collectAll_eq]
@[simp] theorem collectAll_keeper : (r.collectAll subs).keeper = r.keeper := by rw [collectAll_eq]
@[simp] theorem collectAll_anyRoundCount :
    (r.collectAll subs).anyRoundCount = r.anyRoundCount := by rw [collectAll_eq]
@[simp] theorem collectAll_countTag : (r.collectAll subs).countTag = r.countTag := by
  rw [collectAll_eq]
  rfl
@[simp] theorem collectAll_hears : (r.collectAll subs).hears = r.hears := by
  rw [collectAll_eq]
  rfl

end

theorem get?_collect {r : Round} (hc : r.concluded = false) (s : Submission) (pk : PublicKey) :
    (r.collect s).payloads.get? pk =
      if r.hears pk = true then (s.ballot? r.kind r.countTag pk).or (r.payloads.get? pk)
      else r.payloads.get? pk := by
  unfold collect
  rcases submit_cases hc s with ⟨p, -, -, hs, hh, hb⟩ | ⟨⟨e, hs⟩, hb⟩
  · rw [hs, hb]
    simp only [get?_count]
    by_cases hpk : pk = p.sender
    · rw [if_pos hpk, if_pos hpk, if_pos (hpk ▸ hh)]
      rfl
    · rw [if_neg hpk, if_neg hpk, Option.none_or, ite_self]
  · rw [hs]
    by_cases hh : r.hears pk = true
    · rw [if_pos hh, hb pk hh]
      rfl
    · rw [if_neg hh]

/-- **A round holds the last ballot of every peer that it hears.** -/
theorem get?_collectAll {r : Round} (hc : r.concluded = false) (subs : List Submission)
    (pk : PublicKey) : (r.collectAll subs).payloads.get? pk =
      if r.hears pk = true then (lastBallot r.kind r.countTag subs pk).or (r.payloads.get? pk)
      else r.payloads.get? pk := by
  induction subs generalizing r with
  | nil =>
    rw [lastBallot_nil, Option.none_or, ite_self]
    rfl
  | cons s subs ih =>
    have hs := (r.collectAll_singleton s).symm
    have hc' : (r.collect s).concluded = false := by rw [hs, collectAll_concluded, hc]
    rw [collectAll_cons, ih hc', get?_collect hc, hs, collectAll_hears, collectAll_kind,
      collectAll_countTag, show s :: subs = [s] ++ subs from rfl, lastBallot_append,
      lastBallot_singleton]
    by_cases hh : r.hears pk = true
    · rw [if_pos hh, if_pos hh, if_pos hh, Option.or_assoc]
    · rw [if_neg hh, if_neg hh, if_neg hh]

theorem WellFormed.collectAll {r : Round} (h : r.WellFormed) (hc : r.concluded = false)
    (subs : List Submission) : (r.collectAll subs).WellFormed := by
  induction subs generalizing r with
  | nil => exact h
  | cons s subs ih =>
    have hs := (r.collectAll_singleton s).symm
    refine ih (r := r.collect s) ?_ (by rw [hs, collectAll_concluded, hc])
    unfold collect
    rcases submit_cases hc s with ⟨p, -, hck, hsub, -⟩ | ⟨⟨e, hsub⟩, -⟩
    · rw [hsub]
      exact h.count hck
    · rw [hsub]
      exact h

/-! ## What counts does not depend on what counted -/

/-- Whether a submission counts. -/
def takes (r : Round) (s : Submission) : Bool := (r.submit s).isOk

/-- A submission counts exactly if it opens and the round still collects, listens to its sender and
expects its payload. -/
theorem takes_iff {r : Round} {s : Submission} : r.takes s = true ↔
    ∃ p, s.open = .ok p ∧ r.concluded = false ∧ r.hears p.sender = true ∧ r.Expects p := by
  unfold takes submit
  cases hs : s.open with
  | error e => simp [Except.isOk, Except.toBool]
  | ok p =>
    constructor
    · intro h
      cases hr : r.accept p with
      | ok r' => exact ⟨p, rfl, (accept_eq_ok_iff.1 hr).1⟩
      | error e =>
        simp only [hr] at h
        cases h
    · rintro ⟨q, hq, h⟩
      cases hq
      simp only [accept_eq_ok_iff.2 ⟨h, rfl⟩]
      rfl

/-- Rounds that ask the same peers for the same payloads take the same submissions. -/
theorem takes_congr {r r' : Round} (hc : r'.concluded = r.concluded) (hh : r'.hears = r.hears)
    (hk : r'.kind = r.kind) (ht : r'.countTag = r.countTag) : r'.takes = r.takes := by
  funext s
  rw [Bool.eq_iff_iff, takes_iff, takes_iff]
  simp only [expects_iff, hc, hh, hk, ht]

theorem takes_collectAll (r : Round) (subs : List Submission) :
    (r.collectAll subs).takes = r.takes :=
  takes_congr (r.collectAll_concluded subs) (r.collectAll_hears subs) (r.collectAll_kind subs)
    (r.collectAll_countTag subs)

/-- A round takes no votes of other kinds. -/
theorem takes_of_votes {r : Round} {s : Submission} {p : Payload} (hs : s.open = .ok p)
    (hv : r.kind.votes? ≠ some p.kind) : r.takes s = false := by
  rw [Bool.eq_false_iff]
  intro h
  obtain ⟨q, hq, -, -, he, -⟩ := takes_iff.1 h
  cases hs.symm.trans hq
  exact hv he

end Round

end Quorum
