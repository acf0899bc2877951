import Quorum.Proofs.Round.Verdict

/-!
# The order in which votes come

* `Rearranged` : a list of submissions in another order, those that name one sender in the same;
* `Round.unordered`, `Round.SameVotes` : a round but for the order in which values were first seen,
  and rounds that differ in this order alone;
* `SameVotes.collectAll` : rearranged submissions lead to the same votes
  (`Rearranged.lastBallot_eq`);
* `WellFormed.endBlock_eq` : rounds with the same votes end a block in the same way, because a
  winner depends on how many hold a value and not on the order of the tally
  (`WellFormed.winner?_eq`).
-/

namespace Quorum

/-! ## Submissions in another order -/

/-- Whether a submission names a peer as its sender, whoever signed it. -/
def Submission.names (s : Submission) (pk : PublicKey) : Bool :=
  match Wire.decodeWhole Payload s.payload with
  | .ok p => p.sender = pk
  | .error _ => false

/-- The same submissions in another order, but in the same among those that name one sender. -/
structure Rearranged (xs ys : List Submission) : Prop where
  perm : xs.Perm ys
  bySender : ∀ pk, xs.filter (·.names pk) = ys.filter (·.names pk)

theorem Submission.names_of_open {s : Submission} {p : Payload} (h : s.open = .ok p)
    (pk : PublicKey) : s.names pk = decide (p.sender = pk) := by
  unfold «open» at h
  unfold names
  cases hd : Wire.decodeWhole Payload s.payload with
  | error e =>
    rw [hd] at h
    cases h
  | ok q =>
    rw [hd] at h
    dsimp only at h ⊢
    split_ifs at h
    rw [Except.ok.inj h]

theorem Rearranged.refl (xs : List Submission) : Rearranged xs xs := ⟨.refl xs, fun _ => rfl⟩

/-- Neighbours that name different senders may change places. -/
theorem Rearranged.swap {s t : Submission} {p q : Payload} (hs : s.open = .ok p)
    (ht : t.open = .ok q) (hne : p.sender ≠ q.sender) (xs ys : List Submission) :
    Rearranged (xs ++ s :: t :: ys) (xs ++ t :: s :: ys) where
  perm := .append_left xs (.swap t s ys)
  bySender pk := by
    simp only [List.filter_append, List.filter_cons, Submission.names_of_open hs,
      Submission.names_of_open ht, decide_eq_true_eq]
    by_cases hp : p.sender = pk
    · have hq : q.sender ≠ pk := fun hq => hne (hp.trans hq.symm)
      simp only [if_pos hp, if_neg hq]
    · simp only [if_neg hp]

variable {kind : RoundKind} {count : Option RoundCount} {pk : PublicKey}

/-- A submission casts a ballot only for the peer that it names. -/
theorem Submission.ballot?_of_not_names {s : Submission} (h : s.names pk = false) :
    s.ballot? kind count pk = none := by
  unfold names at h
  unfold ballot?
  cases hd : Wire.decodeWhole Payload s.payload with
  | error e => rfl
  | ok p =>
    rw [hd] at h
    exact if_neg fun hp => of_decide_eq_false h hp.1

theorem lastBallot_filter (subs : List Submission) :
    lastBallot kind count (subs.filter (·.names pk)) pk = lastBallot kind count subs pk := by
  unfold lastBallot
  rw [List.filterMap_filter]
  refine congrArg List.getLast? (List.filterMap_congr fun s _ => ?_)
  cases hs : s.names pk with
  | true => rfl
  | false => exact (Submission.ballot?_of_not_names hs).symm

theorem Rearranged.lastBallot_eq {xs ys : List Submission} (h : Rearranged xs ys) :
    lastBallot kind count ys pk = lastBallot kind count xs pk := by
  rw [← lastBallot_filter ys, ← h.bySender pk, lastBallot_filter xs]

namespace Round

variable {r r' : Round} {xs ys : List Submission}

/-! ## Rounds with the same votes -/

/-- The round but for the order in which values were first seen. -/
def unordered (r : Round) : Round := { r with seen := [] }

/-- The rounds differ at most in this order. -/
abbrev SameVotes (r r' : Round) : Prop := r'.unordered = r.unordered

theorem SameVotes.exists_seen (h : r.SameVotes r') : ∃ seen, r' = { r with seen } :=
  ⟨r'.seen, congrArg (fun x : Round => { x with seen := r'.seen }) h⟩

/-- Rearranged submissions lead to the same votes. -/
theorem SameVotes.collectAll (h : r.SameVotes r') (hc : r.concluded = false)
    (hs : Rearranged xs ys) : (r.collectAll xs).SameVotes (r'.collectAll ys) := by
  obtain ⟨seen, rfl⟩ := h.exists_seen
  have hvotes : (Round.collectAll { r with seen } ys).payloads = (r.collectAll xs).payloads := by
    refine SortedMap.ext_get? fun pk => ?_
    rw [get?_collectAll (r := { r with seen }) hc, get?_collectAll hc, ← hs.lastBallot_eq]
    rfl
  unfold SameVotes
  rw [collectAll_eq r xs, collectAll_eq _ ys]
  unfold unordered
  rw [hvotes]

theorem SameVotes.takes (h : r.SameVotes r') : r'.takes = r.takes := by
  obtain ⟨seen, rfl⟩ := h.exists_seen
  exact takes_congr rfl rfl rfl rfl

/-! ## The same end -/

/-- A winner depends on how many hold a value, and not on the order of the tally. -/
theorem WellFormed.winner?_eq (h : r.WellFormed) (h' : r'.WellFormed)
    (hsame : r.SameVotes r') : r'.winner? = r.winner? := by
  obtain ⟨w, hw, hiff⟩ := h.exists_winner
  obtain ⟨w', hw', hiff'⟩ := h'.exists_winner
  obtain ⟨seen, rfl⟩ := hsame.exists_seen
  have hheld (fp : Fingerprint) : w' = some fp ↔ w = some fp := (hiff' fp).trans (hiff fp).symm
  rw [hw, hw', Option.ext fun fp => hheld fp]

theorem WellFormed.decide_eq (h : r.WellFormed) (h' : r'.WellFormed)
    (hsame : r.SameVotes r') (height : Height) (timeout : UInt64) :
    r'.decide height timeout = r.decide height timeout := by
  have hw := h.winner?_eq h' hsame
  obtain ⟨seen, rfl⟩ := hsame.exists_seen
  have hvotes : Round.decideByVotes { r with seen } = r.decideByVotes := by
    unfold decideByVotes
    rw [hw]
    rfl
  unfold decide
  rw [hvotes]
  rfl

/-- **Rounds with the same votes end a block in the same way.** -/
theorem WellFormed.endBlock_eq (h : r.WellFormed) (h' : r'.WellFormed)
    (hsame : r.SameVotes r') (data : Snapshot) (height : Height) (timeout : UInt64) :
    (r'.endBlock data height timeout).2 = (r.endBlock data height timeout).2 := by
  have hd := h.decide_eq h' hsame height timeout
  obtain ⟨seen, rfl⟩ := hsame.exists_seen
  unfold endBlock
  rw [hd]
  cases hc : r.concluded with
  | true => rfl
  | false =>
    cases r.decide height timeout with
    | error e => rfl
    | ok o =>
      cases o with
      | none => rfl
      | some d => cases hcon : r.kind.conclude d data <;> simp only [hcon] <;> rfl

end Round

end Quorum
