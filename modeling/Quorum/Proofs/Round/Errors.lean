import Quorum.Round.Voting

/-!
# Errors that a decision never leads to

* `Avoids` : a result that is none of some errors;
* `Foreign` : errors that are neither about the agreed data nor about the payloads of a decision;
* `RoundKind.avoids_conclude` : no decision leads to one of those, whatever the agreed data holds.
-/

namespace Quorum

/-- The result is none of some errors. -/
def Avoids {ι α : Type} (bad : ι → FatalError) (r : Except FatalError α) : Prop :=
  ∀ i, r ≠ .error (bad i)

section
variable {ι α β ε : Type} {bad : ι → FatalError}

theorem avoids_ok (a : α) : Avoids bad (.ok a) := nofun

theorem avoids_error {e : FatalError} (h : ∀ i, e ≠ bad i) :
    Avoids bad (.error e : Except FatalError α) := fun i he => h i (Except.error.inj he)

/-- An error that is passed on. -/
theorem Avoids.of_error {r : Except FatalError α} {e : FatalError} (h : Avoids bad r)
    (hr : r = .error e) : Avoids bad (.error e : Except FatalError β) :=
  avoids_error fun i he => h i (he ▸ hr)

theorem Avoids.bind {r : Except FatalError α} {f : α → Except FatalError β} (h : Avoids bad r)
    (hf : ∀ a, Avoids bad (f a)) : Avoids bad (r >>= f) := by
  cases r with
  | ok a => exact hf a
  | error e => exact h.of_error rfl

theorem Avoids.map {r : Except FatalError α} (h : Avoids bad r) (f : α → β) :
    Avoids bad (r.map f) := by
  cases r with
  | ok a => exact avoids_ok _
  | error e => exact h.of_error rfl

theorem avoids_mapError {f : ε → FatalError} (hf : ∀ e i, f e ≠ bad i) (r : Except ε α) :
    Avoids bad (r.mapError f) := by
  cases r with
  | ok a => exact avoids_ok a
  | error e => exact avoids_error (hf e)

theorem avoids_foldlM {f : β → α → Except FatalError β} (hf : ∀ b a, Avoids bad (f b a)) (b : β)
    (as : List α) : Avoids bad (as.foldlM f b) := by
  induction as generalizing b with
  | nil => exact avoids_ok b
  | cons a as ih => exact (hf b a).bind fun b' => ih b'

end

/-- Errors that are neither about the agreed data nor about the payloads of a decision. -/
structure Foreign {ι : Type} (bad : ι → FatalError) : Prop where
  snapshot : ∀ k cause i, FatalError.snapshot k cause ≠ bad i
  unexpectedPayload : ∀ k v i, FatalError.unexpectedPayload k v ≠ bad i
  unexpectedDecision : ∀ k i, FatalError.unexpectedDecision k ≠ bad i
  outOfNumbers : ∀ i, FatalError.outOfNumbers ≠ bad i

namespace RoundKind

section
variable {ι : Type} {bad : ι → FatalError} (hbad : Foreign bad)
include hbad

theorem avoids_reading {α : Type} (k : RoundKind) (r : Except SnapshotError α) :
    Avoids bad (k.reading r) := avoids_mapError (hbad.snapshot k) r

theorem avoids_updated (data : Snapshot) (u : Update) : Avoids bad (updated data u) := by
  unfold updated
  split
  · exact avoids_ok _
  · exact avoids_error hbad.outOfNumbers

theorem avoids_participants (k : RoundKind) (data : Snapshot) (configured : PeerSet) :
    Avoids bad (k.participants data configured) := by
  unfold participants
  split
  · exact avoids_ok _
  · exact avoids_reading hbad k _

theorem avoids_keeper? (k : RoundKind) (data : Snapshot) : Avoids bad (k.keeper? data) := by
  unfold keeper?
  split
  · exact (avoids_reading hbad k _).map some
  · exact avoids_ok none

theorem avoids_signaturesOf (k : RoundKind) (payloads : SortedMap PublicKey Payload) :
    Avoids bad (k.signaturesOf payloads) := by
  refine avoids_foldlM (fun m e => ?_) _ _
  split
  · exact avoids_ok _
  · exact avoids_error (hbad.unexpectedPayload k _)

/-- An update that is made with an event. -/
theorem avoids_updated_bind (data : Snapshot) (u : Update) (e : Event) :
    Avoids bad (updated data u >>= fun s => pure (s, e)) :=
  (avoids_updated hbad data u).bind fun _ => avoids_ok _

theorem avoids_concludeCollected (k : RoundKind) (payloads : SortedMap PublicKey Payload)
    (data : Snapshot) : Avoids bad (k.concludeCollected payloads data) := by
  unfold concludeCollected
  split
  · exact avoids_updated_bind hbad _ _ _
  · exact (avoids_signaturesOf hbad _ _).bind fun _ => avoids_updated_bind hbad _ _ _
  · exact avoids_error (hbad.unexpectedDecision k)

theorem avoids_concludeAgreed (k : RoundKind) (vote : Vote) (data : Snapshot) :
    Avoids bad (k.concludeAgreed vote data) := by
  unfold concludeAgreed
  split
  case h_5 =>
    split
    · exact (avoids_reading hbad _ _).bind fun _ => avoids_updated_bind hbad _ _ _
    · exact avoids_updated_bind hbad _ _ _
  case h_7 => exact avoids_error (hbad.unexpectedPayload k _)
  all_goals exact avoids_updated_bind hbad _ _ _

/-- No decision leads to a foreign error, whatever the agreed data holds. -/
theorem avoids_conclude (k : RoundKind) (d : Decision) (data : Snapshot) :
    Avoids bad (k.conclude d data) := by
  cases d with
  | agreed payload => exact avoids_concludeAgreed hbad k _ _
  | collected payloads => exact avoids_concludeCollected hbad k _ _
  | noMajority => exact (avoids_updated hbad data []).map _
  | timeout => exact (avoids_updated hbad data []).map _

end

end RoundKind

end Quorum
