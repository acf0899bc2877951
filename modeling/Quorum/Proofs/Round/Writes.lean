import Quorum.Proofs.Snapshot.Conforming
import Quorum.Round.Voting

/-!
# What a round writes

* `RoundKind.writes` : the keys that a kind of round may write when it ends with an event;
* `Snapshot.Revises` : one snapshot follows another, and differs from it at most under some keys, of
  which none is removed;
* `conclude_revises` : a decision that is carried out revises the data under the keys of its round;
* `Round.endBlock_cases_of_ok` : so a block that does not fail leaves a round as it is, or ends it
  with such a revision.
-/

namespace Quorum

/-- Every step of a computation that gives a result gave one. -/
theorem bind_eq_ok {ε α β : Type} {x : Except ε α} {f : α → Except ε β} {b : β} :
    (x >>= f) = .ok b ↔ ∃ a, x = .ok a ∧ f a = .ok b := by
  cases x with
  | error e => simp [bind, Except.bind]
  | ok a => simp [bind, Except.bind]

namespace RoundKind

open Snapshot

/-- The keys that a kind of round may write when it ends with an event. -/
def writes : RoundKind → Event → List String
  | registrationStartup, .done => [Key.participants]
  | randomness, .done => [Key.randomness, Key.randomnessRound]
  | selectKeeper, .done => [Key.keeper]
  | collectSignature, .done => [Key.signatures]
  | finalization, .done => [Key.finalTx]
  | validateTransaction, .done => [Key.periodCount]
  | termination, .terminate => [Key.terminationReached, Key.terminationTx]
  | _, _ => []

end RoundKind

/-! ## Revisions -/

/-- The update only sets some keys. -/
def Update.Sets (u : Update) (keys : List String) : Prop :=
  ∀ d ∈ u, d.1 ∈ keys ∧ ∃ value, d.2 = some value

/-- The snapshot `t` follows `s`, and differs from it at most under some keys, of which none is
removed. -/
structure Snapshot.Revises (s t : Snapshot) (keys : List String) : Prop where
  version : t.version.toNat = s.version.toNat + 1
  frame : ∀ key, key ∉ keys → t.db.get? key = s.db.get? key
  keeps : ∀ key, s.Has key → t.Has key

theorem Update.Sets.revises {u : Update} {keys : List String} {s t : Snapshot} (h : u.Sets keys)
    (ht : s.update? u = some t) : s.Revises t keys where
  version := Snapshot.version_update? ht
  frame := by
    intro key hkey
    rw [Snapshot.get?_update? ht]
    cases hl : u.last? key with
    | none => rfl
    | some w => exact absurd (h _ (mem_of_last? hl)).1 hkey
  keeps := by
    rintro key ⟨value, hvalue⟩
    unfold Snapshot.Has
    rw [Snapshot.get?_update? ht, hvalue]
    cases hl : u.last? key with
    | none => exact ⟨value, rfl⟩
    | some w =>
      obtain ⟨-, w', hw⟩ := h _ (mem_of_last? hl)
      exact ⟨w', hw⟩

namespace RoundKind

variable {k : RoundKind} {data s : Snapshot} {e : Event} {u : Update} {keys : List String}

theorem updated_eq_ok (h : updated data u = .ok s) : data.update? u = some s := by
  unfold updated at h
  cases hu : data.update? u with
  | none =>
    rw [hu] at h
    cases h
  | some t =>
    rw [hu] at h
    cases h
    rfl

/-- A round that ends with an update of its own keys revises the data under them. -/
theorem revises_of_updated {event : Event} (hu : u.Sets (k.writes event))
    (h : (do let t ← updated data u; pure (t, event)) = Except.ok (s, e)) :
    data.Revises s (k.writes e) := by
  obtain ⟨t, ht, h⟩ := bind_eq_ok.1 h
  cases h
  exact hu.revises (updated_eq_ok ht)

theorem concludeAgreed_revises {v : Vote} (h : k.concludeAgreed v data = .ok (s, e)) :
    data.Revises s (k.writes e) := by
  unfold concludeAgreed at h
  split at h
  case h_5 ok =>
    split_ifs at h
    · obtain ⟨periods, -, h⟩ := bind_eq_ok.1 h
      exact revises_of_updated (by simp [Update.Sets, Update.set, writes]) h
    · exact revises_of_updated (by simp [Update.Sets]) h
  case h_7 => cases h
  all_goals exact revises_of_updated (by simp [Update.Sets, Update.set, writes]) h

theorem concludeCollected_revises {payloads : SortedMap PublicKey Payload}
    (h : k.concludeCollected payloads data = .ok (s, e)) : data.Revises s (k.writes e) := by
  unfold concludeCollected at h
  split at h
  · exact revises_of_updated (by simp [Update.Sets, Update.set, writes]) h
  · obtain ⟨sigs, -, h⟩ := bind_eq_ok.1 h
    exact revises_of_updated (by simp [Update.Sets, Update.set, writes]) h
  · cases h

/-- **A decision that is carried out revises the data under the keys of its round.** -/
theorem conclude_revises {d : Decision} (h : k.conclude d data = .ok (s, e)) :
    data.Revises s (k.writes e) := by
  unfold conclude at h
  cases d with
  | agreed p => exact concludeAgreed_revises h
  | collected payloads => exact concludeCollected_revises h
  | noMajority | timeout =>
    rw [← bind_pure_comp] at h
    exact revises_of_updated (by simp [Update.Sets]) h

end RoundKind

/-- A block that does not fail leaves a round as it is, or ends it and revises the data. -/
theorem Round.endBlock_cases_of_ok {r r' : Round} {data : Snapshot} {height : Height}
    {timeout : UInt64} {o : Option (Snapshot × Event)}
    (h : r.endBlock data height timeout = (r', .ok o)) :
    (o = none ∧ r' = r) ∨ ∃ s e, o = some (s, e) ∧ r' = { r with concluded := true } ∧
      data.Revises s (r.kind.writes e) := by
  unfold endBlock at h
  split_ifs at h
  · cases h
    exact .inl ⟨rfl, rfl⟩
  cases hd : r.decide height timeout with
  | error e =>
    rw [hd] at h
    cases h
  | ok d =>
    rw [hd] at h
    cases d with
    | none =>
      cases h
      exact .inl ⟨rfl, rfl⟩
    | some d =>
      cases hc : r.kind.conclude d data with
      | error e =>
        simp only [hc] at h
        cases h
      | ok res =>
        simp only [hc] at h
        cases h
        exact .inr ⟨_, _, rfl, rfl, RoundKind.conclude_revises hc⟩

end Quorum
