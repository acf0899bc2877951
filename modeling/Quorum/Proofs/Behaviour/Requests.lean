import Mathlib.Tactic.SplitIfs
import Quorum.Behaviour.Task
import Quorum.Proofs.Data.Map

/-!
# Open requests

A request is open until a response to it is offered or its instance is released.

* `Dispatcher.owner?` : the instance that a request is open for;
* `Dispatcher.Continues` : what is open now was open before, or was made since, under a number that
  was not given before;
* `Continues.owner?_eq` : so a number stands for one instance for good;
* `continues_deliver`, `continues_release`, … : everything that happens to a dispatcher continues it;
* `owner?_release` : nothing is open for an instance that was released, `deliver_of_closed` : and a
  response that finds nothing open is dropped;
* `Task.poll_requests` : a task makes requests for itself only.
-/

namespace Quorum

namespace External.Dispatcher

/-- The instance that a request is open for. -/
def owner? (d : Dispatcher) (n : RequestNonce) : Option InstanceId :=
  (d.pending.get? n).map Pending.instanceId

/-- Every open request has a number that was given already. -/
def Numbered (d : Dispatcher) : Prop := ∀ {n i}, d.owner? n = some i → n.toNat < d.nextNonce.toNat

/-- Every request that is open in the second dispatcher was open in the first one, or was made since
for an instance that satisfies `P`. -/
structure Continues (P : InstanceId → Prop) (d d' : Dispatcher) : Prop where
  le : d.nextNonce.toNat ≤ d'.nextNonce.toNat
  opened : ∀ {n i}, d'.owner? n = some i →
    d.owner? n = some i ∨ (d.nextNonce.toNat ≤ n.toNat ∧ n.toNat < d'.nextNonce.toNat) ∧ P i

variable {P Q : InstanceId → Prop} {d d' d'' : Dispatcher} {n : RequestNonce} {i j : InstanceId}

namespace Continues

theorem refl (d : Dispatcher) : Continues P d d := ⟨Nat.le_refl _, .inl⟩

theorem trans (h : Continues P d d') (h' : Continues P d' d'') : Continues P d d'' where
  le := Nat.le_trans h.le h'.le
  opened {n i} ho := by
    have hle := h.le
    have hle' := h'.le
    rcases h'.opened ho with ho | ⟨hn, hi⟩
    · rcases h.opened ho with ho | ⟨hn, hi⟩
      · exact .inl ho
      · exact .inr ⟨by omega, hi⟩
    · exact .inr ⟨by omega, hi⟩

theorem mono (h : Continues P d d') (hPQ : ∀ i, P i → Q i) : Continues Q d d' where
  le := h.le
  opened ho := (h.opened ho).imp_right fun ⟨hn, hi⟩ => ⟨hn, hPQ _ hi⟩

/-- No request is made where no number is given. -/
theorem of_owner? (hn : d'.nextNonce = d.nextNonce)
    (ho : ∀ {n i}, d'.owner? n = some i → d.owner? n = some i) : Continues P d d' where
  le := Nat.le_of_eq (congrArg Counter.toNat hn.symm)
  opened h := .inl (ho h)

theorem numbered (h : Continues P d d') (hd : d.Numbered) : d'.Numbered := fun ho => by
  rcases h.opened ho with ho | ⟨hn, -⟩
  · exact Nat.lt_of_lt_of_le (hd ho) h.le
  · exact hn.2

/-- **A number stands for one instance for good.** -/
theorem owner?_eq (h : Continues P d d') (hd : d.Numbered) (hi : d.owner? n = some i)
    (hj : d'.owner? n = some j) : j = i := by
  have hn := hd hi
  rcases h.opened hj with hj | ⟨hn', -⟩
  · exact Option.some.inj (hj.symm.trans hi)
  · omega

end Continues

/-! ## What happens to requests -/

theorem continues_register {d' : Dispatcher} (h : d.register? i = some (d', n)) :
    Continues (· = i) d d' := by
  unfold register? at h
  obtain ⟨next, hnext, h⟩ := Option.map_eq_some_iff.1 h
  cases h
  have hnext := Counter.next?_eq_some.1 hnext
  refine ⟨by simp only; omega, fun {k j} ho => ?_⟩
  unfold owner? at ho
  simp only [SortedMap.get?_insert_of] at ho
  split_ifs at ho with hk
  · cases ho
    subst hk
    exact .inr ⟨by simp only; omega, rfl⟩
  · exact .inl ho

theorem continues_deliver (d : Dispatcher) (n : RequestNonce) (r : Result) :
    Continues P d (d.deliver n r).1 := by
  have herase {k : RequestNonce} {j : InstanceId}
      (h : ((d.pending.erase n).get? k).map Pending.instanceId = some j) : d.owner? k = some j := by
    rw [SortedMap.get?_erase] at h
    split_ifs at h
    · cases h
    · exact h
  unfold deliver
  split
  · exact .of_owner? rfl id
  · simp only
    split_ifs <;> exact .of_owner? rfl herase

theorem continues_deliverAll (d : Dispatcher) : Continues P d d.deliverAll.1 := by
  have hstart : Continues P d { d with queue := [] } := .of_owner? rfl id
  have hfold (es : List (RequestNonce × Result)) (x : Dispatcher × List _)
      (hx : Continues P d x.1) : Continues P d (es.foldl (fun x e =>
        ((x.1.deliver e.1 e.2).1, x.2 ++ [(e, (x.1.deliver e.1 e.2).2)])) x).1 := by
    induction es generalizing x with
    | nil => exact hx
    | cons e es ih => exact ih _ (hx.trans (x.1.continues_deliver e.1 e.2))
  exact hfold d.queue (_, []) hstart

theorem owner?_abandon (d : Dispatcher) (n k : RequestNonce) :
    (d.abandon n).owner? k = d.owner? k := by
  unfold abandon owner?
  cases hn : d.pending.get? n with
  | none => rfl
  | some p =>
    simp only [SortedMap.get?_insert_of]
    split_ifs with hk
    · rw [hk, hn]
      rfl
    · rfl

theorem continues_abandon (d : Dispatcher) (n : RequestNonce) : Continues P d (d.abandon n) :=
  .of_owner? rfl fun ho => d.owner?_abandon n _ ▸ ho

/-- **Nothing is open for an instance that was released.** -/
theorem owner?_release {d : Dispatcher} {i : InstanceId} {n : RequestNonce} {j : InstanceId} :
    (d.release i).1.owner? n = some j ↔ d.owner? n = some j ∧ j ≠ i := by
  unfold release owner?
  simp only [Option.map_eq_some_iff, SortedMap.get?_filter_eq_some_iff, decide_eq_true_eq]
  constructor
  · rintro ⟨p, ⟨hp, hne⟩, rfl⟩
    exact ⟨⟨p, hp, rfl⟩, hne⟩
  · rintro ⟨⟨p, hp, rfl⟩, hne⟩
    exact ⟨p, ⟨hp, hne⟩, rfl⟩

theorem continues_release (d : Dispatcher) (i : InstanceId) : Continues P d (d.release i).1 :=
  .of_owner? rfl fun ho => (owner?_release.1 ho).1

/-- A response that finds nothing open is counted and changes nothing else. -/
theorem deliver_of_closed (h : d.owner? n = none) (r : Result) :
    d.deliver n r = ({ d with dropped := d.dropped + 1 }, .dropped) := by
  unfold deliver
  rw [Option.map_eq_none_iff.1 h]

end External.Dispatcher

/-! ## Tasks -/

open External.Dispatcher

theorem Ask.begin_requests (ask : Ask) (actor : Actor) (s : Site) :
    Continues (· = actor.instanceId) s.dispatcher (ask.begin actor s).2.dispatcher := by
  cases ask with
  | call c =>
    unfold Ask.begin
    cases h : s.dispatcher.register? actor.instanceId with
    | none => exact .refl _
    | some p => exact (continues_register h).trans (.of_owner? rfl id)
  | _ => exact .refl _

section
variable {P : InstanceId → Prop}

/-- A wait ends with whether that holds which was waited for, and changes nothing. -/
theorem Ask.eq_of_awaiting {holds answer : Bool} {w : Waiting} {timeout : Option Nat} {s s' : Site}
    (h : awaiting holds w timeout s = some (answer, s')) : answer = holds ∧ s' = s := by
  unfold awaiting at h
  split_ifs at h with hholds
  · cases h
    exact ⟨hholds.symm, rfl⟩
  · cases h
    exact ⟨(Bool.eq_false_iff.2 hholds).symm, rfl⟩

theorem Ask.received_requests {actor : Actor} {w : Waiting} {s s' : Site} {r : External.Result}
    (h : received actor w s = some (r, s')) : Continues P s.dispatcher s'.dispatcher := by
  unfold received at h
  cases hn : w.nonce with
  | none =>
    rw [hn] at h
    simp only [Option.bind_none] at h
    split_ifs at h
    cases h
    exact .refl _
  | some n =>
    rw [hn] at h
    simp only [Option.bind_some] at h
    split at h
    · rename_i d r hr
      cases h
      obtain ⟨answer, -, hd⟩ := Option.map_eq_some_iff.1 hr
      cases hd
      exact .of_owner? rfl id
    · split_ifs at h
      cases h
      exact continues_abandon _ n

/-- An answer makes no request. -/
theorem Ask.answer?_requests {actor : Actor} {w : Waiting} {s s' : Site} (ask : Ask)
    {answer : ask.Answer} (h : ask.answer? actor w s = some (answer, s')) :
    Continues P s.dispatcher s'.dispatcher := by
  cases ask with
  | call c => exact received_requests h
  | roundEnd timeout | condition c timeout =>
    rw [(eq_of_awaiting h).2]
    exact .refl _
  | sleep d =>
    simp only [Ask.answer?] at h
    split_ifs at h
    cases h
    exact .refl _
  | pause d limit =>
    simp only [Ask.answer?] at h
    split_ifs at h <;> cases h <;> exact .refl _
  | _ =>
    cases h
    exact .refl _

end

/-- **A task works for one actor, and makes requests for it only.** -/
theorem Task.poll_requests {σ ρ : Type} (m : Machine σ ρ) (fuel : Nat) (t : Task σ) (s : Site) :
    (t.poll m fuel s).1.actor = t.actor ∧
      Continues (· = t.actor.instanceId) s.dispatcher (t.poll m fuel s).2.1.dispatcher := by
  induction fuel generalizing t s with
  | zero => exact ⟨rfl, .refl _⟩
  | succ fuel ih =>
    unfold Task.poll
    split
    · exact ⟨rfl, .refl _⟩
    · rename_i ask resume _
      have hbegun := ask.begin_requests t.actor s
      cases t.waiting with
      | some w =>
        simp only
        split
        · exact ⟨rfl, .refl _⟩
        · exact And.imp_right (ask.answer?_requests ‹_›).trans (ih _ _)
      | none =>
        simp only
        split
        · exact ⟨rfl, hbegun⟩
        · exact And.imp_right (hbegun.trans (ask.answer?_requests ‹_›)).trans (ih _ _)

end Quorum
