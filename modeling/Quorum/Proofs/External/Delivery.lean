import Mathlib.Algebra.GroupWithZero.Nat
import Mathlib.Data.List.Induction
import Mathlib.Data.List.Nodup
import Quorum.Proofs.Behaviour.Requests
import Quorum.Proofs.Data.Transcript

/-!
# At most one response, and only to who still waits

What a dispatcher went through and what it answered, entry by entry.

* `Dispatcher.Step`, `Dispatcher.Entry` : a number is asked for, a response is offered, an instance is
  released, or a requester stops waiting, and the same with its answer;
* `Dispatcher.step?` : a dispatcher after a step; nothing, once the numbers have run out;
* `Since`, `Open`, `Awaited` : the request of a number was registered, and is still open or awaited,
  by the entries since;
* `get?_register?`, `get?_deliver`, `get?_release`, `get?_abandon` : the open requests after a step;
* `Tracks` : the dispatcher stands where its entries say (`steady_tracks`);
* `delivered_once_to_who_waits` : so a response is delivered if its request is awaited, once, and
  everything else is counted.
-/

namespace Quorum.External.Dispatcher

/-! ## Steps and their answers -/

/-- What a dispatcher goes through. -/
inductive Step where
  | register (i : InstanceId)
  | offer (n : RequestNonce) (r : Result)
  | release (i : InstanceId)
  | abandon (n : RequestNonce)

/-- A step and what came of it. -/
inductive Entry where
  | registered (i : InstanceId) (n : RequestNonce)
  /-- A response, whether its request was open, and what became of it. -/
  | offered (n : RequestNonce) (r : Result) (found : Bool) (answer : Delivery)
  | released (i : InstanceId) (count : Nat)
  | abandoned (n : RequestNonce)

/-- Whether a step asks for a number. -/
def Step.registers : Step → Bool
  | register _ => true
  | _ => false

/-- The step of an entry. -/
def Entry.step : Entry → Step
  | registered i _ => .register i
  | offered n r _ _ => .offer n r
  | released i _ => .release i
  | abandoned n => .abandon n

/-- The number that was given. -/
def Entry.given? : Entry → Option RequestNonce
  | registered _ n => some n
  | _ => none

/-- The number whose response was delivered. -/
def Entry.answered? : Entry → Option RequestNonce
  | offered n _ _ .delivered => some n
  | _ => none

/-- Whether a response found its request open. -/
def Entry.found : Entry → Bool
  | offered _ _ found _ => found
  | _ => false

/-- Whether a response was dropped. -/
def Entry.dropped : Entry → Bool
  | offered _ _ _ .dropped => true
  | _ => false

/-- The number of requests that were released. -/
def Entry.releases : Entry → Nat
  | released _ count => count
  | _ => 0

/-- The numbers that were given, in order. -/
def given (es : List Entry) : List RequestNonce := es.filterMap Entry.given?

/-- The numbers whose responses were delivered, in order. -/
def answered (es : List Entry) : List RequestNonce := es.filterMap Entry.answered?

/-- The dispatcher after a step, and what came of it, unless the numbers have run out. -/
def step? (d : Dispatcher) : Step → Option (Dispatcher × Entry)
  | .register i => (d.register? i).map fun (d, n) => (d, .registered i n)
  | .offer n r =>
    some ((d.deliver n r).1, .offered n r (d.pending.contains n) (d.deliver n r).2)
  | .release i => some ((d.release i).1, .released i (d.release i).2)
  | .abandon n => some (d.abandon n, .abandoned n)

/-! ## Requests by the entries since -/

/-- The entry takes the open request of an instance away. -/
def Entry.Closes (n : RequestNonce) (i : InstanceId) : Entry → Prop
  | offered k .. => k = n
  | released j _ => j = i
  | _ => False

/-- The entry takes it away, or its requester does not wait for it any more. -/
def Entry.Ends (n : RequestNonce) (i : InstanceId) : Entry → Prop
  | abandoned k => k = n
  | e => e.Closes n i

/-- The request of a number was registered for an instance, and no entry since satisfies `P`. -/
def Since (P : Entry → Prop) (es : List Entry) (n : RequestNonce) (i : InstanceId) : Prop :=
  ∃ before after, es = before ++ .registered i n :: after ∧ ∀ e ∈ after, ¬ P e

/-- The request was registered, and neither a response to it was offered nor its instance released
since. -/
def Open (es : List Entry) (n : RequestNonce) (i : InstanceId) : Prop :=
  Since (Entry.Closes n i) es n i

/-- The request is open, and its requester did not stop waiting either. -/
def Awaited (es : List Entry) (n : RequestNonce) (i : InstanceId) : Prop :=
  Since (Entry.Ends n i) es n i

variable {P : Entry → Prop} {d d' : Dispatcher} {es before after : List Entry} {e : Entry} {s : Step}
  {n k : RequestNonce} {i j : InstanceId} {p : Pending} {r : Result}

theorem not_since_nil : ¬ Since P [] n i := by
  rintro ⟨before, after, h, -⟩
  simp at h

theorem since_concat :
    Since P (es ++ [e]) n i ↔ e = .registered i n ∨ Since P es n i ∧ ¬ P e := by
  constructor
  · rintro ⟨before, after, hsplit, hsince⟩
    rcases concat_eq_append_cons hsplit with ⟨-, he, -⟩ | ⟨after, hes, rfl⟩
    · exact .inl he.symm
    · exact .inr ⟨⟨before, after, hes, fun c hc => hsince c (List.mem_append_left _ hc)⟩,
        hsince e (List.mem_append_right _ List.mem_cons_self)⟩
  · rintro (rfl | ⟨⟨before, after, rfl, hsince⟩, he⟩)
    · exact ⟨es, [], rfl, nofun⟩
    · refine ⟨before, after ++ [e], by rw [List.append_assoc, List.cons_append], fun c hc => ?_⟩
      rcases List.mem_append.1 hc with hc | hc
      · exact hsince c hc
      · rwa [List.mem_singleton.1 hc]

theorem Entry.closes_of_answered? (h : e.answered? = some n) : e.Closes n i := by
  rcases e with _ | ⟨k, r, found, _ | _⟩ | _ | _ <;> cases h
  rfl

theorem since_registered {m : RequestNonce} (hP : ¬ P (.registered j m)) :
    Since P (es ++ [.registered j m]) n i ↔ (j = i ∧ m = n) ∨ Since P es n i := by
  rw [since_concat, Entry.registered.injEq, and_iff_left hP]

theorem since_of_not_registered (he : e.given? = none) :
    Since P (es ++ [e]) n i ↔ Since P es n i ∧ ¬ P e := by
  rw [since_concat, or_iff_right]
  rintro rfl
  cases he

theorem Since.mem_given (h : Since P es n i) : n ∈ given es := by
  obtain ⟨before, after, rfl, -⟩ := h
  exact List.mem_filterMap.2 ⟨_, List.mem_append_right _ List.mem_cons_self, rfl⟩

theorem given_concat (es : List Entry) (e : Entry) :
    given (es ++ [e]) = given es ++ e.given?.toList := filterMap_concat ..

theorem answered_concat (es : List Entry) (e : Entry) :
    answered (es ++ [e]) = answered es ++ e.answered?.toList := filterMap_concat ..

/-! ## Open requests after a step -/

theorem get?_register? (h : d.register? i = some (d', n)) (k : RequestNonce) :
    d'.pending.get? k = if k = n then some ⟨i, true⟩ else d.pending.get? k := by
  obtain ⟨next, -, heq⟩ := Option.map_eq_some_iff.1 h
  cases heq
  exact SortedMap.get?_insert_of ..

theorem get?_deliver (d : Dispatcher) (n : RequestNonce) (r : Result) (k : RequestNonce) :
    (d.deliver n r).1.pending.get? k = if k = n then none else d.pending.get? k := by
  unfold deliver
  cases hn : d.pending.get? n with
  | none =>
    split_ifs with hk
    · exact hk ▸ hn
    · rfl
  | some p =>
    simp only [apply_ite Prod.fst, apply_ite Dispatcher.pending, ite_self]
    exact SortedMap.get?_erase_of ..

theorem get?_release_eq_some : (d.release i).1.pending.get? k = some p ↔
    d.pending.get? k = some p ∧ p.instanceId ≠ i := by
  unfold release
  simp only [SortedMap.get?_filter_eq_some_iff, decide_eq_true_eq]

/-- A release closes the requests of its instance and no others. -/
theorem get?_release (d : Dispatcher) (i : InstanceId) (k : RequestNonce) :
    (d.release i).1.pending.get? k = if d.owner? k = some i then none else d.pending.get? k := by
  refine Option.ext fun p => get?_release_eq_some.trans ?_
  split_ifs with ho
  · refine iff_of_false (fun ⟨hp, hne⟩ => hne ?_) nofun
    rw [owner?, hp] at ho
    exact Option.some.inj ho
  · refine ⟨And.left, fun hp => ⟨hp, fun hi => ho ?_⟩⟩
    rw [owner?, hp]
    exact congrArg some hi

/-- It tells how many they were. -/
theorem release_count (d : Dispatcher) (i : InstanceId) : ∃ ns : List RequestNonce,
    ns.Nodup ∧ (∀ n, n ∈ ns ↔ d.owner? n = some i) ∧ (d.release i).2 = ns.length := by
  refine ⟨(d.pending.filter fun e => e.2.instanceId = i).keys, SortedMap.nodup_keys _,
    fun n => ?_, ?_⟩
  · rw [SortedMap.mem_keys_iff]
    unfold owner?
    simp only [SortedMap.get?_filter_eq_some_iff, decide_eq_true_eq, Option.map_eq_some_iff]
  · rw [SortedMap.length_keys]
    unfold release
    have hadd := d.pending.size_filter_add fun e => decide (e.2.instanceId = i)
    simp only [← decide_not] at hadd
    simp only [ne_eq]
    omega

theorem get?_abandon (d : Dispatcher) (n k : RequestNonce) :
    (d.abandon n).pending.get? k =
      if k = n then (d.pending.get? n).map fun p => { p with awaited := false }
      else d.pending.get? k := by
  unfold abandon
  cases hn : d.pending.get? n with
  | none =>
    split_ifs with hk
    · exact hk ▸ hn
    · rfl
  | some p => exact SortedMap.get?_insert_of ..

theorem owner?_eq_some : d.owner? n = some i ↔ ∃ awaited, d.pending.get? n = some ⟨i, awaited⟩ := by
  unfold owner?
  rw [Option.map_eq_some_iff]
  constructor
  · rintro ⟨p, hp, rfl⟩
    exact ⟨p.awaited, hp⟩
  · rintro ⟨awaited, hp⟩
    exact ⟨_, hp, rfl⟩

/-- A response is delivered if the requester still waits. -/
theorem deliver_eq_delivered :
    (d.deliver n r).2 = .delivered ↔ ∃ i, d.pending.get? n = some ⟨i, true⟩ := by
  unfold deliver
  cases hn : d.pending.get? n with
  | none => exact iff_of_false nofun nofun
  | some p =>
    obtain ⟨i, awaited⟩ := p
    cases awaited with
    | true => exact iff_of_true rfl ⟨i, rfl⟩
    | false => exact iff_of_false nofun nofun

/-! ## The entries and the dispatcher -/

/-- The dispatcher stands where its entries say that it does. -/
structure Tracks (d : Dispatcher) (es : List Entry) : Prop where
  numbers : (given es).map Counter.toNat = List.range d.nextNonce.toNat
  opened : ∀ {n i}, d.owner? n = some i ↔ Open es n i
  awaited : ∀ {n i}, d.pending.get? n = some ⟨i, true⟩ ↔ Awaited es n i
  once : (answered es).Nodup
  closed : ∀ {n}, n ∈ answered es → d.owner? n = none ∧ n.toNat < d.nextNonce.toNat
  dropped : d.dropped = es.countP Entry.dropped
  conserves : (given es).length =
    d.pending.size + es.countP Entry.found + (es.map Entry.releases).sum

theorem tracks_empty : Tracks {} [] where
  numbers := rfl
  opened := iff_of_false nofun not_since_nil
  awaited := iff_of_false nofun not_since_nil
  once := .nil
  closed := nofun
  dropped := rfl
  conserves := rfl

section
variable (h : d.Tracks es)
include h

theorem Tracks.toNat_lt (hn : n ∈ given es) : n.toNat < d.nextNonce.toNat :=
  List.mem_range.1 (h.numbers ▸ List.mem_map_of_mem hn)

/-- The next number was not given before. -/
theorem Tracks.not_since (P : Entry → Prop) (i : InstanceId) : ¬ Since P es d.nextNonce i :=
  fun hs => Nat.lt_irrefl _ (h.toNat_lt hs.mem_given)

theorem Tracks.fresh : d.owner? d.nextNonce = none :=
  Option.eq_none_iff_forall_ne_some.2 fun i ho => h.not_since _ i (h.opened.1 ho)

/-- A number that is given is a new one, and stands for a request that is awaited. -/
theorem Tracks.registering (hr : d.register? i = some (d', n)) :
    d'.Tracks (es ++ [.registered i n]) := by
  have hget := get?_register? hr
  have hfresh := h.not_since
  have hnone := h.fresh
  obtain ⟨next, hnext, heq⟩ := Option.map_eq_some_iff.1 hr
  cases heq
  have hnext := Counter.next?_eq_some.1 hnext
  refine ⟨?_, fun {k j} => ?_, fun {k j} => ?_, ?_, fun {k} hk => ?_, ?_, ?_⟩
  · rw [given_concat, List.map_append, h.numbers]
    show _ = List.range next.toNat
    rw [hnext, List.range_succ]
    rfl
  · unfold owner? Open
    rw [hget, since_registered id]
    split_ifs with hk
    · subst hk
      simp [hfresh]
    · rw [or_iff_right fun hi => hk hi.2.symm]
      exact h.opened
  · unfold Awaited
    rw [hget, since_registered id]
    split_ifs with hk
    · subst hk
      simp [hfresh]
    · rw [or_iff_right fun hi => hk hi.2.symm]
      exact h.awaited
  · rw [answered_concat]
    exact (List.append_nil _).symm ▸ h.once
  · rw [answered_concat] at hk
    obtain ⟨hclosed, hlt⟩ := h.closed (List.append_nil (answered es) ▸ hk)
    have hne : k ≠ d.nextNonce := by
      rintro rfl
      exact Nat.lt_irrefl _ hlt
    refine ⟨?_, Nat.lt_of_lt_of_eq (Nat.lt_succ_of_lt hlt) hnext.symm⟩
    unfold owner?
    rw [hget, if_neg hne]
    exact hclosed
  · rw [List.countP_append]
    exact h.dropped
  · rw [given_concat, List.length_append, h.conserves, List.countP_append, List.map_append,
      List.sum_append]
    show _ + 1 = (d.pending.insert _ _).size + (_ + 0) + (_ + 0)
    rw [SortedMap.size_insert_of_fresh (Option.map_eq_none_iff.1 hnone)]
    omega

/-- A step that gives no number keeps what is said if it closes and counts what its entry says. -/
theorem Tracks.continuing (hnext : d'.nextNonce = d.nextNonce) (hgiven : e.given? = none)
    (hopened : ∀ {n i}, d'.owner? n = some i ↔ d.owner? n = some i ∧ ¬ e.Closes n i)
    (hawaited : ∀ {n i}, d'.pending.get? n = some ⟨i, true⟩ ↔
      d.pending.get? n = some ⟨i, true⟩ ∧ ¬ e.Ends n i)
    (hanswered : ∀ {n}, e.answered? = some n → ∃ i, d.owner? n = some i)
    (hdropped : d'.dropped = d.dropped + [e].countP Entry.dropped)
    (hsize : d.pending.size = d'.pending.size + [e].countP Entry.found + e.releases) :
    d'.Tracks (es ++ [e]) := by
  have hanswers : e.given?.toList = [] := by rw [hgiven]; rfl
  refine ⟨?_, ?_, ?_, ?_, fun {k} hk => ?_, ?_, ?_⟩
  · rw [given_concat, hanswers, List.append_nil, hnext]
    exact h.numbers
  · intro k j
    unfold Open
    rw [since_of_not_registered hgiven, hopened, h.opened]
    rfl
  · intro k j
    unfold Awaited
    rw [since_of_not_registered hgiven, hawaited, h.awaited]
    rfl
  · rw [answered_concat]
    refine List.nodup_append.2 ⟨h.once, by cases e.answered? <;> simp, ?_⟩
    rintro k hk _ hn rfl
    obtain ⟨i, hi⟩ := hanswered (Option.mem_toList.1 hn)
    rw [(h.closed hk).1] at hi
    cases hi
  · rw [answered_concat, List.mem_append, Option.mem_toList] at hk
    rw [hnext]
    rcases hk with hk | hk
    · obtain ⟨hclosed, hlt⟩ := h.closed hk
      refine ⟨Option.eq_none_iff_forall_ne_some.2 fun i hi => ?_, hlt⟩
      rw [(hopened.1 hi).1] at hclosed
      cases hclosed
    · obtain ⟨i, hi⟩ := hanswered hk
      refine ⟨Option.eq_none_iff_forall_ne_some.2 fun j hj => ?_,
        h.toNat_lt (h.opened.1 hi).mem_given⟩
      exact (hopened.1 hj).2 (Entry.closes_of_answered? hk)
  · rw [List.countP_append, hdropped, h.dropped]
  · rw [given_concat, hanswers, List.append_nil, h.conserves, List.countP_append, List.map_append,
      List.sum_append, List.map_singleton, List.sum_singleton]
    omega

theorem Tracks.offering (n : RequestNonce) (r : Result) :
    (d.deliver n r).1.Tracks
      (es ++ [.offered n r (d.pending.contains n) (d.deliver n r).2]) := by
  have hget := d.get?_deliver n r
  refine h.continuing ?_ rfl (fun {k i} => ?_) (fun {k i} => ?_) (fun {k} hk => ?_) ?_ ?_
  · unfold deliver
    split
    · rfl
    · simp only
      split_ifs <;> rfl
  · unfold owner?
    rw [hget]
    split_ifs with hk
    · exact iff_of_false (by simp) fun hc => hc.2 hk.symm
    · exact (and_iff_left (Ne.symm hk)).symm
  · rw [hget]
    split_ifs with hk
    · exact iff_of_false (by simp) fun hc => hc.2 hk.symm
    · exact (and_iff_left (Ne.symm hk)).symm
  · cases ha : (d.deliver n r).2 with
    | dropped =>
      rw [ha] at hk
      cases hk
    | delivered =>
      rw [ha] at hk
      cases hk
      obtain ⟨i, hi⟩ := deliver_eq_delivered.1 ha
      exact ⟨i, owner?_eq_some.2 ⟨true, hi⟩⟩
  · unfold deliver
    cases d.pending.get? n with
    | none => rfl
    | some p =>
      simp only
      split_ifs <;> rfl
  · unfold deliver SortedMap.contains
    cases hn : d.pending.get? n with
    | none => rfl
    | some p =>
      rw [← SortedMap.size_erase hn]
      simp only
      split_ifs <;> rfl

theorem Tracks.releasing (i : InstanceId) :
    (d.release i).1.Tracks (es ++ [.released i (d.release i).2]) := by
  refine h.continuing rfl rfl (fun {k j} => ?_) (fun {k j} => ?_) nofun rfl ?_
  · exact owner?_release.trans (and_congr_right fun _ => not_congr eq_comm)
  · exact get?_release_eq_some.trans (and_congr_right fun _ => not_congr eq_comm)
  · have hle := List.length_filter_le (fun e => decide (e.2.instanceId ≠ i)) d.pending.entries
    show d.pending.size = _ + 0 + (d.pending.size - _)
    exact (Nat.add_sub_of_le hle).symm

theorem Tracks.abandoning (n : RequestNonce) :
    (d.abandon n).Tracks (es ++ [.abandoned n]) := by
  refine h.continuing rfl rfl (fun {k i} => ?_) (fun {k i} => ?_) nofun rfl ?_
  · rw [owner?_abandon]
    exact (and_iff_left id).symm
  · rw [get?_abandon]
    split_ifs with hk
    · refine iff_of_false (fun hp => ?_) fun hc => hc.2 hk.symm
      obtain ⟨p, -, hp⟩ := Option.map_eq_some_iff.1 hp
      cases hp
    · exact (and_iff_left (Ne.symm hk)).symm
  · unfold abandon
    cases hn : d.pending.get? n with
    | none => rfl
    | some p => exact (SortedMap.size_insert_of_get? hn).symm

end

/-- As many numbers were given as were asked for. -/
theorem length_given (es : List Entry) :
    (given es).length = (es.map Entry.step).countP Step.registers := by
  induction es using List.reverseRecOn with
  | nil => rfl
  | append_singleton es e ih =>
    rw [given_concat, List.length_append, ih, List.map_append, List.countP_append]
    congr 1
    cases e <;> rfl

theorem Tracks.length_given_eq (h : d.Tracks es) : (given es).length = d.nextNonce.toNat := by
  rw [← List.length_map Counter.toNat, h.numbers, List.length_range]

/-- Every step is taken, unless it asks for a number after the last one. -/
theorem Tracks.isSome_step? (h : d.Tracks es) : (d.step? s).isSome ↔
    (given es).length + [s].countP Step.registers < UInt64.size := by
  have hlt := d.nextNonce.toNat_lt
  rw [h.length_given_eq]
  cases s with
  | register i =>
    show ((Option.map _ _).map _).isSome ↔ _ + 1 < _
    rw [Option.isSome_map, Option.isSome_map, Option.isSome_iff_ne_none, ne_eq,
      Counter.next?_eq_none]
    omega
  | _ => exact iff_of_true rfl hlt

/-- **Every step keeps what is said of the entries.** -/
theorem steady_tracks : Steady step? Entry.step Tracks where
  request_eq {d s d' e} hs := by
    cases s with
    | register i =>
      obtain ⟨_, -, heq⟩ := Option.map_eq_some_iff.1 hs
      cases heq
      rfl
    | _ =>
      cases hs
      rfl
  keeps {d es s d' e} h hs := by
    cases s with
    | register i =>
      obtain ⟨_, hr, heq⟩ := Option.map_eq_some_iff.1 hs
      cases heq
      exact h.registering hr
    | offer n r =>
      cases hs
      exact h.offering n r
    | release i =>
      cases hs
      exact h.releasing i
    | abandon n =>
      cases hs
      exact h.abandoning n

/-- Only the numbers can run out. -/
theorem isSome_steps (steps : List Step) :
    (transcript? step? {} steps).isSome ↔ steps.countP Step.registers < UInt64.size := by
  have hsome : (transcript? step? {} steps).isSome ↔
      0 + (([] : List Entry).map Entry.step).countP Step.registers +
        steps.countP Step.registers < UInt64.size := by
    refine steady_tracks.isSome_transcript? (fun h => ?_) (fun h => ?_) [] tracks_empty
    · rw [← length_given, Nat.zero_add, h.length_given_eq]
      exact Counter.toNat_lt _
    · rw [← length_given, Nat.zero_add]
      exact h.isSome_step?
  rwa [List.map_nil, List.countP_nil, Nat.zero_add] at hsome

/-- **A response is delivered at most once, and only to who still waits.** Whatever a dispatcher goes
through, it goes on unless the numbers run out, and gives no number twice. A response finds the
request of its number if that one was registered, had no response offered and was not released
since, and it is delivered if its requester did not stop waiting either; one that comes before its
number is given is dropped and does not count against the request. A release closes the open requests
of its instance and no others, which are answered as if it had not happened, and tells how many there
were. Dropped responses are counted, and every request that was registered is open, was found by a
response or was released. -/
theorem delivered_once_to_who_waits (steps : List Step) :
    ((transcript? step? {} steps).isSome ↔ steps.countP Step.registers < UInt64.size) ∧
      ∀ d es, transcript? step? {} steps = some (d, es) →
        es.map Entry.step = steps ∧ (given es).Nodup ∧
        (∀ before n r found answer after, es = before ++ .offered n r found answer :: after →
          (found = true ↔ ∃ i, Open before n i) ∧
          (answer = .delivered ↔ ∃ i, Awaited before n i)) ∧
        (answered es).Nodup ∧
        (∀ before i count after, es = before ++ .released i count :: after →
          ∃ ns : List RequestNonce, ns.Nodup ∧ (∀ n, n ∈ ns ↔ Open before n i) ∧
            count = ns.length) ∧
        (∀ n i, d.owner? n = some i ↔ Open es n i) ∧
        (∀ i n, (d.release i).1.pending.get? n =
          if d.owner? n = some i then none else d.pending.get? n) ∧
        (∀ i n r, d.owner? n ≠ some i → ((d.release i).1.deliver n r).2 = (d.deliver n r).2) ∧
        d.dropped = es.countP Entry.dropped ∧
        (given es).length =
          d.pending.size + es.countP Entry.found + (es.map Entry.releases).sum := by
  have hI := steady_tracks
  refine ⟨isSome_steps steps, fun d es hr => ?_⟩
  have h : d.Tracks es := hI.transcript tracks_empty hr
  refine ⟨hI.map_request hr, .of_map _ (h.numbers ▸ List.nodup_range), ?_, h.once, ?_,
    fun n i => h.opened, d.get?_release, fun i n r ho => ?_, h.dropped, h.conserves⟩
  · rintro before n r found answer after rfl
    obtain ⟨d₁, d₂, h₁, hs⟩ := hI.moment [] tracks_empty hr
    cases hs
    refine ⟨?_, deliver_eq_delivered.trans (exists_congr fun i => h₁.awaited)⟩
    refine Iff.trans ?_ (exists_congr fun i => h₁.opened)
    unfold SortedMap.contains owner?
    rw [← Option.isSome_iff_exists, Option.isSome_map]
  · rintro before i count after rfl
    obtain ⟨d₁, d₂, h₁, hs⟩ := hI.moment [] tracks_empty hr
    cases hs
    obtain ⟨ns, hnodup, hmem, hcount⟩ := d₁.release_count i
    exact ⟨ns, hnodup, fun n => (hmem n).trans h₁.opened, hcount⟩
  · unfold deliver
    rw [get?_release, if_neg ho]
    cases d.pending.get? n with
    | none => rfl
    | some p =>
      simp only
      split_ifs <;> rfl

/-! ## Early, late and doubled responses -/

/-- A response comes before its number is given, one comes twice, one after a release, and one when
no one waits for it any more. -/
def crossed : List Step :=
  [.offer (Counter.ofNat 0) (.error .timeout), .register (Counter.ofNat 1),
    .register (Counter.ofNat 2), .register (Counter.ofNat 1),
    .offer (Counter.ofNat 0) (.error .timeout), .offer (Counter.ofNat 0) (.error .timeout),
    .release (Counter.ofNat 1), .offer (Counter.ofNat 2) (.error .timeout),
    .abandon (Counter.ofNat 1), .offer (Counter.ofNat 1) (.error .timeout)]

/-- What comes of that. -/
def crossing : List Entry :=
  [.offered (Counter.ofNat 0) (.error .timeout) false .dropped,
    .registered (Counter.ofNat 1) (Counter.ofNat 0), .registered (Counter.ofNat 2) (Counter.ofNat 1),
    .registered (Counter.ofNat 1) (Counter.ofNat 2),
    .offered (Counter.ofNat 0) (.error .timeout) true .delivered,
    .offered (Counter.ofNat 0) (.error .timeout) false .dropped, .released (Counter.ofNat 1) 1,
    .offered (Counter.ofNat 2) (.error .timeout) false .dropped, .abandoned (Counter.ofNat 1),
    .offered (Counter.ofNat 1) (.error .timeout) true .dropped]

/-- One response is delivered, the one that was awaited. -/
theorem delivered_once_to_who_waits_of_crossed : ∃ d,
    transcript? step? {} crossed = some (d, crossing) ∧
      (∃ i, Awaited (crossing.take 4) (Counter.ofNat 0) i) ∧ (answered crossing).Nodup ∧
      d.dropped = crossing.countP Entry.dropped ∧ crossing.countP Entry.dropped = 4 ∧
      (given crossing).length =
        d.pending.size + crossing.countP Entry.found + (crossing.map Entry.releases).sum := by
  obtain ⟨d, hr⟩ : ∃ d, transcript? step? {} crossed = some (d, crossing) := ⟨_, rfl⟩
  obtain ⟨-, -, hoffered, honce, -, -, -, -, hdropped, hconserves⟩ :=
    (delivered_once_to_who_waits crossed).2 d crossing hr
  exact ⟨d, hr, (hoffered _ _ _ _ _ (crossing.drop 5) rfl).2.1 rfl, honce, hdropped, rfl, hconserves⟩

end Quorum.External.Dispatcher
