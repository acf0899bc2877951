import Quorum.Proofs.Application.Restart
import Quorum.Proofs.Application.Safety

/-!
# Rejected submissions have no influence

* `Application.counted` : the submissions that count, where each one is routed after those before
  it; they are the ones that the application admits as it is (`counted_eq_filter`);
* `Coherent.route_error_iff` : which submissions are rejected;
* `Application.Padded` : a list of submissions with others put in that are rejected where they
  stand;
* `processBlock_of_admitted_eq` : blocks that differ in submissions that are not admitted lead to
  the same application, and their outcomes differ in the number rejected alone;
* `rejected_have_no_influence` : so rejected submissions can be left out or put in anywhere.
-/

namespace Quorum.Application

/-- The submissions that count. -/
def counted (a : Application) : List Submission → List Submission
  | [] => []
  | s :: subs =>
    match a.route s with
    | .ok a' => s :: a'.counted subs
    | .error _ => a.counted subs

/-- The second list is the first one with `n` submissions put in that are rejected where they
stand. -/
inductive Padded : Application → List Submission → List Submission → Nat → Prop
  | nil (a : Application) : Padded a [] [] 0
  | keep {a : Application} {s : Submission} {xs ys : List Submission} {n : Nat}
    (rest : Padded (a.routeAll [s]).1 xs ys n) : Padded a (s :: xs) (s :: ys) n
  | insert {a : Application} {s : Submission} {e : Rejection} {xs ys : List Submission} {n : Nat}
    (rejected : a.route s = .error e) (rest : Padded a xs ys n) : Padded a xs (s :: ys) (n + 1)

variable {a : Application} {b c : Block} {s : Submission} {xs ys : List Submission} {n : Nat}

theorem admits_of_route {a' : Application} (hs : a.route s = .ok a') : a.admits s = true := by
  unfold admits
  rw [hs]
  rfl

theorem not_admits_of_route {e : Rejection} (hs : a.route s = .error e) : a.admits s = false := by
  unfold admits
  rw [hs]
  rfl

/-- A submission is rejected exactly if it does not open, or no round that runs listens to its
sender and expects its payload. -/
theorem Coherent.route_error_iff (h : a.Coherent) : (∃ e, a.route s = .error e) ↔
    ∀ p, s.open = .ok p → ∀ r ∈ a.rounds, r.hears p.sender = true → ¬ r.Expects p := by
  have hadmits : a.admits s = a.rounds.any (·.takes s) := by
    rw [admits_eq h.apart]
    unfold rounds
    rw [List.any_cons]
    cases a.background <;> simp
  have hcollecting : ∀ r ∈ a.rounds, r.concluded = false := by
    intro r hr
    rcases List.mem_cons.1 hr with rfl | hr
    · exact h.collecting
    · exact (h.background_watches (Option.mem_toList.1 hr)).1.collecting
  constructor
  · rintro ⟨e, he⟩ p hp r hr hhears hexpects
    have hnone := not_admits_of_route he
    rw [hadmits, List.any_eq_false] at hnone
    exact hnone r hr (Round.takes_iff.2 ⟨p, hp, hcollecting r hr, hhears, hexpects⟩)
  · intro hnone
    cases he : a.route s with
    | error e => exact ⟨e, rfl⟩
    | ok a' =>
      have hsome := admits_of_route he
      rw [hadmits, List.any_eq_true] at hsome
      obtain ⟨r, hr, htakes⟩ := hsome
      obtain ⟨p, hp, -, hhears, hexpects⟩ := Round.takes_iff.1 htakes
      exact absurd hexpects (hnone p hp r hr hhears)

/-- A submission that is not admitted changes nothing. -/
theorem collectAll_of_not_admits (h : a.Apart) (hs : a.admits s = false) :
    a.collectAll [s] = a := by
  rcases route_cases h s with ⟨e, -, ha⟩ | hr
  · exact ha
  · rw [admits_of_route hr] at hs
    cases hs

/-- Nor do all that are not admitted, wherever they stand. -/
theorem collectAll_filter (h : a.Apart) (subs : List Submission) :
    a.collectAll (subs.filter a.admits) = a.collectAll subs := by
  induction subs using List.reverseRecOn with
  | nil => rfl
  | append_singleton subs s ih =>
    rw [List.filter_append, collectAll_append, collectAll_append, ih]
    cases hs : a.admits s with
    | true => rw [List.filter_cons_of_pos hs, List.filter_nil]
    | false =>
      have hs' : (a.collectAll subs).admits s = false := by rw [admits_collectAll h, hs]
      rw [List.filter_cons_of_neg (Bool.eq_false_iff.1 hs), List.filter_nil, collectAll_nil,
        collectAll_of_not_admits (h.collectAll subs) hs']

theorem counted_eq_filter (h : a.Apart) (subs : List Submission) :
    a.counted subs = subs.filter a.admits := by
  induction subs generalizing a with
  | nil => rfl
  | cons s subs ih =>
    unfold counted
    rcases route_cases h s with ⟨e, hr, -⟩ | hr
    · rw [hr, List.filter_cons_of_neg (Bool.eq_false_iff.1 (not_admits_of_route hr))]
      exact ih h
    · rw [hr, List.filter_cons_of_pos (admits_of_route hr)]
      exact congrArg (s :: ·) ((ih (h.collectAll [s])).trans (by rw [admits_collectAll h]))

theorem length_counted (h : a.Apart) (subs : List Submission) :
    (a.counted subs).length = subs.countP a.admits := by
  rw [counted_eq_filter h, List.countP_eq_length_filter]

/-- What is put in is not admitted, and the rest is as before. -/
theorem Padded.admitted (hp : a.Padded xs ys n) (h : a.Apart) :
    ys.filter a.admits = xs.filter a.admits ∧
      (ys.countP fun s => !a.admits s) = (xs.countP fun s => !a.admits s) + n := by
  induction hp with
  | nil => exact ⟨rfl, rfl⟩
  | @keep a s xs ys n rest ih =>
    have hroute : (a.routeAll [s]).1 = a.collectAll [s] := by rw [routeAll_eq_countP h]
    rw [hroute] at ih
    obtain ⟨hfilter, hcount⟩ := ih (h.collectAll [s])
    rw [admits_collectAll h] at hfilter hcount
    rw [List.filter_cons, List.filter_cons, List.countP_cons, List.countP_cons, hfilter, hcount,
      Nat.add_right_comm]
    exact ⟨rfl, rfl⟩
  | insert hs rest ih =>
    have hs := not_admits_of_route hs
    obtain ⟨hfilter, hcount⟩ := ih h
    rw [List.filter_cons_of_neg (Bool.eq_false_iff.1 hs), List.countP_cons_of_pos (by rw [hs]; rfl),
      hcount]
    exact ⟨hfilter, rfl⟩

/-- Blocks with the same admitted submissions have the same effect. -/
theorem processBlock_of_admitted_eq (h : a.Apart) (hf : a.isFinished = false)
    (hb : b.height.toNat = a.height.toNat + 1) (hc : c.height = b.height)
    (hs : c.submissions.filter a.admits = b.submissions.filter a.admits) :
    a.processBlock c = ((a.processBlock b).1, (a.processBlock b).2.map fun o =>
      { o with rejected := c.submissions.countP fun s => !a.admits s }) := by
  have hreceived : a.received c = a.received b := by
    unfold received
    rw [hc, ← collectAll_filter h, hs, collectAll_filter h]
  have haccepted : c.submissions.countP a.admits = b.submissions.countP a.admits := by
    rw [List.countP_eq_length_filter, List.countP_eq_length_filter, hs]
  rw [processBlock_of_running h hf (hc ▸ hb), processBlock_of_running h hf hb, hreceived, haccepted,
    hc]
  cases ((a.received b).endBlock b.height).2 <;> rfl

/-- **Rejected submissions have no influence.** A block without the submissions that are rejected,
and one with more of them put in anywhere, has the same effect, and only the number rejected
differs. -/
theorem rejected_have_no_influence {params : AppParams} (hstart : start params = .ok a)
    {bs : List Block} (hin : InOrder 0 (bs ++ [b])) (hf : (a.afterBlocks bs).isFinished = false) :
    ∃ x o, (a.afterBlocks bs).processBlock b = (x, .ok o) ∧
      o.accepted = ((a.afterBlocks bs).counted b.submissions).length ∧
      o.accepted + o.rejected = b.submissions.length ∧
      (∀ c : Block, c.height = b.height →
        c.submissions = (a.afterBlocks bs).counted b.submissions →
        (a.afterBlocks bs).processBlock c = (x, .ok { o with rejected := 0 })) ∧
      ∀ (c : Block) (n : Nat), c.height = b.height →
        (a.afterBlocks bs).Padded b.submissions c.submissions n →
        (a.afterBlocks bs).processBlock c = (x, .ok { o with rejected := o.rejected + n }) := by
  obtain ⟨hbs, hb⟩ := inOrder_concat.1 hin
  obtain ⟨h, hheight, -⟩ := coherent_of_start hstart hbs
  generalize a.afterBlocks bs = a at *
  have hb' : b.height.toNat = a.height.toNat + 1 := by omega
  obtain ⟨x, t, hend, -⟩ := h.endBlock_received hf hb'
  have hproc := processBlock_of_running h.apart hf hb'
  rw [hend] at hproc
  refine ⟨x, _, hproc, (length_counted h.apart _).symm, countP_admits_add a _, fun c hc hs => ?_,
    fun c n hc hp => ?_⟩
  · rw [counted_eq_filter h.apart] at hs
    rw [processBlock_of_admitted_eq h.apart hf hb' hc (by rw [hs, List.filter_filter]; simp), hproc,
      hs]
    have hnone : ((b.submissions.filter a.admits).countP fun s => !a.admits s) = 0 := by
      rw [List.countP_eq_zero]
      intro s hs
      rw [(List.mem_filter.1 hs).2]
      decide
    rw [hnone]
    rfl
  · obtain ⟨hs, hcount⟩ := hp.admitted h.apart
    rw [processBlock_of_admitted_eq h.apart hf hb' hc hs, hproc, hcount]
    rfl

/-- The vote of the only peer counts, and bytes that are no payload and the vote of a peer that
takes no part do not. -/
theorem rejected_have_no_influence_of_one : ∃ x o,
    (initial soloParams).processBlock
      (Block.first [⟨[0xff], Octets.zero⟩, firstVote, secondVote]) = (x, .ok o) ∧
    o.accepted = 1 ∧ o.rejected = 2 ∧
    (initial soloParams).processBlock (Block.first [firstVote]) =
      (x, .ok { o with rejected := 0 }) := by
  have h := coherent_initial_solo
  have hbytes : (initial soloParams).admits ⟨[0xff], Octets.zero⟩ = false := by
    have hopen : ∃ e, (⟨[0xff], Octets.zero⟩ : Submission).open = .error e := ⟨_, rfl⟩
    obtain ⟨e, he⟩ := h.route_error_iff.2 fun p hp => by
      obtain ⟨e, he⟩ := hopen
      cases he.symm.trans hp
    exact not_admits_of_route he
  have hvote : (initial soloParams).admits firstVote = true := by
    have htakes : (Round.watch soloParams.participants Counter.zero Counter.zero).takes firstVote =
        true := Round.takes_iff.2 ⟨_, open_firstVote, rfl, by decide, rfl, .inl rfl⟩
    have hbg : (initial soloParams).background =
        some (Round.watch soloParams.participants Counter.zero Counter.zero) := rfl
    rw [admits_eq h.apart, hbg, Option.any_some, htakes, Bool.or_true]
  have hother : (initial soloParams).admits secondVote = false := by
    have hhears : ∀ r ∈ (initial soloParams).rounds, r.hears secondPeer = false := by
      decide +kernel
    obtain ⟨e, he⟩ := h.route_error_iff.2 fun p hp r hr htrue => by
      cases opened_pair.2.2.symm.trans hp
      cases (hhears r hr).symm.trans htrue
    exact not_admits_of_route he
  have hcounted : (initial soloParams).counted [⟨[0xff], Octets.zero⟩, firstVote, secondVote] =
      [firstVote] := by
    rw [counted_eq_filter h.apart, List.filter_cons, hbytes, List.filter_cons, hvote,
      List.filter_cons, hother]
    rfl
  have hin : InOrder 0
      ([] ++ [Block.first [⟨[0xff], Octets.zero⟩, firstVote, secondVote]]) := ⟨rfl, trivial⟩
  obtain ⟨x, o, hproc, haccepted, hall, hfiltered, -⟩ := rejected_have_no_influence start_solo hin rfl
  have haccepted : o.accepted = 1 := haccepted.trans (congrArg List.length hcounted)
  have hall : o.accepted + o.rejected = 3 := hall
  exact ⟨x, o, hproc, haccepted, by omega, hfiltered (Block.first [firstVote]) rfl hcounted.symm⟩

end Quorum.Application
