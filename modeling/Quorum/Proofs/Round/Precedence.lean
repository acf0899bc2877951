import Mathlib.Algebra.BigOperators.Group.List.Lemmas
import Mathlib.Algebra.GroupWithZero.Nat
import Quorum.Proofs.Round.Threshold

/-!
# The tally and its ties

A round keeps two things apart: the payloads that its senders hold now, and the order in which
values were first seen. The first one changes with every replacement, the second one only grows.

* `Round.debut?` : where the first payload of a value that counts stands among all payloads;
* `Round.Precedes` : one value has been there first;
* `Round.Ranked` : the values seen are those with a debut, in the order of their debuts, which each
  payload keeps (`ranked_concat`, `ranked_hearAll`);
* `Tracked.sum_tally` : the tally counts every payload that is held once;
* `greatest_eq_some` : the greatest entry comes before the others that are as great;
* `tally_in_order_of_debut` : so the tally lists the values that are held in the order of their
  debuts, and the earliest one wins a tie.
-/

namespace Quorum.Round

/-- The position of the first payload with a fingerprint that counts. -/
def debut? (r : Round) (fp : Fingerprint) : List Payload → Option Nat
  | [] => none
  | p :: ps =>
    if (r.accept p).isOk = true ∧ p.fingerprint = fp then some 0
    else ((r.hear p).debut? fp ps).map (· + 1)

/-- Among these payloads, the first one of `a` that counts comes before the first one of `b`. -/
def Precedes (r : Round) (ps : List Payload) (a b : Fingerprint) : Prop :=
  ∃ i j, r.debut? a ps = some i ∧ r.debut? b ps = some j ∧ i < j

variable {r : Round} {ps : List Payload} {p : Payload} {a b fp : Fingerprint}

/-! ## Debuts -/

/-- A payload is a debut if it counts and its value has had none. -/
theorem debut?_concat (r : Round) (fp : Fingerprint) (ps : List Payload) (p : Payload) :
    r.debut? fp (ps ++ [p]) = (r.debut? fp ps).or
      (if ((r.hearAll ps).accept p).isOk = true ∧ p.fingerprint = fp then some ps.length
        else none) := by
  induction ps generalizing r with
  | nil =>
    show (if (r.accept p).isOk = true ∧ p.fingerprint = fp then some 0 else none) =
      (none : Option Nat).or (if (r.accept p).isOk = true ∧ p.fingerprint = fp then some 0 else none)
    rw [Option.none_or]
  | cons q ps ih =>
    rw [List.cons_append]
    unfold debut?
    by_cases hq : (r.accept q).isOk = true ∧ q.fingerprint = fp
    · rw [if_pos hq, if_pos hq]
      rfl
    · rw [if_neg hq, if_neg hq, ih, Option.map_or, apply_ite (Option.map _)]
      rfl

theorem lt_length_of_debut? {i : Nat} (h : r.debut? fp ps = some i) : i < ps.length := by
  induction ps generalizing r i with
  | nil => cases h
  | cons q ps ih =>
    unfold debut? at h
    split_ifs at h
    · cases h
      exact Nat.succ_pos _
    · obtain ⟨j, hj, rfl⟩ := Option.map_eq_some_iff.1 h
      exact Nat.succ_lt_succ (ih hj)

/-- A debut is for good. -/
theorem debut?_concat_of_some {i : Nat} (h : r.debut? fp ps = some i) (p : Payload) :
    r.debut? fp (ps ++ [p]) = some i := by
  rw [debut?_concat, h, Option.some_or]

theorem Precedes.concat (h : r.Precedes ps a b) (p : Payload) : r.Precedes (ps ++ [p]) a b := by
  obtain ⟨i, j, hi, hj, hlt⟩ := h
  exact ⟨i, j, debut?_concat_of_some hi p, debut?_concat_of_some hj p, hlt⟩

/-! ## The values seen -/

/-- The values seen are those with a debut, in the order of their debuts. -/
structure Ranked (r : Round) (ps : List Payload) : Prop where
  mem_seen_iff : ∀ fp, fp ∈ (r.hearAll ps).seen ↔ (r.debut? fp ps).isSome = true
  ordered : (r.hearAll ps).seen.Pairwise (r.Precedes ps)

theorem seen_count (r : Round) (p : Payload) : (r.count p).seen =
    if p.fingerprint ∈ r.seen then r.seen else r.seen ++ [p.fingerprint] := by
  unfold count
  simp only [List.contains_iff_mem]

/-- One more payload keeps the values seen in step with their debuts. -/
theorem ranked_concat (h : r.Ranked ps) (p : Payload) : r.Ranked (ps ++ [p]) := by
  have hordered := h.ordered.imp fun hab => hab.concat p
  rcases (r.hearAll ps).hear_cases p with ⟨-, hok, heq⟩ | ⟨hok, heq⟩
  · refine ⟨fun fp => ?_, ?_⟩
    · rw [hearAll_concat, heq, mem_seen_count, h.mem_seen_iff, debut?_concat, Option.isSome_or,
        Bool.or_eq_true, eq_comm (a := fp)]
      simp only [hok, true_and]
      split_ifs with hfp <;> simp [hfp]
    · rw [hearAll_concat, heq, seen_count]
      split_ifs with hm
      · exact hordered
      -- a value that was not seen has its debut at the end, after all others
      · rw [List.pairwise_append]
        refine ⟨hordered, List.pairwise_singleton _ _, fun a ha b hb => ?_⟩
        obtain rfl := List.mem_singleton.1 hb
        obtain ⟨i, hi⟩ := Option.isSome_iff_exists.1 ((h.mem_seen_iff a).1 ha)
        have hnone := Option.not_isSome_iff_eq_none.1 (mt (h.mem_seen_iff _).2 hm)
        refine ⟨i, ps.length, debut?_concat_of_some hi p, ?_, lt_length_of_debut? hi⟩
        rw [debut?_concat, hnone, if_pos ⟨hok, rfl⟩, Option.none_or]
  · refine ⟨fun fp => ?_, ?_⟩
    · rw [hearAll_concat, heq, h.mem_seen_iff, debut?_concat, hok]
      simp
    · rw [hearAll_concat, heq]
      exact hordered

theorem ranked_hearAll (hr : r.seen = []) (ps : List Payload) : r.Ranked ps := by
  induction ps using List.reverseRecOn with
  | nil =>
    have hnil : (r.hearAll []).seen = [] := hr
    exact ⟨fun fp => by rw [hnil]; simp [debut?], by rw [hnil]; exact .nil⟩
  | append_singleton ps p ih => exact ranked_concat ih p

/-! ## The tally -/

/-- The tally is in the order in which values were first seen. -/
theorem pairwise_tally_of_seen {R : Fingerprint → Fingerprint → Prop} (h : r.seen.Pairwise R) :
    r.tally.Pairwise fun d e => R d.1 e.1 := by
  rw [tally_eq]
  refine List.Pairwise.filterMap _ (fun a b hab d hd e he => ?_) h
  split_ifs at hd he
  cases hd
  cases he
  exact hab

/-- The tally counts every payload that is held once. -/
theorem Tracked.sum_tally (h : r.Tracked) : (r.tally.map Prod.snd).sum = r.payloads.size := by
  have hheld : r.tally.map Prod.snd = (r.tally.map Prod.fst).map r.held := by
    rw [List.map_map]
    exact List.map_congr_left fun e he => (h.mem_tally_iff.1 he).1
  have hperm : (r.tally.map Prod.fst).Perm (r.payloads.values.map Payload.fingerprint).dedup := by
    refine (List.perm_ext_iff_of_nodup (List.pairwise_map.2 h.pairwise_tally)
      (List.nodup_dedup _)).2 fun fp => ?_
    rw [List.mem_dedup, List.mem_map, ← List.count_pos_iff]
    show _ ↔ 0 < r.held fp
    constructor
    · rintro ⟨e, he, rfl⟩
      obtain ⟨hn, hpos⟩ := h.mem_tally_iff.1 he
      exact hn ▸ hpos
    · intro hpos
      exact ⟨(fp, r.held fp), h.mem_tally_iff.2 ⟨rfl, hpos⟩, rfl⟩
  calc (r.tally.map Prod.snd).sum
      = ((r.payloads.values.map Payload.fingerprint).dedup.map r.held).sum := by
        rw [hheld, (hperm.map r.held).sum_eq]
    _ = (r.payloads.values.map Payload.fingerprint).length := List.sum_map_count_dedup_eq_length _
    _ = r.payloads.size := by rw [List.length_map, SortedMap.length_values]

/-! ## The greatest entry -/

theorem greatest_eq_none_iff {es : List (Fingerprint × Nat)} : greatest es = none ↔ es = [] := by
  cases es with
  | nil => exact iff_of_true rfl rfl
  | cons e es =>
    refine iff_of_false (fun h => ?_) (List.cons_ne_nil e es)
    unfold greatest at h
    cases hg : greatest es with
    | none =>
      rw [hg] at h
      cases h
    | some d =>
      rw [hg] at h
      simp only at h
      split_ifs at h

/-- The greatest entry comes before the others that are as great. -/
theorem greatest_eq_some {es : List (Fingerprint × Nat)} {e : Fingerprint × Nat}
    (h : greatest es = some e) : ∃ before after, es = before ++ e :: after ∧
      (∀ d ∈ before, d.2 < e.2) ∧ ∀ d ∈ after, d.2 ≤ e.2 := by
  induction es generalizing e with
  | nil => cases h
  | cons c es ih =>
    unfold greatest at h
    cases hg : greatest es with
    | none =>
      rw [hg] at h
      cases h
      obtain rfl := greatest_eq_none_iff.1 hg
      exact ⟨[], [], rfl, nofun, nofun⟩
    | some d =>
      obtain ⟨before, after, rfl, hbefore, hafter⟩ := ih hg
      rw [hg] at h
      simp only at h
      split_ifs at h with hlt
      · cases h
        refine ⟨c :: before, after, rfl, fun x hx => ?_, hafter⟩
        rcases List.mem_cons.1 hx with rfl | hx
        · exact hlt
        · exact hbefore x hx
      · cases h
        refine ⟨[], _, rfl, nofun, fun x hx => ?_⟩
        have hle : d.2 ≤ c.2 := Nat.le_of_not_lt hlt
        rcases List.mem_append.1 hx with hx | hx
        · exact Nat.le_trans (Nat.le_of_lt (hbefore x hx)) hle
        rcases List.mem_cons.1 hx with rfl | hx
        · exact hle
        · exact Nat.le_trans (hafter x hx) hle

theorem Tracked.mostVoted?_eq_none_iff (h : r.Tracked) :
    r.mostVoted? = none ↔ r.payloads.size = 0 := by
  unfold mostVoted?
  rw [greatest_eq_none_iff, ← h.sum_tally]
  cases ht : r.tally with
  | nil => exact iff_of_true rfl rfl
  | cons e es =>
    have hpos := (h.mem_tally_iff.1 (ht ▸ List.mem_cons_self : (e.1, e.2) ∈ r.tally)).2
    exact iff_of_false (List.cons_ne_nil e es) (by rw [List.map_cons, List.sum_cons]; omega)

/-! ## Every round -/

/-- **The tally tells who holds what, and the earliest value wins a tie.** After any payloads,
however often senders changed their mind, the tally has one entry for every value that some sender
holds and no other, with the number of its holders, and these numbers add up to the number of
payloads held. The entries come in the order of their debuts. The value that most senders hold is
missing exactly if nobody holds any, no other one has more holders, and every other one with as many
had its debut later, whether or not the payload of the debut is still held. -/
theorem tally_in_order_of_debut {t : Terms} {r : Round} (hr : t.start = .ok r)
    (ps : List Payload) :
    ((r.hearAll ps).tally.map Prod.fst).Nodup ∧
      (∀ fp n, (fp, n) ∈ (r.hearAll ps).tally ↔ n = ((r.hearAll ps).holders fp).length ∧
        ∃ pk p, (r.hearAll ps).payloads.get? pk = some p ∧ p.fingerprint = fp) ∧
      ((r.hearAll ps).tally.map Prod.snd).sum = (r.hearAll ps).payloads.size ∧
      ((r.hearAll ps).tally.Pairwise fun d e => r.Precedes ps d.1 e.1) ∧
      ((r.hearAll ps).mostVoted? = none ↔ (r.hearAll ps).payloads.size = 0) ∧
      ∀ e, (r.hearAll ps).mostVoted? = some e → e ∈ (r.hearAll ps).tally ∧
        ∀ d ∈ (r.hearAll ps).tally, d.2 ≤ e.2 ∧ (d.2 = e.2 → d = e ∨ r.Precedes ps e.1 d.1) := by
  obtain rfl : r = t.fresh := eq_fresh_of_start hr
  have htracked := (Terms.holds_fresh t).tracked.hearAll ps
  have hordered := pairwise_tally_of_seen (ranked_hearAll (r := t.fresh) rfl ps).ordered
  refine ⟨List.pairwise_map.2 htracked.pairwise_tally, fun fp n => ?_, htracked.sum_tally, hordered,
    htracked.mostVoted?_eq_none_iff, fun e he => ?_⟩
  · rw [htracked.mem_tally_iff, length_holders, ← held_pos_iff]
    exact and_congr_right fun hn => by rw [hn]
  · obtain ⟨before, after, heq, hbefore, hafter⟩ := greatest_eq_some he
    rw [heq] at hordered ⊢
    refine ⟨List.mem_append_right _ List.mem_cons_self, fun d hd => ?_⟩
    rcases List.mem_append.1 hd with hd | hd
    · have hlt := hbefore d hd
      exact ⟨Nat.le_of_lt hlt, fun hde => absurd hde (Nat.ne_of_lt hlt)⟩
    rcases List.mem_cons.1 hd with rfl | hd
    · exact ⟨Nat.le_refl _, fun _ => .inl rfl⟩
    · have hafter' := (List.pairwise_cons.1 (List.pairwise_append.1 hordered).2.1).1 d hd
      exact ⟨hafter d hd, fun _ => .inr hafter'⟩

/-! ## A first vote that was taken back -/

/-- The first peer changes over to the value of the second one. -/
def turncoat : List Payload :=
  [choice 0 8, choice 1 9, choice 0 9, choice 2 8, choice 3 8]

/-- The fingerprint of a vote does not depend on the voter. -/
theorem fingerprint_choice (voter keeper : UInt8) :
    (choice voter keeper).fingerprint = (Vote.selectKeeper (Octets.fill keeper)).fingerprint := rfl

theorem tally_turncoat (hne : (choice 1 9).fingerprint ≠ (choice 0 8).fingerprint) :
    (choosing.fresh.hearAll turncoat).tally =
      [((choice 0 8).fingerprint, 2), ((choice 1 9).fingerprint, 2)] := by
  have hcounted : choosing.fresh.hearAll turncoat = turncoat.foldl count choosing.fresh := rfl
  have hheld : (choosing.fresh.hearAll turncoat).payloads.values.map Payload.fingerprint =
      [(choice 0 9).fingerprint, (choice 1 9).fingerprint, (choice 2 8).fingerprint,
        (choice 3 8).fingerprint] := rfl
  simp only [fingerprint_choice] at hne hheld ⊢
  have hseen : (choosing.fresh.hearAll turncoat).seen =
      [(Vote.selectKeeper (Octets.fill 8)).fingerprint,
        (Vote.selectKeeper (Octets.fill 9)).fingerprint] := by
    rw [hcounted]
    simp [turncoat, seen_count, fingerprint_choice, hne, choosing, Terms.fresh, fresh]
  rw [tally_eq, hseen]
  unfold held
  rw [hheld]
  simp [List.count_cons, hne, hne.symm]

/-- Two values with two holders each; the one that the first peer gave up wins. -/
theorem tally_in_order_of_debut_of_turncoat :
    (choosing.fresh.hearAll turncoat).mostVoted? = some ((choice 0 8).fingerprint, 2) ∧
      ((choice 1 9).fingerprint, 2) ∈ (choosing.fresh.hearAll turncoat).tally ∧
      choosing.fresh.Precedes turncoat (choice 0 8).fingerprint (choice 1 9).fingerprint := by
  have hstart : choosing.start = .ok choosing.fresh :=
    start_eq (by decide : choosing.participants.peers ≠ [])
      (by decide : choosing.participants.size ≤ PeerCount.limit)
  have hne : (choice 1 9).fingerprint ≠ (choice 0 8).fingerprint := by decide +kernel
  have htally := tally_turncoat hne
  have hmost : (choosing.fresh.hearAll turncoat).mostVoted? =
      some ((choice 0 8).fingerprint, 2) := by
    unfold mostVoted?
    rw [htally]
    rfl
  have hmem : ((choice 1 9).fingerprint, 2) ∈ (choosing.fresh.hearAll turncoat).tally := by
    rw [htally]
    exact List.mem_cons_of_mem _ (List.mem_singleton_self _)
  obtain ⟨-, -, -, -, -, hwins⟩ := tally_in_order_of_debut hstart turncoat
  refine ⟨hmost, hmem, (((hwins _ hmost).2 _ hmem).2 rfl).resolve_left fun heq => ?_⟩
  exact hne (congrArg Prod.fst heq)

end Quorum.Round
