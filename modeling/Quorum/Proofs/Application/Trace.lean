import Quorum.Proofs.Application.Run

/-!
# What the rounds hold, read off the blocks

* `submissionsAfter` : the submissions of the blocks past a height;
* `Round.Holds` : a round holds the last ballot of every peer that it hears, and nothing else;
* `Application.Traced` : both rounds hold the last ballots since their start;
* `traced_afterBlocks` : this holds along every run from the start.
-/

namespace Quorum

/-- The submissions of the blocks past a height, in order. -/
def submissionsAfter (height : Nat) (bs : List Block) : List Submission :=
  (bs.filter fun b => height < b.height.toNat).flatMap Block.submissions

theorem submissionsAfter_concat_of_lt {height : Nat} {b : Block} (h : height < b.height.toNat)
    (bs : List Block) :
    submissionsAfter height (bs ++ [b]) = submissionsAfter height bs ++ b.submissions := by
  unfold submissionsAfter
  rw [List.filter_append, List.flatMap_append, List.filter_singleton, decide_eq_true h, cond_true,
    List.flatMap_singleton]

theorem InOrder.height_le {height : Nat} {bs : List Block} (h : InOrder height bs) {b : Block}
    (hb : b ∈ bs) : b.height.toNat ≤ height + bs.length := by
  induction bs generalizing height with
  | nil => cases hb
  | cons c bs ih =>
    rw [List.length_cons]
    rcases List.mem_cons.1 hb with rfl | hb
    · have := h.1
      omega
    · have := ih h.2 hb
      omega

/-- No block of a run is past its end. -/
theorem submissionsAfter_eq_nil {height start : Nat} {bs : List Block} (h : InOrder start bs)
    (hle : start + bs.length ≤ height) : submissionsAfter height bs = [] := by
  have hf : (bs.filter fun b => height < b.height.toNat) = [] := by
    rw [List.filter_eq_nil_iff]
    intro b hb
    have := h.height_le hb
    rw [decide_eq_true_eq]
    omega
  unfold submissionsAfter
  rw [hf, List.flatMap_nil]

namespace Round

/-- The round holds the last ballot that the submissions cast for every peer that it hears. -/
def Holds (r : Round) (subs : List Submission) : Prop :=
  ∀ pk, r.payloads.get? pk =
    if r.hears pk = true then lastBallot r.kind r.countTag subs pk else none

theorem holds_fresh (kind : RoundKind) (roundCount : RoundCount) (participants : PeerSet)
    (keeper : Option PublicKey) (height : Height) (any : Bool) :
    (fresh kind roundCount participants keeper height any).Holds [] := by
  intro pk
  rw [lastBallot_nil, ite_self]
  rfl

theorem Holds.collectAll {r : Round} {subs : List Submission} (h : r.Holds subs)
    (hc : r.concluded = false) (more : List Submission) :
    (r.collectAll more).Holds (subs ++ more) := by
  intro pk
  rw [get?_collectAll hc, h pk, collectAll_hears, collectAll_kind, collectAll_countTag,
    lastBallot_append]
  by_cases hh : r.hears pk = true
  · rw [if_pos hh, if_pos hh, if_pos hh]
  · rw [if_neg hh, if_neg hh, if_neg hh]

theorem Holds.ballot {r : Round} {subs : List Submission} (h : r.Holds subs) {pk : PublicKey}
    {p : Payload} (hp : r.payloads.get? pk = some p) :
    lastBallot r.kind r.countTag subs pk = some p := by
  rw [h pk] at hp
  split_ifs at hp
  exact hp

end Round

namespace Application

variable {a a' : Application} {b : Block} {bs : List Block}

/-- Both rounds hold the last ballots since their start, until the service ends. -/
structure Traced (bs : List Block) (a : Application) : Prop where
  current : a.isFinished = false →
    a.current.Holds (submissionsAfter a.current.startHeight.toNat bs)
  background : ∀ bg, a.background = some bg → bg.Holds (submissionsAfter bg.startHeight.toNat bs)

/-- One more block for a round that was started before it. -/
theorem holds_concat {r : Round} (h : r.Holds (submissionsAfter r.startHeight.toNat bs))
    (hc : r.concluded = false) (hlt : r.startHeight.toNat < b.height.toNat) :
    (r.collectAll b.submissions).Holds
      (submissionsAfter (r.collectAll b.submissions).startHeight.toNat (bs ++ [b])) := by
  rw [Round.collectAll_startHeight, submissionsAfter_concat_of_lt hlt]
  exact h.collectAll hc b.submissions

theorem Traced.step {t : Option Transition} {height : Nat} (hin : InOrder height (bs ++ [b]))
    (h : a.Coherent) (hb : b.height.toNat = a.height.toNat + 1) (hs : Step a b a' t)
    (ht : Traced bs a) : Traced (bs ++ [b]) a' := by
  -- a round that the block starts has seen no block yet
  have hnil : submissionsAfter b.height.toNat (bs ++ [b]) = [] := by
    refine submissionsAfter_eq_nil hin ?_
    rw [List.length_append, List.length_singleton, (inOrder_concat.1 hin).2]
    omega
  have hbg {bg : Round} (hbg : a.background = some bg) : (bg.collectAll b.submissions).Holds
      (submissionsAfter (bg.collectAll b.submissions).startHeight.toNat (bs ++ [b])) := by
    obtain ⟨hw, hstart⟩ := h.background_watches hbg
    exact holds_concat (ht.background bg hbg) hw.collecting (by omega)
  cases hs with
  | finished hf =>
    refine ⟨fun hf' => ?_, fun bg hbg' => ?_⟩
    · cases hf.symm.trans hf'
    · cases (h.ended hf).symm.trans hbg'
  | waits hf _ _ =>
    refine ⟨fun _ => ?_, fun bg' hbg' => ?_⟩
    · have := h.startHeight_le
      exact holds_concat (ht.current hf) h.collecting (by omega)
    · obtain ⟨bg, hbg₀, rfl⟩ := Option.map_eq_some_iff.1 hbg'
      exact hbg hbg₀
  | terminates hf hbg₀ hs =>
    obtain ⟨-, ⟨_, hfol⟩, -, keeper, -, rfl⟩ := h.of_succeeds (h.hosts_background hbg₀) hs
    have hend := hfol.isTerminal.2 (h.background_watches hbg₀).1.kind
    refine ⟨fun hf' => ?_, fun bg hbg' => by cases hbg'⟩
    cases hend.symm.trans hf'
  | @moves bg data event roundCount target next hf hbg₀ _ hs =>
    obtain ⟨-, -, -, keeper, -, rfl⟩ := h.of_succeeds h.hosts_current hs
    refine ⟨fun _ => ?_, fun bg' hbg' => ?_⟩
    · show Round.Holds _ (submissionsAfter b.height.toNat (bs ++ [b]))
      rw [hnil]
      exact Round.holds_fresh _ _ _ _ _ _
    · cases hbg'
      by_cases hp : (bg.collectAll b.submissions).participants =
          RoundKind.termination.asked data a.params.participants
      · rw [Round.kept_of_asks hp]
        exact hbg hbg₀
      · rw [Round.kept_of_others fun r hr => by cases hr; exact hp]
        show Round.Holds _ (submissionsAfter b.height.toNat (bs ++ [b]))
        rw [hnil]
        exact Round.holds_fresh _ _ _ _ _ _

/-- **Along every run from the start the rounds hold the last ballots since their start.** -/
theorem traced_afterBlocks {params : AppParams} (hne : params.participants.peers ≠ [])
    (hle : params.participants.size ≤ PeerCount.limit) (hin : InOrder 0 bs) :
    Traced bs ((initial params).afterBlocks bs) := by
  have h0 : Traced [] (initial params) := by
    refine ⟨fun _ => Round.holds_fresh _ _ _ _ _ _, fun bg hbg => ?_⟩
    cases hbg
    exact Round.holds_fresh _ _ _ _ _ _
  exact ((coherent_initial hne hle).run_induction h0
    (fun _ _ _ _ hin h hb _ hs ht => ht.step hin h hb hs) hin).1

end Application

end Quorum
