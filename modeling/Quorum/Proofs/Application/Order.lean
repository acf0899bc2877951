import Quorum.Proofs.Application.Restart
import Quorum.Proofs.Application.SideBySide
import Quorum.Proofs.Round.Order

/-!
# The order of submissions across senders

* `Application.unordered` : an application but for the order in which its rounds saw values first;
* `processBlock_of_unordered` : applications that differ in this order alone return the same outcome
  for a block and for one with its submissions rearranged, and still differ in this order alone;
* `order_across_senders` : so they never come apart, whatever blocks follow.
-/

namespace Quorum.Application

open Round (SameVotes)

/-- The application but for the order in which its rounds saw values first. -/
def unordered (a : Application) : Application :=
  { a with current := a.current.unordered, background := a.background.map Round.unordered }

variable {x y : Application} {b c : Block}

theorem matching_sameVotes : Matching SameVotes SameVotes where
  refl _ := rfl
  kind h := (congrArg Round.kind h :)
  takes := SameVotes.takes
  refl_background _ := rfl
  takes_background := SameVotes.takes
  participants h := (congrArg Round.participants h :)

theorem unordered_eq_iff :
    y.unordered = x.unordered ↔ Alike SameVotes SameVotes x y ∧ y.history = x.history := by
  -- the two background rounds, which are both there or both not
  have hbg : y.background.map Round.unordered = x.background.map Round.unordered ↔
      Option.Rel SameVotes x.background y.background := by
    cases x.background <;> cases y.background <;> simp [Option.rel_some_some]
  constructor
  · intro h
    exact ⟨{
      params := (congrArg Application.params h :)
      table := (congrArg Application.table h :)
      previous := (congrArg Application.previous h :)
      data := (congrArg Application.data h :)
      roundCount := (congrArg Application.roundCount h :)
      height := (congrArg Application.height h :)
      current := (congrArg Application.current h :)
      background := hbg.1 (congrArg Application.background h :) },
      (congrArg Application.history h :)⟩
  · rintro ⟨h, hh⟩
    unfold unordered
    rw [h.current, hbg.2 h.background, hh, h.params, h.table, h.previous, h.data, h.roundCount,
      h.height]

/-- **Applications that differ only in the order in which values were seen stay so.** -/
theorem processBlock_of_unordered (h : y.unordered = x.unordered) (hx : x.Coherent)
    (hy : y.Coherent) (hc : c.height = b.height) (hs : Rearranged b.submissions c.submissions) :
    (y.processBlock c).2 = (x.processBlock b).2 ∧
      (y.processBlock c).1.unordered = (x.processBlock b).1.unordered := by
  obtain ⟨halike, hh⟩ := unordered_eq_iff.1 h
  by_cases hb : b.height.toNat = x.height.toNat + 1
  · have hcurrent := SameVotes.collectAll halike.current hx.collecting hs
    have hbackground {r r' : Round} (hr : x.background = some r) (hsame : SameVotes r r') :=
      hsame.collectAll (hx.background_watches hr).1.collecting hs
    -- the same votes come to the same verdict in either round
    have hverdict : y.verdict c y.current = x.verdict b x.current := by
      unfold verdict
      rw [halike.data, halike.params, hc]
      exact (hx.wellFormed.collectAll hx.collecting _).endBlock_eq
        (hy.wellFormed.collectAll hy.collecting _) hcurrent _ _ _
    have hverdict' : ∀ r r', x.background = some r → y.background = some r' →
        y.verdict c r' = x.verdict b r := by
      intro r r' hr hr'
      have hw := (hx.background_watches hr).1.collectAll b.submissions
      have hw' := (hy.background_watches hr').1.collectAll c.submissions
      have hsame := halike.background
      rw [hr, hr', Option.rel_some_some] at hsame
      unfold verdict
      rw [halike.data, halike.params, hc]
      exact hw.wellFormed.endBlock_eq hw'.wellFormed (hbackground hr hsame) _ _ _
    have hreceived := halike.received hc (fun _ => hcurrent) hbackground
    obtain ⟨hout, hnext, hhist⟩ := halike.processBlock matching_sameVotes hreceived hx hy hb hs.perm
      hverdict hverdict'
    exact ⟨hout, unordered_eq_iff.2 ⟨hnext, hhist hh⟩⟩
  · have hc' : c.height.toNat ≠ y.height.toNat + 1 := by rwa [hc, halike.height]
    have hrefusal : refusal y.height c = refusal x.height b := by
      unfold refusal
      rw [halike.height, hc]
    rw [processBlock_of_refused hb, processBlock_of_refused hc', hrefusal]
    exact ⟨rfl, h⟩

theorem outcomes_of_unordered (h : y.unordered = x.unordered) (hx : x.Coherent) (hy : y.Coherent)
    (bs : List Block) : y.outcomes bs = x.outcomes bs ∧
      (y.afterBlocks bs).unordered = (x.afterBlocks bs).unordered := by
  induction bs generalizing x y with
  | nil => exact ⟨rfl, h⟩
  | cons b bs ih =>
    obtain ⟨hout, hnext⟩ := processBlock_of_unordered h hx hy rfl (.refl b.submissions)
    obtain ⟨houts, hafter⟩ := ih hnext (hx.next b) (hy.next b)
    exact ⟨List.cons_eq_cons.2 ⟨hout, houts⟩, hafter⟩

/-- **The order of submissions across senders has no influence.** After blocks with rearranged
submissions, whatever follows, the outcomes are the same, and the applications differ at most in
the order in which their rounds saw values first. -/
theorem order_across_senders {a : Application} {params : AppParams}
    (hstart : start params = .ok a) {bs : List Block} (hin : InOrder 0 (bs ++ [b]))
    (hc : c.height = b.height) (hs : Rearranged b.submissions c.submissions) (post : List Block) :
    (a.afterBlocks bs).outcomes (c :: post) = (a.afterBlocks bs).outcomes (b :: post) ∧
      (a.afterBlocks (bs ++ c :: post)).unordered =
        (a.afterBlocks (bs ++ b :: post)).unordered := by
  obtain ⟨h, -⟩ := coherent_of_start hstart (inOrder_concat.1 hin).1
  rw [afterBlocks_append, afterBlocks_append]
  generalize a.afterBlocks bs = a at h ⊢
  obtain ⟨hout, hnext⟩ := processBlock_of_unordered rfl h h hc hs
  obtain ⟨houts, hafter⟩ := outcomes_of_unordered hnext (h.next b) (h.next c) post
  exact ⟨List.cons_eq_cons.2 ⟨hout, houts⟩, hafter⟩

/-! ## Two votes in either order -/

/-- A vote of the second peer to end the service with another transaction. -/
def otherVote : Submission where
  payload := Wire.encode (⟨secondPeer, Counter.zero,
    .termination ⟨Bytes.ofNatBE 32 1, Bytes.length_ofNatBE 32 _⟩⟩ : Payload)
  sig := ⟨Bytes.ofNatBE 64 0x4dc6f7422ba88498c047c40842aeac75d293ac3b1bdf074ef60fb62294672529723b8369fe6cbfae694895f30ad9ea6bec293122fdd4f79bc453fe292cacf501,
    Bytes.length_ofNatBE 64 _⟩

theorem open_otherVote : otherVote.open = .ok ⟨secondPeer, Counter.zero,
    .termination ⟨Bytes.ofNatBE 32 1, Bytes.length_ofNatBE 32 _⟩⟩ := by decide +kernel

/-- The background round of the pair with some votes counted. -/
def pairWatch (ps : List Payload) : Round :=
  ps.foldl Round.count (Round.watch pairParams.participants Counter.zero Counter.zero)

section
variable {s₁ s₂ : Submission} {p₁ p₂ : Payload} (h₁ : s₁.open = .ok p₁) (h₂ : s₂.open = .ok p₂)
  (hk₁ : p₁.kind = .termination) (hk₂ : p₂.kind = .termination)
include h₁ h₂ hk₁ hk₂

theorem collectAll_pairWatch (hp₁ : p₁.sender ∈ [firstPeer, secondPeer])
    (hp₂ : p₂.sender ∈ [firstPeer, secondPeer]) :
    (pairWatch []).collectAll [s₁, s₂] = pairWatch [p₁, p₂] := by
  have hfirst : (pairWatch []).collect s₁ = pairWatch [p₁] := Round.collect_of_accepted h₁
    (Round.accept_eq_ok_iff.2 ⟨⟨rfl, hears_pair hp₁, congrArg some hk₁.symm, .inl rfl⟩, rfl⟩)
  have hsecond : (pairWatch [p₁]).collect s₂ = pairWatch [p₁, p₂] := Round.collect_of_accepted h₂
    (Round.accept_eq_ok_iff.2 ⟨⟨rfl, hears_pair hp₂, congrArg some hk₂.symm, .inl rfl⟩, rfl⟩)
  rw [Round.collectAll_cons, hfirst, Round.collectAll_singleton, hsecond]

/-- Two votes that do not decide are held in the order in which they came. -/
theorem background_pairWatch (hp₁ : p₁.sender ∈ [firstPeer, secondPeer])
    (hp₂ : p₂.sender ∈ [firstPeer, secondPeer])
    (hopen : ((pairWatch [p₁, p₂]).endBlock Snapshot.empty (Counter.ofNat 1) 30).2 = .ok none) :
    ((initial pairParams).afterBlocks [Block.first [s₁, s₂]]).background =
      some (pairWatch [p₁, p₂]) := by
  have h := coherent_initial_pair
  have hbg : (initial pairParams).background = some (pairWatch []) := rfl
  have hcollect := collectAll_pairWatch h₁ h₂ hk₁ hk₂ hp₁ hp₂
  have hcurrent : (initial pairParams).current.collectAll [s₁, s₂] =
      (initial pairParams).current := by
    have hother {p : Payload} (hk : p.kind = .termination) :
        (initial pairParams).current.kind.votes? ≠ some p.kind := by
      rw [hk]
      decide
    rw [Round.collectAll_cons, Round.collect_of_votes h₁ (hother hk₁), Round.collectAll_singleton,
      Round.collect_of_votes h₂ (hother hk₂)]
  obtain ⟨v, o, x, t, hv, ho, hend, he⟩ := h.ending (b := Block.first [s₁, s₂]) hbg rfl
  have hnone : v = none := by
    unfold verdict at hv
    rw [show (Block.first [s₁, s₂]).submissions = [s₁, s₂] from rfl, hcollect] at hv
    exact Except.ok.inj (hv.symm.trans hopen)
  have hnone' : o = none := by
    unfold verdict at ho
    rw [show (Block.first [s₁, s₂]).submissions = [s₁, s₂] from rfl, hcurrent] at ho
    exact Except.ok.inj (ho.symm.trans rfl)
  subst hnone hnone'
  cases he
  show ((initial pairParams).processBlock _).1.background = _
  rw [processBlock_of_running h.apart rfl rfl, hend]
  exact (received_background hbg _).trans (congrArg some hcollect)

end

/-- Two votes for different transactions, in either order: only the order in which they were seen
differs. -/
theorem order_across_senders_of_pair :
    (initial pairParams).outcomes [Block.first [otherVote, firstVote]] =
      (initial pairParams).outcomes [Block.first [firstVote, otherVote]] ∧
    ((initial pairParams).afterBlocks [Block.first [otherVote, firstVote]]).unordered =
      ((initial pairParams).afterBlocks [Block.first [firstVote, otherVote]]).unordered ∧
    ((initial pairParams).afterBlocks [Block.first [otherVote, firstVote]]).background ≠
      ((initial pairParams).afterBlocks [Block.first [firstVote, otherVote]]).background := by
  have hs := Rearranged.swap open_firstVote open_otherVote secondPeer_ne_firstPeer.symm [] []
  have hin : InOrder 0 ([] ++ [Block.first [firstVote, otherVote]]) := ⟨rfl, trivial⟩
  obtain ⟨hout, hafter⟩ := order_across_senders start_pair hin
    (c := Block.first [otherVote, firstVote]) rfl hs []
  refine ⟨hout, hafter, ?_⟩
  rw [background_pairWatch open_otherVote open_firstVote rfl rfl (by simp) (by simp)
      (by decide +kernel),
    background_pairWatch open_firstVote open_otherVote rfl rfl (by simp) (by simp)
      (by decide +kernel)]
  decide +kernel

end Quorum.Application
