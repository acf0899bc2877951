import Quorum.Proofs.Application.Advance
import Quorum.Proofs.Round.Errors

/-!
# Blocks in order

Only the height of a block is ever compared with the height of the application, so a block at the
next height may fail for many reasons, but not because it is out of order.

* `Orderly` : a result that is no error about the order of blocks;
* `Round.orderly_endBlock` : no round fails because of the order of blocks, whatever the agreed data
  holds;
* `orderly_processBlock` : nor does an application, for the next block.
-/

namespace Quorum

/-- No error about the order of blocks. -/
abbrev Orderly {α : Type} (r : Except FatalError α) : Prop :=
  Avoids (fun heights : Height × Height => .blockOutOfOrder heights.1 heights.2) r

theorem foreign_order : Foreign fun heights : Height × Height =>
    FatalError.blockOutOfOrder heights.1 heights.2 where
  snapshot _ _ _ := nofun
  unexpectedPayload _ _ _ := nofun
  unexpectedDecision _ _ := nofun
  outOfNumbers _ := nofun

/-! ## Rounds -/

namespace Round

theorem orderly_winner? (r : Round) : Orderly r.winner? := by
  unfold winner? winnerOf
  split
  · exact avoids_ok _
  · exact avoids_ok _
  · exact avoids_error fun _ => nofun

theorem orderly_decideByVotes (r : Round) : Orderly r.decideByVotes := by
  unfold decideByVotes
  split
  · exact avoids_ok _
  · exact avoids_ok _
  · exact r.orderly_winner?.map _
  all_goals
    split
    · exact r.orderly_winner?.of_error ‹_›
    · exact avoids_ok _
    · exact avoids_ok _

theorem orderly_decide (r : Round) (height : Height) (timeout : UInt64) :
    Orderly (r.decide height timeout) := by
  unfold decide
  split
  · exact r.orderly_decideByVotes.of_error ‹_›
  · exact avoids_ok _
  · exact avoids_ok _

/-- No round fails because of the order of blocks. -/
theorem orderly_endBlock (r : Round) (data : Snapshot) (height : Height) (timeout : UInt64) :
    Orderly (r.endBlock data height timeout).2 := by
  unfold endBlock
  split
  · exact avoids_ok none
  split
  · exact (r.orderly_decide height timeout).of_error ‹_›
  · exact avoids_ok none
  split
  · exact (RoundKind.avoids_conclude foreign_order r.kind _ data).of_error ‹_›
  · exact avoids_ok _

end Round

/-! ## Applications -/

namespace Application

variable {a : Application} {b : Block}

theorem orderly_instantiate (params : AppParams) (data : Snapshot) (k : RoundKind)
    (roundCount : RoundCount) (height : Height) :
    Orderly (instantiate params data k roundCount height) :=
  (RoundKind.avoids_participants foreign_order k data _).bind fun _ =>
    (RoundKind.avoids_keeper? foreign_order k data).bind fun _ => avoids_mapError nofun _

theorem orderly_refreshBackground (a : Application) : Orderly a.refreshBackground := by
  unfold refreshBackground
  split
  · exact avoids_ok _
  split
  · exact avoids_ok _
  refine (RoundKind.avoids_participants foreign_order _ _ _).bind fun _ => ?_
  split
  · exact avoids_ok _
  · exact (avoids_mapError nofun _).bind fun _ => avoids_ok _

theorem orderly_transition (a : Application) (source : RoundKind) (data : Snapshot) (event : Event)
    (preempted : Bool) : Orderly (a.transition source data event preempted).2 := by
  unfold transition
  simp only
  split
  · refine Avoids.of_error ?_ ‹_›
    refine (avoids_mapError nofun _).bind fun target => ?_
    refine Avoids.bind ?_ fun roundCount => ?_
    · cases a.roundCount.next? with
      | none => exact avoids_error fun _ => nofun
      | some c => exact avoids_ok c
    · exact (orderly_instantiate _ _ _ _ _).bind fun _ => avoids_ok _
  split
  · exact avoids_ok _
  split
  · exact (orderly_refreshBackground _).of_error ‹_›
  · exact avoids_ok _

theorem orderly_endBackground (a : Application) (height : Height) :
    Orderly (a.endBackground height).2 := by
  unfold endBackground
  split
  · exact avoids_ok none
  · exact (Round.orderly_endBlock _ _ _ _).map _

theorem orderly_endForeground (a : Application) (height : Height) :
    Orderly (a.endForeground height).2 := a.current.orderly_endBlock _ _ _

theorem orderly_endBlock (a : Application) (height : Height) : Orderly (a.endBlock height).2 := by
  unfold endBlock
  split
  · rename_i h
    exact (a.orderly_endBackground height).of_error (congrArg Prod.snd h)
  split
  · rename_i h
    exact (orderly_endForeground _ height).of_error (congrArg Prod.snd h)
  split
  · exact (orderly_transition _ _ _ _ _).map some
  · exact (orderly_transition _ _ _ _ _).map some
  · exact avoids_ok none

/-- **A block at the next height is never out of order**, whatever the application holds. -/
theorem orderly_processBlock (hb : b.height.toNat = a.height.toNat + 1) :
    Orderly (a.processBlock b).2 := by
  unfold processBlock
  rw [Counter.next?_eq_some.2 hb]
  simp only [ne_eq, not_true_eq_false, if_false]
  split
  · exact avoids_ok _
  · exact (orderly_endBlock _ _).map _

end Application

end Quorum
