import Quorum.Application.Basic

/-!
# Stored checkpoints

`CheckpointStore` holds checkpoints by the version of their data, in increasing order.
-/

namespace Quorum

/-- Checkpoints by the version of their data. -/
structure CheckpointStore where
  checkpoints : SortedMap Version Checkpoint
  /-- The content is lost when the store is closed. -/
  ephemeral : Bool
  deriving DecidableEq

namespace CheckpointStore

/-- A store that was never written to. -/
def empty (ephemeral : Bool) : CheckpointStore := ⟨SortedMap.empty, ephemeral⟩

/-- Close the store and open it again. -/
def reopen (s : CheckpointStore) : CheckpointStore := if s.ephemeral then empty true else s

/-- Add a checkpoint, over one of the same version. -/
def save (s : CheckpointStore) (c : Checkpoint) : CheckpointStore :=
  { s with checkpoints := s.checkpoints.insert c.data.version c }

/-- The checkpoint of a version. -/
def load? (s : CheckpointStore) (v : Version) : Option Checkpoint := s.checkpoints.get? v

/-- The checkpoint of the greatest version. -/
def latest? (s : CheckpointStore) : Option Checkpoint := s.checkpoints.last?.map (·.2)

/-- The versions, increasing. -/
def versions (s : CheckpointStore) : List Version := s.checkpoints.keys

/-- Remove the checkpoints below a version; how many there were. -/
def pruneBelow (s : CheckpointStore) (v : Version) : CheckpointStore × Nat :=
  let kept := s.checkpoints.filter fun e => v ≤ e.1
  ({ s with checkpoints := kept }, s.checkpoints.size - kept.size)

/-- Save a checkpoint and remove those that are `keep` versions older or more. -/
def saveKeeping (s : CheckpointStore) (keep : Nat) (c : Checkpoint) : CheckpointStore :=
  let saved := s.save c
  let version := c.data.version.toNat
  if keep ≤ version then (saved.pruneBelow (Counter.ofNat (version - keep + 1))).1 else saved

/-- The greatest version that every store has. -/
def commonVersion? : List CheckpointStore → Option Version
  | [] => none
  | s :: ss => (s.versions.filter fun v => ss.all fun t => (t.load? v).isSome).getLast?

/-- The checkpoint of the greatest version that every store has, as the first store has it. -/
def common? (stores : List CheckpointStore) : Option Checkpoint := do
  let v ← commonVersion? stores
  let first ← stores.head?
  first.load? v

end CheckpointStore

end Quorum
