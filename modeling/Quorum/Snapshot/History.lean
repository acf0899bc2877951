import Quorum.Snapshot.Basic

/-!
# Published snapshots

`History` holds the last snapshots by version, never more than its capacity and never fewer than
one.
-/

namespace Quorum

/-- The last snapshots, by version. -/
structure History where
  snapshots : SortedMap Version Snapshot
  capacity : Nat
  deriving DecidableEq

namespace History

/-- Remove the oldest snapshots until at most `capacity` are left. -/
def trim (capacity : Nat) : Nat → SortedMap Version Snapshot → SortedMap Version Snapshot
  | 0, m => m
  | excess + 1, m => if capacity < m.size then trim capacity excess m.dropFirst else m

/-- Add a snapshot, over one of the same version. -/
def push (h : History) (s : Snapshot) : History :=
  let m := h.snapshots.insert s.version s
  { h with snapshots := trim h.capacity m.size m }

/-- The history of one snapshot, with room for at least one. -/
def start (s : Snapshot) (capacity : Nat) : History :=
  (⟨SortedMap.empty, max capacity 1⟩ : History).push s

/-- The snapshot of a version. -/
def get? (h : History) (v : Version) : Option Snapshot := h.snapshots.get? v

/-- The snapshot of the greatest version. -/
def latest? (h : History) : Option Snapshot := h.snapshots.last?.map (·.2)

/-- The versions, increasing. -/
def versions (h : History) : List Version := h.snapshots.keys

/-- The number of snapshots. -/
def size (h : History) : Nat := h.snapshots.size

end History

end Quorum
