import Quorum.Payload.Submission

/-!
# Blocks

A block is an ordered batch of submissions, the same for every peer. Its hash covers its height,
the hash of its predecessor and every submission.
-/

namespace Quorum

/-- An ordered batch of submissions. -/
structure Block where
  height : Height
  prevHash : BlockHash
  submissions : List Submission
  deriving DecidableEq

namespace Block

instance : Wire.Format Block where
  encode b := Wire.encode b.height ++ Wire.encode b.prevHash ++ Wire.encodeList b.submissions
  decode := do
    let height ← Wire.Format.decode
    let prevHash ← Wire.Format.decode
    let submissions ← Wire.decodeList Submission
    pure ⟨height, prevHash, submissions⟩
  footprint := 64

/-- The hash of a block. -/
def hash (b : Block) : BlockHash := (Blake3.hash (Wire.encode b)).toBlockHash

/-- The first block. -/
def first (submissions : List Submission) : Block := ⟨Counter.ofNat 1, Octets.zero, submissions⟩

/-- The block after `b`, unless `b` has the last height. -/
def next? (b : Block) (submissions : List Submission) : Option Block :=
  b.height.next?.map fun height => ⟨height, b.hash, submissions⟩

end Block

end Quorum
