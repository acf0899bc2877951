import Quorum.Wire.Format

/-!
# Thresholds

Of `n` peers at most a third, rounded down below it, may be faulty. A threshold of peers is more
than two thirds of them, so that two thresholds share more peers than may be faulty.
-/

namespace Quorum

/-- The size of a set of peers, at most 255. -/
structure PeerCount where
  val : UInt8
  deriving DecidableEq

namespace PeerCount

/-- The size of the largest set of peers. -/
def limit : Nat := 255

/-- The count of `n` peers, if it is within the limit. -/
def ofNat? (n : Nat) : Option PeerCount := if n ≤ limit then some ⟨UInt8.ofNat n⟩ else none

/-- The number of peers. -/
def total (n : PeerCount) : Nat := n.val.toNat

/-- The greatest number of faulty peers: less than a third. -/
def maxFaulty (n : PeerCount) : Nat := (n.total - 1) / 3

/-- The number of peers that decide: all but the faulty ones. -/
def threshold (n : PeerCount) : Nat := n.total - n.maxFaulty

instance : Wire.Format PeerCount where
  encode n := [n.val]
  decode := do
    Wire.Decoder.claim 1
    let b ← Wire.Decoder.byte
    pure ⟨b⟩
  footprint := 1

end PeerCount

end Quorum
