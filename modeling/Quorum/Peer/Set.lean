import Quorum.Peer.Count

/-!
# Sets of peers

* `PeerSet` : peers in increasing order, so that equal sets have equal wire forms. A set read from
  its wire form keeps the order and the repetitions of the bytes;
* `contains` : binary search, as every operation assumes the order;
* `insert`, `remove`, `ofList` : keep the order and say whether they changed anything;
* `threshold?` : how many peers of the set decide.
-/

namespace Quorum

/-- Peers in the order in which they are written. -/
structure PeerSet where
  peers : List PublicKey
  deriving DecidableEq, Inhabited

namespace PeerSet

/-- The set without peers. -/
def empty : PeerSet := ⟨[]⟩

/-- The order of the members. -/
def inOrder (p q : PublicKey) : Bool := (compare p q).isLE

/-- Bisect at most `fuel` times: keep the half that starts with the middle peer if that peer is not
past `p`. -/
def locateIn (p : PublicKey) : Nat → List PublicKey → Option Nat
  | 0, _ => none
  | _ + 1, [] => none
  | _ + 1, [q] => if q = p then some 0 else none
  | fuel + 1, ps =>
    let half := ps.length / 2
    match (ps.drop half).head? with
    | none => none
    | some q =>
      if compare q p = .gt then locateIn p fuel (ps.take (ps.length - half))
      else (locateIn p fuel (ps.drop half)).map (half + ·)

/-- The position of a peer by binary search. -/
def locate (s : PeerSet) (p : PublicKey) : Option Nat := locateIn p (s.peers.length + 1) s.peers

/-- Whether a peer is found in the set. -/
def contains (s : PeerSet) (p : PublicKey) : Bool := (s.locate p).isSome

/-- Add a peer; whether it was absent. -/
def insert (s : PeerSet) (p : PublicKey) : PeerSet × Bool :=
  if s.contains p then (s, false) else (⟨(p :: s.peers).mergeSort inOrder⟩, true)

/-- Remove a peer; whether it was present. -/
def remove (s : PeerSet) (p : PublicKey) : PeerSet × Bool :=
  match s.locate p with
  | some i => (⟨s.peers.eraseIdx i⟩, true)
  | none => (s, false)

/-- Drop each peer that equals the one before it. -/
def dropRepeats : List PublicKey → List PublicKey
  | [] => []
  | [p] => [p]
  | p :: q :: ps => if p = q then dropRepeats (q :: ps) else p :: dropRepeats (q :: ps)

/-- The set of the peers of a list. -/
def ofList (ps : List PublicKey) : PeerSet := ⟨dropRepeats (ps.mergeSort inOrder)⟩

/-- The number of peers. -/
def size (s : PeerSet) : Nat := s.peers.length

/-- The number of peers, if it is within the limit. -/
def count? (s : PeerSet) : Option PeerCount := PeerCount.ofNat? s.size

/-- The number of agreeing peers that decide, if the set is within the limit. -/
def threshold? (s : PeerSet) : Option Nat := s.count?.map PeerCount.threshold

instance : Wire.Format PeerSet where
  encode s := Wire.encodeList s.peers
  decode := PeerSet.mk <$> Wire.decodeList PublicKey
  footprint := 24

end PeerSet

end Quorum
