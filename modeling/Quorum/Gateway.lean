import Quorum.Payload.Block

/-!
# The gateway to the chain of blocks

Peers hand their submissions to a gateway and take the committed blocks from it.

* `Gateway.submit`, `Gateway.produce?` : every acknowledged submission is in exactly one block, in
  the order of the submissions;
* `Gateway.block?` : a committed block by height; only the newest blocks are kept;
* `Gateway.status` : how far the chain is.
-/

namespace Quorum

/-- Why a gateway does not answer as asked. -/
inductive GatewayError where
  | timeout
  /-- The block is too old. -/
  | pruned (height : Height)
  | shutdown
  deriving DecidableEq

/-- The wording of an error. -/
def GatewayError.message : GatewayError → String
  | timeout => "Gateway did not respond in time"
  | pruned height => "Block " ++ toString height ++ " is no longer available"
  | shutdown => "Gateway was shut down"

/-- How far the chain is. -/
structure GatewayStatus where
  /-- The height of the last committed block. -/
  height : Height
  /-- The engine still catches up with the others. -/
  syncing : Bool
  deriving DecidableEq

/-- The blocks of a chain and what waits for the next one. -/
structure Gateway where
  /-- Acknowledged submissions that are in no block yet, in order. -/
  pending : List Submission := []
  /-- The newest blocks, the last one first. -/
  blocks : List Block := []
  /-- The height before the first block. -/
  startHeight : Height
  /-- The height of the last block. -/
  height : Height
  syncing : Bool := false
  /-- The number of submissions that go unanswered from now on. -/
  failNext : Nat := 0
  deriving DecidableEq

namespace Gateway

/-- The number of blocks that are kept. -/
def maxKept : Nat := 1024

/-- A gateway that goes on after the block at a height. -/
def start (height : Height) : Gateway := { startHeight := height, height }

/-- Take a submission; the height of the last block acknowledges it. -/
def submit (g : Gateway) (s : Submission) : Gateway × Except GatewayError Height :=
  match g.failNext with
  | n + 1 => ({ g with failNext := n }, .error .timeout)
  | 0 => ({ g with pending := g.pending ++ [s] }, .ok g.height)

/-- How far the chain is. -/
def status (g : Gateway) : GatewayStatus := ⟨g.height, g.syncing⟩

/-- The next block, unless the last one has the greatest height: it holds all that is pending. -/
def nextBlock? (g : Gateway) : Option Block :=
  match g.blocks with
  | last :: _ => last.next? g.pending
  | [] => g.startHeight.next?.map fun height => ⟨height, Octets.zero, g.pending⟩

/-- Commit all that is pending as the next block. -/
def produce? (g : Gateway) : Option (Gateway × Block) :=
  g.nextBlock?.map fun b =>
    ({ g with pending := [], blocks := (b :: g.blocks).take maxKept, height := b.height }, b)

/-- The block at a height, nothing if it is not committed yet. It is found by its distance from the
oldest one that is kept. -/
def block? (g : Gateway) (height : Height) : Except GatewayError (Option Block) :=
  match g.blocks.getLast? with
  | none => if height ≤ g.startHeight then .error (.pruned height) else .ok none
  | some oldest =>
    if height < oldest.height then .error (.pruned height)
    else .ok g.blocks.reverse[(height.distance oldest.height).toNat]?

end Gateway

end Quorum
