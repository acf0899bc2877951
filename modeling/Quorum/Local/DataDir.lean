import Quorum.Checkpoint.Store
import Quorum.Text.Blank
import Quorum.Text.Failure

/-!
# The data directory of a local run

It holds the secret keys of the peers, a line each, and a checkpoint store for each peer.

* `DataDir.keys?` : the secret keys, if there are any yet;
* `DataDir.store` : the store of a peer;
* `DataDir.restorePoint?` : where all peers can resume together.
-/

namespace Quorum

/-- What a data directory holds. -/
structure DataDir where
  /-- The text with the secret keys. -/
  secrets : Option String := none
  stores : List CheckpointStore := []
  deriving DecidableEq

namespace DataDir

/-- The text with the secret keys of peers. -/
def textOf (keys : List SecretKey) : String := "".intercalate (keys.map fun k => k.toHex ++ "\n")

/-- The secret keys that a text holds, a line each; blank lines do not count. -/
def keysOf (text : String) : Except Failure (List SecretKey) :=
  ((Text.filledLines text).mapM (Octets.parse .secretKey)).mapError fun e =>
    ⟨"Invalid secret", [e.message]⟩

/-- The secret keys of a number of peers: those of the directory, or fresh ones if it has none. -/
def keys (dir : Option DataDir) (peers : Nat) (fresh : List SecretKey) :
    Except Failure (List SecretKey) := do
  match dir.bind (·.secrets) with
  | none => pure (fresh.take peers)
  | some text =>
    let keys ← keysOf text
    if keys.length = peers then pure keys
    else throw ⟨"Data dir has " ++ toString keys.length ++ " peers, but " ++ toString peers ++
      " were requested", []⟩

/-- The store of the peer at a position. -/
def store (dir : DataDir) (i : Nat) : CheckpointStore :=
  (dir.stores[i]?).getD (CheckpointStore.empty false)

/-- Where a number of peers resume: what the first of them has at the greatest version that every one
of them has. -/
def restorePoint? (dir : DataDir) (peers : Nat) : Option Checkpoint :=
  CheckpointStore.common? ((List.range peers).map dir.store)

end DataDir

end Quorum
