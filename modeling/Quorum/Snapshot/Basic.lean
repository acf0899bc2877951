import Quorum.Wire.Format

/-!
# Snapshots of the agreed data

* `Snapshot` : a version and the wire forms of values under text keys;
* `Snapshot.read?`, `Snapshot.read`, `Snapshot.readOr` : the value under a key, which must be the
  wire form of one value of the type and nothing else;
* `Update` : keys to set and to remove, the last mention of a key wins;
* `Snapshot.update?` : the snapshot with the next version and the changes made.
-/

namespace Quorum

/-- The agreed data at a version. -/
structure Snapshot where
  version : Version
  db : SortedMap String Bytes
  deriving DecidableEq

/-- Why a value cannot be read. -/
inductive SnapshotError where
  /-- Nothing was written under the key. -/
  | keyNotFound (key : String)
  /-- What was written under the key is no value of the type. -/
  | valueDecode (key : String) (cause : Wire.DecodeError)
  deriving DecidableEq

/-- The wording of an error. -/
def SnapshotError.message : SnapshotError → String
  | keyNotFound key => "Key not found: " ++ key
  | valueDecode key _ => "Value of " ++ key ++ " does not decode"

/-- Changes to apply in order: a key and its new value, nothing to remove it. -/
abbrev Update := List (String × Option Bytes)

namespace Update

/-- Set a key to a value. -/
def set {α : Type} [Wire.Format α] (key : String) (value : α) : String × Option Bytes :=
  (key, some (Wire.encode value))

/-- Remove a key. -/
def remove (key : String) : String × Option Bytes := (key, none)

/-- Apply the changes to the values under keys. -/
def apply (u : Update) (db : SortedMap String Bytes) : SortedMap String Bytes :=
  u.foldl (fun db delta =>
    match delta.2 with
    | some value => db.insert delta.1 value
    | none => db.erase delta.1) db

end Update

namespace Snapshot

/-- The snapshot before anything was agreed on. -/
def empty : Snapshot := ⟨Counter.zero, SortedMap.empty⟩

instance : Inhabited Snapshot := ⟨empty⟩

/-- The number of keys. -/
def size (s : Snapshot) : Nat := s.db.size

/-- The value under a key, nothing if the key was never written. -/
def read? (α : Type) [Wire.Format α] (s : Snapshot) (key : String) :
    Except SnapshotError (Option α) :=
  match s.db.get? key with
  | none => .ok none
  | some bs =>
    match Wire.decodeWhole α bs with
    | .ok a => .ok (some a)
    | .error e => .error (.valueDecode key e)

/-- The value under a key that must have been written. -/
def read (α : Type) [Wire.Format α] (s : Snapshot) (key : String) : Except SnapshotError α :=
  match s.read? α key with
  | .ok (some a) => .ok a
  | .ok none => .error (.keyNotFound key)
  | .error e => .error e

/-- The value under a key, a default if the key was never written. -/
def readOr {α : Type} [Wire.Format α] (s : Snapshot) (key : String) (default : α) :
    Except SnapshotError α :=
  (s.read? α key).map (·.getD default)

/-- The snapshot with the next version and the changes made, unless this version is the last. -/
def update? (s : Snapshot) (u : Update) : Option Snapshot :=
  s.version.next?.map fun version => ⟨version, u.apply s.db⟩

/-- The same data under the next version. -/
def carryOver? (s : Snapshot) : Option Snapshot :=
  s.version.next?.map fun version => ⟨version, s.db⟩

instance : Wire.Format Snapshot where
  encode s := Wire.encode s.version ++ Wire.encode s.db
  decode := do
    let version ← Wire.Format.decode
    let db ← Wire.Format.decode
    pure ⟨version, db⟩
  footprint := 16

/-! ## Versions -/

/-- An update with no changes only moves on to the next version. -/
theorem update?_nil (s : Snapshot) : s.update? [] = s.carryOver? := rfl

theorem version_update? {s t : Snapshot} {u : Update} (h : s.update? u = some t) :
    t.version.toNat = s.version.toNat + 1 := by
  obtain ⟨v, hv, rfl⟩ := Option.map_eq_some_iff.1 h
  exact Counter.next?_eq_some.1 hv

end Snapshot

end Quorum
