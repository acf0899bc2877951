import Quorum.Data.Counter
import Quorum.Data.Octets
import Quorum.Data.SortedMap
import Quorum.Text.Json

/-!
# Views of values

`view` shows a value as JSON, for people and tools that look into a running service. Numbers of 64
bits are texts, as readers of JSON may lose digits of them; byte strings are hexadecimal.
-/

namespace Quorum

/-- Values that can be shown. -/
class Inspect (α : Type) where
  view : α → Json

export Inspect (view)

namespace Inspect

/-- A field of an object. -/
def field {α : Type} [Inspect α] (name : String) (a : α) : String × Json := (name, view a)

instance : Inspect Json := ⟨id⟩
instance : Inspect String := ⟨.string⟩
instance : Inspect Bool := ⟨.bool⟩
instance : Inspect Nat := ⟨fun n => .int n⟩
instance : Inspect UInt64 := ⟨fun n => .string (toString n.toNat)⟩
instance : Inspect Bytes := ⟨fun bs => .string (Hex.encode bs)⟩
instance {role : CounterRole} : Inspect (Counter role) := ⟨fun c => view c.val⟩
instance {role : OctetRole} : Inspect (Octets role) := ⟨fun b => .string b.toHex⟩

instance {α : Type} [Inspect α] : Inspect (Option α) := ⟨fun a => a.elim .null view⟩

instance {α : Type} [Inspect α] : Inspect (List α) := ⟨fun as => .array (as.map view)⟩

instance {α β : Type} [Inspect α] [Inspect β] : Inspect (α × β) :=
  ⟨fun p => .array [view p.1, view p.2]⟩

instance {κ ν : Type} [Ord κ] [Inspect κ] [Inspect ν] : Inspect (SortedMap κ ν) :=
  ⟨fun m => view m.entries⟩

end Inspect

end Quorum
