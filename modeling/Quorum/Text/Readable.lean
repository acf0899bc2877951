import Quorum.Peer.Set
import Quorum.Text.Json
import Quorum.Text.Quoted

/-!
# Values in JSON and in self-describing binary form

* `Readable α` : the JSON form of values and what is wrong with a value that is none;
* keys and hashes are hexadecimal strings, counters are numbers, sets of peers are arrays. As in
  the wire form, a set keeps the order and the repetitions of the array;
* `Octets.encodeSized`, `Octets.decodeSized` : the binary form that carries its length.
-/

namespace Quorum

/-- Why a JSON value is not the form of a value. -/
inductive ReadError where
  /-- The value is of another type. -/
  | wrongType (found : Json) (expected : String)
  /-- The number is out of range. -/
  | wrongValue (found : Json) (expected : String)
  /-- The string is not the hexadecimal form. -/
  | hex (cause : HexError)

/-- A JSON value in an error. -/
def Json.describe : Json → String
  | .null => "null"
  | .bool b => "boolean \x60" ++ (if b then "true" else "false") ++ "\x60"
  | .int n => "integer \x60" ++ toString n ++ "\x60"
  | .float x => "floating point \x60" ++ Decimal.ofFloat x ++ "\x60"
  | .string s => "string " ++ Text.quoteDebug s
  | .array _ => "sequence"
  | .object _ => "map"

/-- The wording of an error. -/
def ReadError.message : ReadError → String
  | wrongType found expected => "invalid type: " ++ found.describe ++ ", expected " ++ expected
  | wrongValue found expected => "invalid value: " ++ found.describe ++ ", expected " ++ expected
  | hex cause => "Deserialization error: " ++ cause.message

/-- The JSON form of the values of a type. -/
class Readable (α : Type) where
  toJson : α → Json
  ofJson : Json → Except ReadError α

instance {role : OctetRole} : Readable (Octets role) where
  toJson o := .string o.toHex
  ofJson
    | .string s => (Octets.parse role s).mapError .hex
    | j => .error (.wrongType j "a string")

instance {role : CounterRole} : Readable (Counter role) where
  toJson c := .int c.toNat
  ofJson
    | .int n => if n < 0 then .error (.wrongValue (.int n) "u64") else .ok (Counter.ofNat n.toNat)
    | j => .error (.wrongType j "u64")

instance : Readable PeerSet where
  toJson s := .array (s.peers.map Readable.toJson)
  ofJson
    | .array items => PeerSet.mk <$> items.mapM Readable.ofJson
    | j => .error (.wrongType j "a sequence")

namespace Octets

variable {role : OctetRole}

/-- The binary form that carries its length. -/
def encodeSized (o : Octets role) : Bytes := Wire.encodeBytes o.bytes

/-- Read the binary form that carries its length off the front of a byte string: the value and the
bytes left, nothing if the length is not that of the role. -/
def decodeSized (role : OctetRole) (bs : Bytes) : Option (Octets role × Bytes) :=
  match Wire.decodeBytes.run ⟨bs, Wire.decodeLimit⟩ with
  | .error _ => none
  | .ok (content, c) => (ofBytes? role content).map (·, c.rest)

end Octets

end Quorum
