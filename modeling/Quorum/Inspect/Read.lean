import Quorum.Inspect.Agent

/-!
# Values from what is shown

`read` takes a value back from the JSON that `view` makes of it, and from shorter ways to write it:
a number need not be a text, a byte string of one repeated byte may be this byte, and a field that
is null may be left out.

* `Json.given?`, `Json.arg`, `Json.argD` : the fields of an object;
* `Read` : values that can be read.
-/

namespace Quorum

/-- Values that can be read; nothing if the JSON is no such value. -/
class Read (α : Type) where
  read : Json → Option α

export Read (read)

namespace Json

/-- The value of a field that is there and not null. -/
def given? (j : Json) (k : String) : Option Json :=
  match j.field? k with
  | some .null => none
  | r => r

/-- A field, null if it is not there. -/
def arg {α : Type} [Read α] (j : Json) (k : String) : Option α := read ((j.given? k).getD .null)

/-- A field, or a default if it is not there. -/
def argD {α : Type} [Read α] (j : Json) (k : String) (d : α) : Option α :=
  ((j.given? k).map read).getD (some d)

end Json

namespace Inspect

open Json External

instance : Read Json := ⟨some⟩

instance {α : Type} [Read α] : Read (Option α) where
  read
    | .null => some none
    | j => (read j).map some

instance {α : Type} [Read α] : Read (List α) where
  read
    | .array js => js.mapM read
    | .null => some []
    | _ => none

instance {α β : Type} [Read α] [Read β] : Read (α × β) where
  read
    | .array [a, b] => do some (← read a, ← read b)
    | _ => none

instance : Read String where
  read
    | .string s => some s
    | _ => none

instance : Read Nat where
  read
    | .int n => if n < 0 then none else some n.toNat
    | .string s => s.toNat?
    | _ => none

instance : Read UInt64 := ⟨fun j => (read j).map UInt64.ofNat⟩

instance : Read Bool where
  read
    | .bool b => some b
    | .int n => some (n != 0)
    | _ => none

instance {role : CounterRole} : Read (Counter role) := ⟨fun j => (read j).map Counter.ofNat⟩

instance : Read Bytes := ⟨fun j => do (Hex.decode (Bytes.ofString (← read j))).toOption⟩

/-- One byte repeated, or all bytes. -/
def readOctets (role : OctetRole) : Json → Option (Octets role)
  | .int n => some (Octets.fill (UInt8.ofNat n.toNat))
  | .string s => (Octets.parse role s).toOption
  | _ => none

instance : Read Signature := ⟨readOctets _⟩
instance : Read BlockHash := ⟨readOctets _⟩
instance : Read TxHash := ⟨readOctets _⟩
instance : Read Randomness := ⟨readOctets _⟩
instance : Read Digest := ⟨readOctets _⟩

/-- The secret key with a small number. -/
def secretKeyOfNat (n : Nat) : Option SecretKey :=
  Octets.ofBytes? .secretKey (List.replicate 28 0 ++ Bytes.ofNatBE 4 n)

instance : Read SecretKey where
  read
    | .int n => secretKeyOfNat n.toNat
    | j => readOctets _ j

/-- The public key of the secret key with a small number. -/
def publicKeyOfNat (n : Nat) : Option PublicKey := (secretKeyOfNat n).map SecretKey.publicKey

/-- A public key that no one has, by a small number. -/
def rawPublicKey (n : Nat) : Option PublicKey :=
  Octets.ofBytes? .publicKey (Bytes.ofNatBE 2 n ++ List.replicate 30 0)

instance : Read PublicKey where
  read j :=
    match j, j.given? "fill", j.given? "raw" with
    | .int n, _, _ => publicKeyOfNat n.toNat
    | _, some b, _ => readOctets _ b
    | _, _, some n => do rawPublicKey (← read n)
    | _, _, _ => readOctets _ j

/-- The numbers from the first of a pair to before the second. -/
def readSpan (r : Json) : Option (List Nat) := do
  let (a, b) : Nat × Nat ← read r
  some ((List.range (b - a)).map (· + a))

instance : Read PeerSet where
  read j := do
    match j.given? "keys", j.given? "raw" with
    | some r, _ => some (PeerSet.ofList (← (← readSpan r).mapM publicKeyOfNat))
    | _, some r => some (PeerSet.ofList (← (← readSpan r).mapM rawPublicKey))
    | _, _ => some (PeerSet.ofList (← read j))

instance : Read RoundKind := ⟨fun j => do
  let s : String ← read j
  RoundKind.all.find? (·.name == s)⟩

instance : Read Event := ⟨fun j => do
  let s : String ← read j
  Event.all.find? (·.name == s)⟩

instance : Read BehaviourKind := ⟨fun j => do
  let s : String ← read j
  BehaviourKind.all.find? (·.name == s)⟩

instance : Read Vote where
  read j := do
    match ← (j.arg "t" : Option String) with
    | "registration" => some .registration
    | "randomness" => some (.randomness (← j.arg "round") (← j.arg "value"))
    | "select_keeper" => some (.selectKeeper (← j.arg "keeper"))
    | "signature" => some (.signature (← j.arg "sig"))
    | "finalization" => some (.finalization (← j.arg "tx"))
    | "validate" => some (.validate (← j.arg "ok"))
    | "termination" => some (.termination (← j.arg "tx"))
    | _ => none

/-- A payload of the round with a count, or of another one. -/
def readPayload (rc : RoundCount) (j : Json) : Option Payload := do
  some ⟨← j.arg "from", ← j.argD "rc" rc, ← j.arg "data"⟩

/-- A submission by its bytes or its payload, signed by the sender unless someone else or a signature
is given. -/
def readSubmission (rc : RoundCount) (j : Json) : Option Submission := do
  let raw ← j.argD "bytes" ((readPayload rc j).elim [] Wire.encode)
  let raw := raw ++ (← j.argD "append" ([] : Bytes))
  match ← j.arg "sig" with
  | some s => some ⟨raw, s⟩
  | none => do
    let signer ← (j.given? "by").or (j.given? "from")
    some (Submission.sign raw (← read signer))

/-- Submissions; one can stand for those of many senders. -/
def readSubmissions (rc : RoundCount) (js : List Json) : Option (List Submission) := do
  let parts ← js.mapM fun j =>
    match j.given? "all", j with
    | some r, .object fs => do
      (← readSpan r).mapM fun (i : Nat) => readSubmission rc (.object (fs ++ [("from", .int i)]))
    | _, _ => do some [← readSubmission rc j]
  some parts.flatten

/-- What becomes of one key. -/
def readDelta (j : Json) : Option (String × Option Bytes) := do
  if let some k := j.given? "rm" then return Update.remove (← read k)
  let k ← j.arg "k"
  if let some v := j.given? "u64" then return Update.set k (← read v : UInt64)
  if let some v := j.given? "bool" then return Update.set k (← read v : Bool)
  if let some v := j.given? "b32" then return Update.set k (← read v : Digest)
  if let some v := j.given? "peer" then return Update.set k (← read v : PublicKey)
  if let some v := j.given? "peers" then return Update.set k (← read v : PeerSet)
  if let some v := j.given? "sigs" then
    return Update.set k (SortedMap.ofList (← read v : List (PublicKey × Signature)))
  if let some v := j.given? "str" then return Update.set k (← read v : String)
  return (k, some (← j.arg "hex"))

/-- What becomes of the keys of a snapshot. -/
def readUpdate (j : Json) : Option Update := do (← read j : List Json).mapM readDelta

/-- The empty snapshot after an update, or with another version. -/
instance : Read Snapshot where
  read j := do
    let u ← readUpdate ((j.given? "data").getD .null)
    let s ← if u.isEmpty then some Snapshot.empty else Snapshot.empty.update? u
    some { s with version := ← j.argD "version" s.version }

/-- A checkpoint with the fields of its snapshot among its own. -/
instance : Read Checkpoint where
  read j := do
    some ⟨← read j, ← j.arg "round", ← j.arg "previous", ← j.argD "rc" Counter.zero,
      ← j.argD "height" Counter.zero⟩

instance : Read Status where
  read j := do
    match ← (j.arg "state" : Option String) with
    | "ready" => some .ready
    | "running" => some .running
    | "done" => some .done
    | "timer" => some (.suspended .timer)
    | "round_end" => some (.suspended .roundEnd)
    | "condition" => some (.suspended .condition)
    | "message" => some (.suspended (.message (← j.arg "nonce")))
    | _ => none

instance : Read Result where
  read j := do
    match ← (j.arg "is" : Option String) with
    | "read" => some (.ok (.read (← j.arg "bytes")))
    | "sent" => some (.ok (.sent (← j.arg "tx")))
    | "receipt" =>
      let tx : Option TxHash ← j.arg "tx"
      let success ← j.argD "success" true
      some (.ok (.receipt (tx.map (⟨·, success⟩))))
    | "randomness" => some (.ok (.randomness ⟨← j.arg "round", ← j.arg "value"⟩))
    | "timeout" => some (.error .timeout)
    | "failed" => some (.error (.failed (← j.arg "message")))
    | _ => none

/-- A call by its name; the signer and the arguments may be left out. -/
def readCall (j : Json) (name : String) (signer : SecretKey) (args : Bytes) : Option Call := do
  match name with
  | "read" => some (.read (← j.arg "contract") (← j.arg "method") (← j.argD "args" []))
  | "receipt" => some (.receipt (← j.arg "tx"))
  | "randomness" => some .randomness
  | _ => some (.send (← j.arg "contract") (← j.arg "method") (← j.argD "args" args)
      (← j.argD "signer" signer))

instance : Read Call := ⟨fun j => do readCall j (← j.arg "call") Octets.zero []⟩

instance : Read BehaviourParams where
  read j := do
    let d := BehaviourParams.standard
    let p : BehaviourParams := {
      d with
      sleep := ← j.argD "sleep" d.sleep
      submitTimeout := ← j.argD "submit_timeout" d.submitTimeout
      inclusionTimeout := ← j.argD "inclusion_timeout" d.inclusionTimeout
      requestTimeout := ← j.argD "request_timeout" d.requestTimeout
      healthcheckTimeout := ← j.argD "healthcheck_timeout" d.healthcheckTimeout
      maxBackoff := ← j.argD "max_backoff" d.maxBackoff }
    some (p.withAttempts (← j.argD "retry_attempts" d.retryAttempts)
      (← j.argD "submit_attempts" d.submitAttempts))

instance : Read AppParams where
  read j := do
    some ⟨← j.arg "participants", ← j.argD "round_timeout" 30, ← j.argD "history_len" 64⟩

end Inspect

end Quorum
