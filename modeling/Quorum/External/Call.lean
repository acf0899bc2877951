import Quorum.Data.Octets

/-!
# Calls that reach outside

What a behaviour may ask of the external chain and of the randomness beacon, and what comes back.
-/

namespace Quorum.External

/-- A request to the external chain or to the beacon. -/
inductive Call where
  | read (contract method : String) (args : Bytes)
  | send (contract method : String) (args : Bytes) (signer : SecretKey)
  | receipt (tx : TxHash)
  | randomness
  deriving DecidableEq

/-- The name of a call in messages. -/
def Call.name : Call → String
  | read .. => "read"
  | send .. => "build_and_send"
  | receipt _ => "wait_for_receipt"
  | randomness => "fetch_randomness"

/-- What the chain did with a transaction. -/
structure Receipt where
  tx : TxHash
  success : Bool
  deriving DecidableEq

/-- What the beacon shows. -/
structure Observation where
  round : UInt64
  value : Randomness
  deriving DecidableEq

/-- What a call comes back with. -/
inductive Response where
  | read (bytes : Bytes)
  | sent (tx : TxHash)
  /-- Nothing if there is no receipt yet. -/
  | receipt (r : Option Receipt)
  | randomness (o : Observation)
  deriving DecidableEq

/-- Why a call failed. -/
inductive Error where
  | timeout
  | failed (message : String)
  /-- The response is not one to this request. -/
  | unexpectedResponse (request : String)
  deriving DecidableEq

/-- The wording of an error. -/
def Error.message : Error → String
  | timeout => "External call timed out"
  | failed message => "External call failed: " ++ message
  | unexpectedResponse request => "Unexpected response to " ++ request

/-- What a call comes to. -/
abbrev Result := Except Error Response

namespace Result

/-- The bytes that were read. -/
def asRead : Result → Except Error Bytes
  | .ok (.read bs) => .ok bs
  | .ok _ => .error (.unexpectedResponse "read")
  | .error e => .error e

/-- The transaction that was sent. -/
def asSent : Result → Except Error TxHash
  | .ok (.sent tx) => .ok tx
  | .ok _ => .error (.unexpectedResponse "build_and_send")
  | .error e => .error e

/-- The receipt, if there is one. -/
def asReceipt : Result → Except Error (Option Receipt)
  | .ok (.receipt r) => .ok r
  | .ok _ => .error (.unexpectedResponse "wait_for_receipt")
  | .error e => .error e

/-- What the beacon shows. -/
def asObservation : Result → Except Error Observation
  | .ok (.randomness o) => .ok o
  | .ok _ => .error (.unexpectedResponse "fetch_randomness")
  | .error e => .error e

end Result

end Quorum.External
