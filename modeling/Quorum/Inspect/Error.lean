import Quorum.Agent.Basic
import Quorum.Inspect.Basic

/-!
# Views of errors

An error is shown by its kind, which names its cause from the outside in, and by its text, which is
empty where the kind says it all.
-/

namespace Quorum

/-- Errors that can be shown. -/
class Fault (ε : Type) where
  kind : ε → String
  text : ε → String

namespace Fault

/-- An error by its kind and its text. -/
def fields (kind text : String) : List (String × Json) :=
  Inspect.field "error" kind :: if text.isEmpty then [] else [Inspect.field "message" text]

/-- An error as an object. -/
def object (kind text : String) : Json := .object (fields kind text)

instance : Fault Wire.DecodeError where
  kind
    | .unexpectedEnd => "UnexpectedEnd"
    | .limitExceeded => "LimitExceeded"
    | .integerWidth => "InvalidIntegerType"
    | .unknownVariant n => "UnexpectedVariant:" ++ toString n
    | .notBool b => "InvalidBooleanValue:" ++ toString b.toNat
    | .notText => "Utf8"
    | .leftover => "Other:leftover bytes"
  text _ := ""

instance : Fault OpenError where
  kind
    | .decode e => "Decode." ++ kind e
    | .signature => "Signature"
  text := OpenError.message

instance : Fault Rejection where
  kind
    | .unopened e => "Open." ++ kind e
    | .wrongType .. => "WrongType"
    | .stale .. => "Stale"
    | .concluded _ => "Concluded"
    | .notKeeper .. => "NotKeeper"
    | .unauthorizedSender _ => "UnauthorizedSender"
  text := Rejection.message

instance : Fault ConfigError where
  kind
    | .noParticipants _ => "NoParticipants"
    | .tooManyParticipants .. => "TooManyParticipants"
    | .unknownTransition .. => "UnknownTransition"
    | .notBackground _ => "NotBackground"
    | .terminalWithEdges _ => "TerminalWithEdges"
    | .duplicateTransition .. => "DuplicateTransition"
  text := ConfigError.message

instance : Fault SnapshotError where
  kind
    | .keyNotFound _ => "KeyNotFound"
    | .valueDecode _ e => "ValueDecode." ++ kind e
  text := SnapshotError.message

instance : Fault FatalError where
  kind
    | .consensusInvariantViolation .. => "ConsensusInvariantViolation"
    | .blockOutOfOrder .. => "BlockOutOfOrder"
    | .snapshot _ e => "SyncData." ++ kind e
    | .unexpectedPayload .. => "UnexpectedPayload"
    | .unexpectedDecision _ => "UnexpectedDecision"
    | .configuration e => "Configuration." ++ kind e
    | .outOfNumbers => "panic"
  text := FatalError.message

instance : Fault GatewayError where
  kind
    | .timeout => "Timeout"
    | .pruned _ => "Pruned"
    | .shutdown => "Shutdown"
  text := GatewayError.message

instance : Fault External.Error where
  kind
    | .timeout => "Timeout"
    | .failed _ => "Failed"
    | .unexpectedResponse _ => "UnexpectedResponse"
  text := External.Error.message

instance : Fault BehaviourError where
  kind
    | .healthcheckTimeout _ => "HealthcheckTimeout"
    | .snapshot e => "SyncData." ++ kind e
  text := BehaviourError.message

instance : Fault AgentError where
  kind
    | .fatal e => "Fatal." ++ kind e
    | .missingBehaviour _ => "MissingBehaviour"
    | .startup e => "Startup." ++ kind e
    | .behaviour _ e => "Behaviour." ++ kind e
    | .gateway e => "Gateway." ++ kind e
  text e := e.failure.line

end Fault

/-- An error as JSON. -/
def viewFault {ε : Type} [Fault ε] (e : ε) : Json := Fault.object (Fault.kind e) (Fault.text e)

instance {ε α : Type} [Fault ε] [Inspect α] : Inspect (Except ε α) where
  view
    | .error e => viewFault e
    | .ok a => view a

end Quorum
