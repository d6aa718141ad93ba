/-
Imago/Errors.lean

The error value that the daemon's components hand to each other and to the
wire, with the protocol's closed set of error codes, and the field validators
that every request payload shares.
-/
import Imago.RustStd
import Std.Data.TreeMap

namespace Imago

open Std (TreeMap)

/-- Stable wire-level error codes. -/
inductive ErrorCode
  | unauthorized | badRequest | badManifest | busy | notFound | internal
  | idempotencyConflict | rangeInvalid | chunkHashMismatch | artifactIncomplete
  | preconditionFailed | operationTimeout | rollbackFailed | storageQuota
  deriving DecidableEq, Repr

/-- The internal error carried across the `imagod` components. -/
structure ImagodError where
  code : ErrorCode
  stage : String
  message : String
  retryable : Bool
  details : TreeMap String String

namespace ImagodError

/-- `ImagodError::new`: not retryable, no details. -/
def new (code : ErrorCode) (stage message : String) : ImagodError where
  code := code
  stage := stage
  message := message
  retryable := false
  details := ∅

def withRetryable (e : ImagodError) (retryable : Bool) : ImagodError :=
  { e with retryable := retryable }

def withDetail (e : ImagodError) (key value : String) : ImagodError :=
  { e with details := e.details.insert key value }

end ImagodError

/-- A field-focused validation error of the protocol payloads. -/
structure ValidationError where
  field : String
  message : String
  deriving DecidableEq, Repr

namespace ValidationError

def empty (field : String) : ValidationError := ⟨field, "must not be empty"⟩

def invalid (field message : String) : ValidationError := ⟨field, message⟩

/-- The `Display` text. -/
def display (e : ValidationError) : String := "invalid `" ++ e.field ++ "`: " ++ e.message

end ValidationError

/-- `remote_error` of the manager's remote RPC. -/
def remoteError (code : ErrorCode) (message : String) : ImagodError :=
  .new code "service.control.remote_rpc" message

/-- The stage of the orchestrator's errors. -/
def stageOrchestrate : String := "orchestration"

/-- `bad_request` of the protocol handler. -/
def badRequest (stage message : String) : ImagodError := .new .badRequest stage message

/-! ### Field validators -/

/-- A UUID, as its 128 bits; the nil UUID is zero. -/
abbrev Uuid := BitVec 128

def ensureNonEmpty (value field : String) : Except ValidationError Unit :=
  if isBlank value then .error (.empty field) else .ok ()

/-- The `(value, field)` pairs in order; the first blank one is reported. -/
def ensureRequiredStrings : List (String × String) → Except ValidationError Unit
  | [] => .ok ()
  | (value, field) :: rest => do
      ensureNonEmpty value field
      ensureRequiredStrings rest

def ensurePositiveU64 (value : Nat) (field : String) : Except ValidationError Unit :=
  if value = 0 then .error (.invalid field "must be greater than zero") else .ok ()

def ensureUuidNotNil (value : Uuid) (field : String) : Except ValidationError Unit :=
  if value = 0 then .error (.invalid field "must not be nil UUID") else .ok ()

end Imago
