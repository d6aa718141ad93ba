/-
Imago/IpcAuth.lean

What the manager and its runners prove to each other: the manager-auth proof,
which a runner computes from its start secret and its own id, and the
invocation token, by which the manager vouches for a caller.

Hex, HMAC-SHA-256, CBOR and base64 come from third-party crates and are
parameters (`Crypto`).  The results that use them need nothing of them.
-/
import Imago.Errors

namespace Imago

/-- A binding rule: the service may invoke interface `wit` of service `name`. -/
structure ServiceBinding where
  name : String
  wit : String
  deriving DecidableEq, Repr

/-- The claims inside an invocation token. -/
structure InvocationTokenClaims where
  sourceService : String
  targetService : String
  wit : String
  exp : Nat
  nonce : String
  deriving DecidableEq, Repr

structure SignedInvocationToken where
  claims : InvocationTokenClaims
  signature : String
  deriving DecidableEq, Repr

/-- The third-party functions.  Encoding these records to CBOR does not fail,
and HMAC takes a key of any length. -/
structure Crypto where
  /-- `hex::decode`, with the text of its error -/
  hexDecode : String → Except String (List UInt8)
  hexEncode : List UInt8 → String
  /-- HMAC-SHA-256 of a payload under a key -/
  hmac : List UInt8 → List UInt8 → List UInt8
  claimsCbor : InvocationTokenClaims → List UInt8
  tokenCbor : SignedInvocationToken → List UInt8
  /-- URL-safe base64 without padding -/
  base64 : List UInt8 → String

def stageIpc : String := "ipc"

def stageToken : String := "ipc.token"

def decodeSecretHex (c : Crypto) (secretHex : String) : Except ImagodError (List UInt8) :=
  match c.hexDecode secretHex with
  | .ok secret => .ok secret
  | .error e => .error (.new .internal stageToken ("secret decode failed: " ++ e))

def verifyHmacSignatureHex (c : Crypto) (secret payload : List UInt8)
    (signatureHex stage decodeErrorMessage mismatchMessage : String) : Except ImagodError Unit :=
  match c.hexDecode signatureHex with
  | .error e => .error (.new .unauthorized stage (decodeErrorMessage ++ ": " ++ e))
  | .ok provided =>
    if c.hmac secret payload = provided then .ok ()
    else .error (.new .unauthorized stage mismatchMessage)

/-- `verify_manager_auth_proof`. -/
def verifyManagerAuthProof (c : Crypto) (secretHex runnerId proofHex : String) :
    Except ImagodError Unit := do
  let secret ← decodeSecretHex c secretHex
  verifyHmacSignatureHex c secret runnerId.toUTF8.data.toList proofHex stageIpc
    "manager auth proof decode failed" "manager auth proof mismatch"

def InvocationTokenClaims.validate (claims : InvocationTokenClaims) :
    Except ValidationError Unit := do
  ensureRequiredStrings
    [(claims.sourceService, "source_service"), (claims.targetService, "target_service"),
      (claims.wit, "wit"), (claims.nonce, "nonce")]
  if claims.exp = 0 then .error (.invalid "exp" "must be greater than zero") else .ok ()

/-- `issue_invocation_token`: the claims, signed under the secret. -/
def issueInvocationToken (c : Crypto) (secretHex : String) (claims : InvocationTokenClaims) :
    Except ImagodError String :=
  match claims.validate with
  | .error e => .error (.new .internal stageToken e.display)
  | .ok _ => do
      let secret ← decodeSecretHex c secretHex
      let signature := c.hexEncode (c.hmac secret (c.claimsCbor claims))
      return c.base64 (c.tokenCbor ⟨claims, signature⟩)

end Imago
