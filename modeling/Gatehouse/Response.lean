import Gatehouse.Failure
import Gatehouse.Json.Codec

/-! Failures over HTTP: status, code and text of an answer. Refusals say what they are;
technical failures say only that there was one. -/
namespace Gatehouse

/-- The body of an answer that tells a failure. -/
structure ErrorBody where
  error : String
  code : Option String
  status : Nat
  deriving DecidableEq, Repr, Inhabited

open Json Json.Codec in
/-- Bodies as JSON; the code is left out where there is none. -/
def ErrorBody.codec : Codec ErrorBody :=
  record default [
    field "error" .required string error fun v b => { b with error := v },
    sparseField "code" string code fun v b => { b with code := v },
    field "status" .required word16 status fun v b => { b with status := v }]

/-- An answer to a request. -/
structure Response where
  status : Nat
  contentType : String
  body : String
  retryAfter : Option Nat := none
  /-- Tokens left under the request's rate limit. -/
  remaining : Option Nat := none
  deriving DecidableEq, Repr, Inhabited

namespace Failure
open Text (showNat)

/-- The body that tells a failure. -/
def body : Failure → ErrorBody
  | accountLocked _ secs =>
    ⟨"Account locked. Try again in " ++ showNat secs ++ " seconds", "ACCOUNT_LOCKED", 423⟩
  | attemptLimitReached attempts maxAttempts _ =>
    ⟨"Too many attempts (" ++ showNat attempts ++ "/" ++ showNat maxAttempts ++ ")",
      "ATTEMPT_LIMIT_REACHED", 429⟩
  | rateLimitExceeded _ => ⟨"Rate limit exceeded", "RATE_LIMIT_EXCEEDED", 429⟩
  | staleContext .. => ⟨"Authentication flow state is not yet available", "STALE_CONTEXT", 409⟩
  | passwordInHistory size =>
    ⟨"Password must be different than the last " ++ showNat size ++ " passwords",
      "PASSWORD_IN_HISTORY", 422⟩
  | notFound text => ⟨text, "NOT_FOUND", 404⟩
  | timeout _ => ⟨"Operation timed out", "TIMEOUT", 504⟩
  | store e => ⟨"Internal server error", "STORE_" ++ e.kind.name.toUpper, 500⟩
  | _ => ⟨"Internal server error", "INTERNAL_ERROR", 500⟩

/-- The answer that tells a failure. -/
def response (f : Failure) : Response where
  status := f.body.status
  contentType := "application/json"
  body := ErrorBody.codec.toText f.body
  retryAfter := f.retryAfterSecs

end Failure

end Gatehouse
