import Gatehouse.Json.Fault
import Gatehouse.Store.Error
import Gatehouse.Time.Timestamp

/-! Failures: why a guard refuses or cannot answer.

Refusals (a lock, a limit, a password used before) are told apart from technical
failures, which keep their cause. -/
namespace Gatehouse

/-- Why a configuration cannot be loaded. -/
inductive LoadProblem where
  /-- A source cannot be read. -/
  | unreadable (text : String)
  /-- What the sources say together is not a configuration: how, and where. -/
  | mismatch (kind : Json.Mismatch) (path : List String)
  deriving DecidableEq, Repr, Inhabited

/-- Why an operation did not succeed. -/
inductive Failure where
  | configuration (problem : LoadProblem)
  | invalidConfiguration (text : String)
  | accountLocked (unlockAt : Instant) (retryAfterSecs : Nat)
  | attemptLimitReached (attempts maxAttempts retryAfterSecs : Nat)
  | rateLimitExceeded (retryAfterSecs : Nat)
  /-- A flow's context never reached the version expected. -/
  | staleContext (transaction : String) (expected found : Nat)
  | passwordInHistory (size : Nat)
  | notFound (text : String)
  | timeout (text : String)
  | store (error : Store.Error)
  | credential (text source : String)
  | internal (text : String)
  deriving DecidableEq, Repr, Inhabited

namespace Failure
open Text (showNat)

/-- What a mismatch is called. -/
def mismatchWords : Json.Mismatch → String
  | .invalidType => "invalid type"
  | .invalidValue => "invalid value"
  | .invalidLength => "invalid length"
  | .unknownVariant => "unknown variant"
  | .missingField => "missing field"
  | .duplicateField => "duplicate field"

/-- A problem of loading in words. -/
def problemWords : LoadProblem → String
  | .unreadable text => text
  | .mismatch kind path =>
    if path.isEmpty then mismatchWords kind
    else mismatchWords kind ++ " for key " ++ ".".intercalate path

/-- A failure in words. -/
def message : Failure → String
  | configuration problem => "Configuration error: " ++ problemWords problem
  | invalidConfiguration text => "Invalid configuration: " ++ text
  | accountLocked unlockAt _ => "Account locked until " ++ unlockAt.toSentence
  | attemptLimitReached attempts maxAttempts _ =>
    "Attempt limit reached (" ++ showNat attempts ++ "/" ++ showNat maxAttempts ++ ")"
  | rateLimitExceeded _ => "Rate limit exceeded"
  | staleContext transaction expected found =>
    "Stale context for transaction " ++ transaction ++ ": expected version " ++ showNat expected
      ++ ", found " ++ showNat found
  | passwordInHistory size =>
    "Password already used in the last " ++ showNat size ++ " passwords"
  | notFound text => "Not found: " ++ text
  | timeout text => "Timed out: " ++ text
  | store error => error.message
  | credential text _ => "Credential error: " ++ text
  | internal text => "Internal error: " ++ text

/-- Whether a failure is a refusal and no technical failure. -/
def isDenial : Failure → Bool
  | accountLocked .. => true
  | attemptLimitReached .. => true
  | rateLimitExceeded _ => true
  | passwordInHistory _ => true
  | _ => false

/-- Seconds to wait before trying again, where that helps. -/
def retryAfterSecs : Failure → Option Nat
  | accountLocked _ secs => some secs
  | attemptLimitReached _ _ secs => some secs
  | rateLimitExceeded secs => some secs
  | _ => none

/-- A failed store call: calls that took too long are timeouts. -/
def ofStore (e : Store.Error) : Failure :=
  if e.kind = .timeout then timeout e.message else store e

/-- A deadline that passed. -/
def elapsed : Failure := timeout "deadline has elapsed"

/-- A task that was cancelled. -/
def cancelled (task : String) : Failure :=
  timeout ("Task cancelled: task " ++ task ++ " was cancelled")

/-- A task that broke down with a message. -/
def brokeDown (task text : String) : Failure :=
  internal ("Task failed: task " ++ task ++ " panicked with message \"" ++ text ++ "\"")

end Failure

end Gatehouse
