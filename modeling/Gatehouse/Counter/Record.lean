import Gatehouse.Counter.Key
import Gatehouse.Time.Instant

/-! What is stored of a counter, and what is decided from it. -/
namespace Gatehouse.Counter

/-- The largest count of attempts. -/
def maxAttempts : Nat := 4294967295

/-- The state of one counter. -/
structure Record where
  key : Key
  /-- Attempts counted in the present window. -/
  attempts : Nat
  /-- Events that a rate limit still allows; `-1` once one was refused. -/
  tokensLeft : Int
  /-- Whether the counter lets its subject through. -/
  allowRequest : Bool
  /-- When the window began, or when the last token came back. -/
  windowStart : Instant
  createdAt : Instant
  updatedAt : Instant
  /-- When the window or the lock is over. -/
  expireAt : Instant
  deriving DecidableEq, Repr, Inhabited

namespace Record

/-- The record of a counter before its first event. -/
def fresh (key : Key) (now : Instant) : Record where
  key := key
  attempts := 0
  tokensLeft := 0
  allowRequest := true
  windowStart := now
  createdAt := now
  updatedAt := now
  expireAt := now

/-- Whether the record's time is over. -/
def isExpired (r : Record) (now : Instant) : Bool := decide (r.expireAt ≤ now)

/-- The end of the lock of a record that lets nobody through. -/
def lockedUntil (r : Record) : Option Instant := if r.allowRequest then none else some r.expireAt

end Record

/-- What is decided about a request. -/
structure Decision where
  allowed : Bool
  /-- Attempts counted in the live window. -/
  attempts : Nat
  /-- The threshold, or the rate limit. -/
  maxAttempts : Nat
  /-- Events that a rate limit still allows. -/
  tokensLeft : Option Int
  /-- Seconds until a refused request may be tried again. -/
  retryAfterSecs : Nat
  /-- The live record, if there is one. -/
  record : Option Record
  deriving DecidableEq, Repr, Inhabited

namespace Decision

/-- The decision where nothing has been counted. -/
def fresh (maxAttempts : Nat) : Decision := ⟨true, 0, maxAttempts, none, 0, none⟩

/-- The decision where no limit applies. -/
def unrestricted : Decision := fresh 0

/-- The decision under a limit that makes no sense. -/
def misconfigured : Decision := { fresh 0 with allowed := false }

end Decision

/-- Whole seconds until a deadline, rounded up so that nobody comes back too early. -/
def secondsUntil (deadline now : Instant) : Nat :=
  let millis := (deadline.since now).millis
  if millis ≤ 0 then 0 else ((millis + 999) / 1000).toNat

end Gatehouse.Counter
