import Gatehouse.Settings.Config
import Gatehouse.Store.Error
import Gatehouse.Store.Program

/-! Connecting to the server: a refused connection is tried again, after a time that
doubles with every attempt up to half a minute. -/
namespace Gatehouse.Redis.Connection

/-- What is needed to connect. -/
inductive Request where
  /-- To open a pool of so many connections and try the first. -/
  | attempt (url : String) (connections : Nat)
  /-- To wait so many nanoseconds. -/
  | pause (nanos : Nat)
  deriving DecidableEq, Repr

/-- The answer to a request, where an attempt that succeeds opens a `Pool`. -/
abbrev Request.Answer (Pool : Type) : Request → Type
  | attempt .. => Except Store.Error Pool
  | pause _ => Unit

/-- The longest time between two attempts, in nanoseconds. -/
def maxPause : Nat := 30000000000

/-- How many times longer a pause is after so many doublings: a power of two, up to the last number
of 32 bits. -/
def factor (doublings : Nat) : Nat :=
  if doublings < 32 then Nat.pow 2 doublings else Nat.pow 2 32 - 1

/-- The nanoseconds to wait before a retry, numbered from 1. -/
def pauseBefore (c : RedisConfig) (retry : Nat) : Nat :=
  let doubled := c.retryDelayMs * Duration.nanosPerMilli * factor (retry - 1)
  min (min doubled Duration.longestWait) maxPause

/-- Attempts to connect; `retry` is the number of the next retry, and `left` how many there
may be. -/
def attempts {Pool : Type} (c : RedisConfig) (retry left : Nat) :
    Store.Program Request (Request.Answer Pool) (Except Store.Error Pool) :=
  .ask (.attempt c.url c.maxConnections) fun
    | .ok pool => .done (.ok pool)
    | .error e =>
      match left with
      | 0 => .done (.error e)
      | left + 1 => .ask (.pause (pauseBefore c retry)) fun _ => attempts c (retry + 1) left

/-- Connects, with as many retries as the configuration allows. -/
def connect {Pool : Type} (c : RedisConfig) :
    Store.Program Request (Request.Answer Pool) (Except Store.Error Pool) :=
  attempts c 1 c.maxRetries

/-- What becomes of attempts where nobody listens. -/
def refused : (r : Request) → Id (r.Answer Unit)
  | .attempt .. => .error (.connectionFailed "Failed to get Redis connection: connection refused")
  | .pause _ => ()

end Gatehouse.Redis.Connection
