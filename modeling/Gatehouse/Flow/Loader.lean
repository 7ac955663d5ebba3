import Gatehouse.Failure
import Gatehouse.Flow.Store
import Gatehouse.Settings.Guard

/-! The loader of contexts.

A step of a flow may be served by a replica that has not seen the version which the
step before it wrote. The loader does not hand out a version below the one expected: it
waits and reads again, a little longer each time, and gives up after a number of
retries. A context that was never written is handed out as it is. -/
namespace Gatehouse.Flow.Loader

/-- The nanoseconds to wait before a retry, numbered from 1. -/
def pauseBefore (s : ConsistencySettings) (retry : Nat) : Nat :=
  min (s.retryIntervalMs * Duration.nanosPerMilli * retry) Duration.longestWait

/-- Whether a context is what the caller expects: never written, or recent enough. -/
def isCurrent (c : Context) (expected : Nat) : Bool := c.isFresh || expected ≤ c.version

/-- Reads a transaction until it is current; `retry` is the number of the next retry, and
`left` how many there may be. -/
def reads (s : ConsistencySettings) (transaction : String) (expected : Nat) (now : Instant)
    (retry left : Nat) : Calls (Except Failure Context) :=
  .ask (.findLast transaction) fun
    | .error e => .done (.error (.ofStore e))
    | .ok found =>
      let c := found.getD (.fresh transaction now)
      if isCurrent c expected then .done (.ok c)
      else
        match left with
        | 0 => .done (.error (.staleContext transaction expected c.version))
        | left + 1 =>
          .ask (.pause (pauseBefore s retry)) fun _ =>
            reads s transaction expected now (retry + 1) left

/-- Loads the context of a transaction, at least of the version expected. -/
def load (s : ConsistencySettings) (transaction : String) (expected : Nat) (now : Instant) :
    Calls (Except Failure Context) :=
  reads s transaction expected now 1 s.maxRetries

/-- Writes the next version of a context. -/
def save (s : ConsistencySettings) (c : Context) (now : Instant) : Calls (Except Failure Context) :=
  .ask (.create (c.next now s.contextTtl)) fun r => .done (r.mapError .ofStore)

/-- Removes every version of a transaction. -/
def clear (transaction : String) : Calls (Except Failure Unit) :=
  .ask (.delete transaction) fun
    | .ok _ => .done (.ok ())
    | .error e => .done (.error (.ofStore e))

/-- Loads a context and then removes the transaction, whether there was a context or
not; what becomes of the removal is not told. -/
def consume (s : ConsistencySettings) (transaction : String) (expected : Nat) (now : Instant) :
    Calls (Except Failure Context) :=
  (load s transaction expected now).bind fun r => .ask (.delete transaction) fun _ => .done r

end Gatehouse.Flow.Loader
