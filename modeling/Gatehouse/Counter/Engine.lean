import Gatehouse.Counter.Store
import Gatehouse.Text.Digits

/-! The engine: reads a counter, decides, and writes it back.

Every decision is made from what the store has at that moment. Two callers who both
find a key without a record may both try to create it; the one who comes second reads
again and counts its event on top of the first one's, so no event is lost. After
`maxRounds` rounds of that the engine gives up. -/
namespace Gatehouse.Counter.Engine

/-- How often a write that another writer got in the way of is tried. -/
def maxRounds : Nat := 3

/-- What the store has under a key, as far as it is still live. -/
def live (policy : Policy) (stored : Option Record) (now : Instant) : Option Record :=
  stored.bind fun r => policy.refresh r now

/-- The present decision about a key; nothing is written. -/
def evaluate (policy : Policy) (key : Key) (now : Instant) : Calls (Except Store.Error Decision) :=
  if policy.isMisconfigured then .done (.ok .misconfigured)
  else .ask (.find key) fun
    | .error e => .done (.error e)
    | .ok stored => .done (.ok (policy.decide (live policy stored now) now))

/-- The error of a caller who gave up after `rounds` rounds, the last of which failed with
the given error. -/
def gaveUp (rounds : Nat) (key : Key) (last : Store.Error) : Store.Error :=
  (Store.Error.conflict last.operation
    ("Gave up after " ++ Text.showNat rounds ++ " conflicting writes")).withEntity
      entityType key.storageKey

/-- Reads a key and writes its next state, in round number `round`; when another writer
got in the way, up to `left` more rounds follow. -/
def rounds (policy : Policy) (key : Key) (now : Instant) (round left : Nat) :
    Calls (Except Store.Error Decision) :=
  .ask (.find key) fun
    | .error e => .done (.error e)
    | .ok stored =>
      let next := policy.applyFailure (live policy stored now) key now
      .ask (.write (if stored.isSome then .update else .create) next) fun
        | .ok written => .done (.ok (policy.decide (some written) now))
        | .error e =>
          if e.isConflict || e.isNotFound then
            match left with
            | 0 => .done (.error (gaveUp round key e))
            | left + 1 => rounds policy key now (round + 1) left
          else .done (.error e)

/-- Counts one failure, or one event under a rate limit, and decides about the state after
it. -/
def recordFailure (policy : Policy) (key : Key) (now : Instant) :
    Calls (Except Store.Error Decision) :=
  if policy.isMisconfigured then .done (.ok .misconfigured)
  else rounds policy key now 1 (maxRounds - 1)

/-- Removes a counter; tells whether there was one. -/
def reset (key : Key) : Calls (Except Store.Error Bool) := .request (Request.delete key)

/-- Takes note of a success, which clears some counters; tells whether one was removed. -/
def recordSuccess (policy : Policy) (key : Key) : Calls (Except Store.Error Bool) :=
  if policy.resetsOnSuccess then reset key else .done (.ok false)

end Gatehouse.Counter.Engine
