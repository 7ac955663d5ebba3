import Gatehouse.Store.Error
import Gatehouse.Table
import Gatehouse.Time.Duration

/-! Scripts: what becomes of calls to a store that is slow, fails, or has other
writers.

A script gives each operation a queue of turns. A call takes the first turn of its
operation's queue, and is served as usual when the queue is empty. -/
namespace Gatehouse.Store

/-- What becomes of a call. -/
inductive Turn where
  /-- It is served. -/
  | served
  /-- It is served after so many milliseconds. -/
  | slow (millis : Nat)
  /-- It never returns. -/
  | hangs
  /-- It fails and has no effect. -/
  | fails (kind : ErrorKind)
  /-- What is looked for is not seen. -/
  | missed
  /-- Another writer comes first. -/
  | raced
  /-- A version is seen that need not be there. -/
  | seen (version : Nat)
  deriving DecidableEq, Repr, Inhabited

/-- Queues of turns, by operation. -/
abbrev Script : Type := Table (List Turn)

namespace Script

/-- Appends turns to the queue of an operation. -/
def append (s : Script) (operation : String) (turns : List Turn) : Script :=
  s.insert operation ((s.find? operation).getD [] ++ turns)

/-- Takes the next turn of an operation. -/
def draw (s : Script) (operation : String) : Turn × Script :=
  match s.find? operation with
  | some (t :: rest) => (t, s.insert operation rest)
  | _ => (.served, s)

end Script

/-- A call that fails because the script says so. -/
def scripted (operation : Operation) (kind : ErrorKind) : Error :=
  { operation, kind, detail := "injected" }

/-- A call that was given up after a limit of so many nanoseconds. -/
def overdue (operation : Operation) (limit : Nat) : Error :=
  .timeout operation ("Store call exceeded " ++ Duration.brief limit)

/-- Whether a call that takes so many milliseconds is given up under a limit. -/
def exceeds (limit : Option Nat) (millis : Nat) : Option Nat :=
  limit.filter (· < millis * Duration.nanosPerMilli)

end Gatehouse.Store
