import Gatehouse.Counter.Store
import Gatehouse.Store.Script

/-! The store of counters in memory under a script: calls may be slow, fail or never
return, a record may not be seen, and another writer may come first. A call that is
given up or fails has no effect. -/
namespace Gatehouse.Counter

open Store (Turn Script)

namespace Memory

/-- What another writer does first who gets in the way of a request. -/
def raced : Request → Memory → Memory
  | .write .create r, s => if (s.find? r.key).isSome then s else s.put r
  | .write .update r, s => s.erase r.key
  | _, s => s

/-- The answer to a request on its turn, and the store afterwards; `none` where no answer
ever comes. A limit, in nanoseconds, bounds the time of a call. -/
def answerOn (limit : Option Nat) (turn : Turn) (r : Request) (s : Memory) :
    Option (r.Answer × Memory) :=
  match turn with
  | .slow millis =>
    match Store.exceeds limit millis with
    | some n => some (.error (Store.overdue r.operation n), s)
    | none => some (answer r s)
  | .hangs => limit.map fun n => (.error (Store.overdue r.operation n), s)
  | .fails kind => some (.error (Store.scripted r.operation kind), s)
  | .missed =>
    match r with
    | .find _ => some (.ok none, s)
    | r => some (answer r s)
  | .raced => some (answer r (raced r s))
  | _ => some (answer r s)

end Memory

/-- A store in memory with a script, and the operations it was asked for, last first. -/
structure Scripted where
  store : Memory := {}
  script : Script := .empty
  log : List String := []
  deriving Inhabited

namespace Scripted

/-- Answers a request on the next turn of its operation. -/
def answer (limit : Option Nat) (r : Request) : StateT Scripted Option r.Answer := fun w =>
  let name := r.operation.name
  let (turn, script) := w.script.draw name
  (w.store.answerOn limit turn r).map fun (x, store) => (x, { store, script, log := name :: w.log })

/-- Runs calls under a limit. -/
def run {α : Type} (limit : Option Nat) (calls : Calls α) : StateT Scripted Option α :=
  Store.Program.run (answer limit) calls

end Scripted

end Gatehouse.Counter
