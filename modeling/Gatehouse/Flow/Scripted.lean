import Gatehouse.Flow.Store
import Gatehouse.Store.Script

/-! The store of contexts in memory under a script: calls may be slow or fail, and a read
may see nothing, or a version that was never written here. -/
namespace Gatehouse.Flow

open Store (Turn Script)

/-- A store in memory with a script, the operations it was asked for, last first, and the
nanoseconds that have been waited. -/
structure Scripted where
  store : Memory := {}
  script : Script := .empty
  log : List String := []
  waited : Nat := 0
  deriving Inhabited

namespace Scripted

/-- What becomes of a call of the store, on a turn. -/
def serve (name : String) (operation : Store.Operation) {α : Type}
    (other : Turn → Option α) (call : StateM Memory (Except Store.Error α)) :
    StateT Scripted Option (Except Store.Error α) := fun w =>
  let (turn, script) := w.script.draw name
  let w := { w with script, log := name :: w.log }
  let served (w : Scripted) : Except Store.Error α × Scripted :=
    let (x, store) := call w.store
    (x, { w with store })
  match turn with
  | .slow millis => some (served { w with waited := w.waited + millis * Duration.nanosPerMilli })
  | .hangs => none
  | .fails kind => some (.error (Store.scripted operation kind), w)
  | turn =>
    match other turn with
    | some a => some (.ok a, w)
    | none => some (served w)

/-- Answers a request on the next turn of its operation. -/
def answer (now : Instant) : (r : Request) → StateT Scripted Option r.Answer
  | .findLast t =>
    let other : Turn → Option (Option Context)
      | .missed => some none
      | .seen n => some (some { Context.fresh t now with version := n })
      | _ => none
    serve "find_last" .find other (Memory.answer (.findLast t))
  | .create c => serve "create" .create (fun _ => none) (Memory.answer (.create c))
  | .delete t => serve "delete" .delete (fun _ => none) (Memory.answer (.delete t))
  | .pause nanos => fun w => some ((), { w with waited := w.waited + nanos })

/-- Runs calls at an instant. -/
def run {α : Type} (now : Instant) (calls : Calls α) : StateT Scripted Option α :=
  Store.Program.run (answer now) calls

end Scripted

end Gatehouse.Flow
