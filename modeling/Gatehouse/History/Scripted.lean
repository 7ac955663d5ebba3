import Gatehouse.History.Store
import Gatehouse.Store.Script

/-! The store of histories in memory under a script. Entries may be listed newest first,
and every draw is greater than the ones before. -/
namespace Gatehouse.History

open Store (Turn Script)

/-- A store in memory with a script. -/
structure Scripted where
  store : Memory := {}
  script : Script := .empty
  newestFirst : Bool := false
  /-- The number of the next draw. -/
  next : Nat := 1
  /-- What was asked for, last first; a deletion with its identifier. -/
  log : List (Store.Operation × Option Uuid) := []
  /-- Identifiers that entries were to be created with, last first. -/
  created : List Uuid := []
  deriving Inhabited

namespace Scripted

/-- What becomes of a call on a turn: slow calls are served. -/
def serve {α : Type} (operation : Store.Operation) (id : Option Uuid)
    (call : StateM Memory (Except Store.Error α)) :
    StateT Scripted Option (Except Store.Error α) := fun w =>
  let (turn, script) := w.script.draw operation.name
  let w := { w with script, log := (operation, id) :: w.log }
  match turn with
  | .hangs => none
  | .fails kind => some (.error (Store.scripted operation kind), w)
  | _ =>
    let (x, store) := call w.store
    some (x, { w with store })

/-- The draw of a number: identifiers grow with it, and salts differ. -/
def drawOf (n : Nat) : Draw where
  id := ⟨0x01900000000070008000000000 * Nat.pow 2 24 + n⟩
  salt := (List.range 16).map fun k => UInt8.ofNat (n / Nat.pow 2 (8 * k) + 37 * k)

/-- Answers a request on the next turn of its operation. -/
def answer : (r : Request) → StateT Scripted Option r.Answer
  | .list reference userId => fun w =>
    let order := if w.newestFirst then List.reverse else id
    serve .list none (fun s => (.ok (order (s.ofUser reference userId)), s)) w
  | .create e => fun w =>
    serve .create none (fun s => s.create e) { w with created := e.id :: w.created }
  | .delete id => serve .delete (some id) fun s => (.ok (s.contains id), s.erase id)
  | .draw => fun w => some (drawOf w.next, { w with next := w.next + 1 })

/-- Runs calls. -/
def run {α : Type} (calls : Calls α) : StateT Scripted Option α := Store.Program.run answer calls

end Scripted

end Gatehouse.History
