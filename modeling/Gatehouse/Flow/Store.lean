import Gatehouse.Flow.Context
import Gatehouse.Store.Error
import Gatehouse.Store.Program

/-! Stores of contexts: what they are asked, and the store in memory, which keeps every
version written. -/
namespace Gatehouse.Flow

/-- What a loader asks of a store, or of the clock. -/
inductive Request where
  /-- The highest version of a transaction. -/
  | findLast (transaction : String)
  | create (context : Context)
  /-- Removes every version of a transaction. -/
  | delete (transaction : String)
  /-- To wait so many nanoseconds. -/
  | pause (nanos : Nat)

namespace Request

/-- The answer to a request. -/
abbrev Answer : Request → Type
  | findLast _ => Except Store.Error (Option Context)
  | create _ => Except Store.Error Context
  | delete _ => Except Store.Error Bool
  | pause _ => Unit

end Request

/-- Requests about contexts, up to a result. -/
abbrev Calls (α : Type) : Type := Store.Program Request Request.Answer α

/-- A store of contexts in memory: the versions of each transaction, in the order in which
they were written. -/
structure Memory where
  contexts : Table (List Context) := .empty
  deriving Inhabited

namespace Memory

/-- The later of two versions where they are equal, else the higher. -/
def higher (best : Option Context) (c : Context) : Option Context :=
  match best with
  | some b => if c.version < b.version then some b else some c
  | none => some c

/-- The version last written among the highest. -/
def highest (versions : List Context) : Option Context := versions.foldl higher none

/-- What is stored of a transaction. -/
def versions (s : Memory) (transaction : String) : List Context :=
  (s.contexts.find? transaction).getD []

/-- Whether anything is stored of a transaction. -/
def contains (s : Memory) (transaction : String) : Bool := s.contexts.contains transaction

/-- Adds a version. -/
def put (s : Memory) (c : Context) : Memory :=
  ⟨s.contexts.insert c.transactionId (s.versions c.transactionId ++ [c])⟩

/-- Drops the versions whose time is over, and transactions of which none is left. -/
def purge (s : Memory) (now : Instant) : Memory :=
  ⟨(s.contexts.mapValues fun cs => cs.filter fun c => now < c.expireAt).keep fun cs => !cs.isEmpty⟩

/-- Answers a request; waiting changes nothing. -/
def answer : (r : Request) → StateM Memory r.Answer
  | .findLast t, s => (.ok (highest (s.versions t)), s)
  | .create c, s => (.ok c, s.put c)
  | .delete t, s => (.ok (s.contains t), ⟨s.contexts.erase t⟩)
  | .pause _, s => ((), s)

end Memory

end Gatehouse.Flow
