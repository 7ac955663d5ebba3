import Gatehouse.Counter.Policy
import Gatehouse.Store.Error
import Gatehouse.Store.Program
import Gatehouse.Table

/-! Stores of counters: what they are asked, and the store in memory.

A store holds at most one record under each storage key. A record is created only
where there is none and replaced only where there is one, so that of two writers who
both found a key without a record only the first succeeds. -/
namespace Gatehouse.Counter

/-- Whether a write makes a record or replaces one. -/
inductive Write where
  | create
  | update
  deriving DecidableEq, Repr, Inhabited

/-- What a store of counters is asked. -/
inductive Request where
  | find (key : Key)
  | write (mode : Write) (record : Record)
  | delete (key : Key)
  deriving DecidableEq, Repr

namespace Request

/-- What the answer to a request tells. -/
abbrev Result : Request → Type
  | find _ => Option Record
  | write _ _ => Record
  | delete _ => Bool

/-- The answer to a request: it may fail. -/
abbrev Answer (r : Request) : Type := Except Store.Error r.Result

/-- The operation that a request is. -/
def operation : Request → Store.Operation
  | find _ => .find
  | write .create _ => .create
  | write .update _ => .update
  | delete _ => .delete

/-- The key that a request is about. -/
def key : Request → Key
  | find k => k
  | write _ r => r.key
  | delete k => k

end Request

/-- Requests to a store of counters, up to a result. -/
abbrev Calls (α : Type) : Type := Store.Program Request Request.Answer α

/-- What errors about counters call them. -/
def entityType : String := "CounterRecord"

/-- A store of counters in memory, by storage key. -/
structure Memory where
  records : Table Record := .empty
  deriving DecidableEq, Repr, Inhabited

namespace Memory

/-- What is stored under a key. -/
def find? (s : Memory) (k : Key) : Option Record := s.records.find? k.storageKey

/-- How many records there are. -/
def size (s : Memory) : Nat := s.records.size

/-- Stores a record under its key whatever is there. -/
def put (s : Memory) (r : Record) : Memory := ⟨s.records.insert r.key.storageKey r⟩

/-- Removes what is stored under a key. -/
def erase (s : Memory) (k : Key) : Memory := ⟨s.records.erase k.storageKey⟩

/-- Drops the records whose time is over. -/
def purge (s : Memory) (now : Instant) : Memory := ⟨s.records.keep fun r => !r.isExpired now⟩

/-- Answers a request. -/
def answer : (r : Request) → StateM Memory r.Answer
  | .find k, s => (.ok (s.find? k), s)
  | .write .create r, s =>
    if (s.find? r.key).isSome then (.error (.alreadyExists entityType r.key.storageKey), s)
    else (.ok r, s.put r)
  | .write .update r, s =>
    if (s.find? r.key).isSome then (.ok r, s.put r)
    else (.error (.notFound .update entityType r.key.storageKey), s)
  | .delete k, s => (.ok (s.find? k).isSome, s.erase k)

end Memory

end Gatehouse.Counter
