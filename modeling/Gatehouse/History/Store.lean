import Gatehouse.History.Entry
import Gatehouse.Store.Error
import Gatehouse.Store.Program

/-! Stores of password histories: what they are asked, and the store in memory. -/
namespace Gatehouse.History

/-- What is drawn for a new entry: an identifier, and a salt for its password. -/
structure Draw where
  id : Uuid
  salt : List UInt8
  deriving DecidableEq, Repr, Inhabited

/-- What a history guard asks of a store, or of chance. -/
inductive Request where
  /-- The entries of a user. -/
  | list (reference : Reference) (userId : String)
  | create (entry : Entry)
  | delete (id : Uuid)
  | draw
  deriving DecidableEq, Repr

/-- The answer to a request. -/
abbrev Request.Answer : Request → Type
  | list _ _ => Except Store.Error (List Entry)
  | create _ => Except Store.Error Entry
  | delete _ => Except Store.Error Bool
  | draw => Draw

/-- Requests about histories, up to a result. -/
abbrev Calls (α : Type) : Type := Store.Program Request Request.Answer α

/-- A store of histories in memory, by identifier. -/
structure Memory where
  entries : Table Entry := .empty
  deriving DecidableEq, Repr, Inhabited

namespace Memory

/-- The entries of a user, oldest first. -/
def ofUser (s : Memory) (reference : Reference) (userId : String) : List Entry :=
  Entry.oldestFirst (s.entries.values.filter fun e => e.reference = reference && e.userId = userId)

/-- Whether there is an entry of an identifier. -/
def contains (s : Memory) (id : Uuid) : Bool := s.entries.contains id.toText

/-- Stores an entry. -/
def put (s : Memory) (e : Entry) : Memory := ⟨s.entries.insert e.id.toText e⟩

/-- Removes an entry. -/
def erase (s : Memory) (id : Uuid) : Memory := ⟨s.entries.erase id.toText⟩

/-- Stores a new entry; there must be none of its identifier. -/
def create (s : Memory) (e : Entry) : Except Store.Error Entry × Memory :=
  if s.contains e.id then (.error (.alreadyExists "PasswordHistoryEntry" e.id.toText), s)
  else (.ok e, s.put e)

end Memory

end Gatehouse.History
