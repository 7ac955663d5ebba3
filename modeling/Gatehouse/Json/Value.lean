/-! JSON values.

Whole numbers are kept exactly; a number is a `float` only where its text has a
fraction or an exponent or does not fit 64 bits. The members of an object are a
list: texts that are read give them in the order of their keys, each key once. -/
namespace Gatehouse

/-- A JSON value. -/
inductive Json where
  | null
  | bool (value : Bool)
  | int (value : Int)
  | float (value : Float)
  | str (value : String)
  | arr (items : List Json)
  | obj (members : List (String × Json))
  deriving Repr, Inhabited

namespace Json

/-- A natural number. -/
def nat (n : Nat) : Json := .int n

/-- A value, or null where there is none. -/
def ofOption {α : Type} (f : α → Json) : Option α → Json
  | some a => f a
  | none => .null

/-- What an object holds under a key. -/
def member? (key : String) : Json → Option Json
  | .obj members => (members.find? (·.1 == key)).map (·.2)
  | _ => none

/-- The members of an object. -/
def members : Json → List (String × Json)
  | .obj members => members
  | _ => []

/-- An object without the member of one key. -/
def dropMember (key : String) : Json → Json
  | .obj members => .obj (members.filter (·.1 != key))
  | v => v

end Json

end Gatehouse
