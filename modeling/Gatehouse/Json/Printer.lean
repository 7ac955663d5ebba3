import Gatehouse.Json.Binary64
import Gatehouse.Json.Quoted
import Gatehouse.Json.Value

/-! JSON values as text without blanks, members in the order in which an object has
them. -/
namespace Gatehouse.Json
open Text

mutual

/-- The text of a value, before a text that follows. -/
def write : Json → List Char → List Char
  | .null, k => 'n' :: 'u' :: 'l' :: 'l' :: k
  | .bool true, k => 't' :: 'r' :: 'u' :: 'e' :: k
  | .bool false, k => 'f' :: 'a' :: 'l' :: 's' :: 'e' :: k
  | .int n, k => signedDecimal n ++ k
  | .float x, k => Binary64.write x ++ k
  | .str s, k => Quoted.write s.toList ++ k
  | .arr [], k => '[' :: ']' :: k
  | .arr (v :: rest), k => '[' :: v.write (writeItems rest k)
  | .obj [], k => '\x7b' :: '\x7d' :: k
  | .obj ((key, v) :: rest), k => '\x7b' :: (Quoted.write key.toList ++ ':' :: v.write (writeMembers rest k))

/-- The text of the further elements of an array and its end. -/
def writeItems : List Json → List Char → List Char
  | [], k => ']' :: k
  | v :: rest, k => ',' :: v.write (writeItems rest k)

/-- The text of the further members of an object and its end. -/
def writeMembers : List (String × Json) → List Char → List Char
  | [], k => '\x7d' :: k
  | (key, v) :: rest, k => ',' :: (Quoted.write key.toList ++ ':' :: v.write (writeMembers rest k))

end

/-- A value's text. -/
def toText (v : Json) : String := String.ofList (v.write [])

end Gatehouse.Json
