import Gatehouse.Text.Digits

/-! Identifiers of 128 bits. They are written as 32 hexadecimal digits in five groups;
they are read with or without the hyphens, in braces, or as a resource name. -/
namespace Gatehouse

/-- An identifier of 128 bits. -/
structure Uuid where
  value : Nat
  deriving DecidableEq, Repr, Inhabited

namespace Uuid
open Text

/-- The lengths of the groups of digits. -/
def groups : List Nat := [8, 4, 4, 4, 12]

/-- Exactly `width` hexadecimal digits of a number. -/
def hexDigits : Nat → Nat → List Char
  | 0, _ => []
  | width + 1, n => hexDigits width (n / 16) ++ [digitChar (n % 16)]

/-- Cuts a text into groups with hyphens between them. -/
def hyphenate : List Nat → List Char → List Char
  | [], _ => []
  | [n], s => s.take n
  | n :: rest, s => s.take n ++ '-' :: hyphenate rest (s.drop n)

/-- An identifier's text, in five groups. -/
def toText (u : Uuid) : String := String.ofList (hyphenate groups (hexDigits 32 u.value))

/-- Takes the hyphens out between groups of the given lengths. -/
def joined? : List Nat → List Char → Option (List Char)
  | [], s => if s.isEmpty then some [] else none
  | [n], s => if s.length = n then some s else none
  | n :: rest, s =>
    match s.drop n with
    | '-' :: after => (joined? rest after).map (s.take n ++ ·)
    | _ => none

/-- The identifier of 32 digits. -/
def ofDigits? (s : List Char) : Option Uuid :=
  if s.length = 32 then (s.mapM hexValue?).map fun ds => ⟨ofDigits 16 ds⟩ else none

/-- The identifier that a text writes. -/
def ofText? (text : String) : Option Uuid :=
  let s := text.toList
  let grouped (s : List Char) := (joined? groups s).bind ofDigits?
  if s.length = 32 then ofDigits? s
  else if s.length = 36 then grouped s
  else if s.length = 38 then
    if s.head? = some '\x7b' ∧ s.getLast? = some '\x7d' then grouped ((s.drop 1).take 36) else none
  else if s.length = 45 then
    if s.take 9 = "urn:uuid:".toList then grouped (s.drop 9) else none
  else none

end Uuid

end Gatehouse
