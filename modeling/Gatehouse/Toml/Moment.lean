import Gatehouse.Settings.Tree
import Gatehouse.Toml.Text

/-! Dates and times of a TOML document. No setting is one; what counts is whether a
text is one. -/
namespace Gatehouse.Toml
open Settings Text

/-- A number of exactly so many decimal digits, at least `low` and at most `high`. -/
def fixed? (width low high : Nat) (s : List Char) : Option (Nat × List Char) :=
  let ds := s.take width
  if ds.length = width ∧ ds.all isDigit then
    let n := ofDecimal ds
    if low ≤ n ∧ n ≤ high then some (n, s.drop width) else none
  else none

/-- What is left after a character. -/
def after? (c : Char) : List Char → Option (List Char)
  | d :: rest => if d = c then some rest else none
  | [] => none

/-- How many days a month has. -/
def daysIn (year month : Nat) : Nat :=
  if month = 2 then if year % 4 = 0 ∧ (year % 100 ≠ 0 ∨ year % 400 = 0) then 29 else 28
  else if month = 4 ∨ month = 6 ∨ month = 9 ∨ month = 11 then 30
  else 31

/-- What is left after a date. -/
def date? (s : List Char) : Option (List Char) := do
  let (year, s) ← fixed? 4 0 9999 s
  let (month, s) ← fixed? 2 1 12 (← after? '-' s)
  let (_, s) ← fixed? 2 1 (daysIn year month) (← after? '-' s)
  return s

/-- What is left after a time of day; the last minute may have a leap second. -/
def time? (s : List Char) : Option (List Char) := do
  let (_, s) ← fixed? 2 0 23 s
  let (_, s) ← fixed? 2 0 59 (← after? ':' s)
  let (_, s) ← fixed? 2 0 60 (← after? ':' s)
  match s with
  | '.' :: d :: rest => return if isDigit d then rest.dropWhile isDigit else s
  | s => return s

/-- What is left after a distance from universal time. -/
def offset? : List Char → Option (List Char)
  | c :: rest =>
    if c = 'Z' ∨ c = 'z' then some rest
    else if c = '+' ∨ c = '-' then do
      let (_, s) ← fixed? 2 0 23 rest
      let (_, s) ← fixed? 2 0 59 (← after? ':' s)
      return s
    else none
  | [] => none

/-- What is left after a date, a time of day, or both, then also with an offset. -/
def momentEnd? (s : List Char) : Option (List Char) :=
  match date? s with
  | none => time? s
  | some rest =>
    match rest with
    | c :: after =>
      if c = 'T' ∨ c = 't' ∨ c = ' ' then
        match time? after with
        | some rest => some ((offset? rest).getD rest)
        | none => some rest
      else some rest
    | [] => some []

/-- The name under which a date or a time stands in its group. -/
def momentName : String := "$__toml_private_datetime"

/-- A date or a time: a group of one member. -/
def moment? (s : List Char) : Option (Tree × List Char) :=
  (momentEnd? s).map fun rest =>
    (.group [(momentName, .text (String.ofList (s.take (s.length - rest.length))))], rest)

end Gatehouse.Toml
