import Gatehouse.Settings.Tree
import Gatehouse.Toml.Text

/-! Numbers of a TOML document. -/
namespace Gatehouse.Toml
open Settings Text

/-- Whether a character is a digit of base eight. -/
def isOctal (c : Char) : Bool := '0' ≤ c && c ≤ '7'

/-- Whether a character is a digit of base two. -/
def isBinary (c : Char) : Bool := c == '0' || c == '1'

/-- Digits, between any two of which an underscore may stand, after a digit. -/
def moreDigits (isDigit : Char → Bool) : List Char → Option (List Char × List Char)
  | '_' :: c :: rest =>
    if isDigit c then (moreDigits isDigit rest).map fun (ds, rest) => (c :: ds, rest) else none
  | ['_'] => none
  | c :: rest =>
    if isDigit c then (moreDigits isDigit rest).map fun (ds, rest) => (c :: ds, rest)
    else some ([], c :: rest)
  | [] => some ([], [])

/-- One or more digits. -/
def digits? (isDigit : Char → Bool) : List Char → Option (List Char × List Char)
  | c :: rest =>
    if isDigit c then (moreDigits isDigit rest).map fun (ds, rest) => (c :: ds, rest) else none
  | [] => none

/-- Decimal digits without a leading zero. -/
def wholeDigits? : List Char → Option (List Char × List Char)
  | '0' :: rest => some (['0'], rest)
  | s => digits? isDigit s

/-- An optional sign: whether it is a minus, and what follows. -/
def sign : List Char → Bool × List Char
  | '+' :: rest => (false, rest)
  | '-' :: rest => (true, rest)
  | s => (false, s)

/-- A whole number, if it has no more than 64 bits. -/
def int64? (negative : Bool) (size : Nat) : Option Tree :=
  if negative then if size ≤ Nat.pow 2 63 then some (.int (-size)) else none
  else if size < Nat.pow 2 63 then some (.int size) else none

/-- A whole number in another base than ten, after its two letters. -/
def based? (base : Nat) (isDigit : Char → Bool) (s : List Char) : Option (Tree × List Char) := do
  let (ds, rest) ← digits? isDigit s
  let n ← int64? false (ofDigits base (ds.filterMap hexValue?))
  return (n, rest)

/-- The least number that is rounded to infinity. -/
def infinityBound : Nat := Nat.pow 2 1024 - Nat.pow 2 970

/-- Whether digits times a power of ten are rounded to infinity. -/
def isInfinite (digits : List Char) (exponent : Int) : Bool :=
  let digits := digits.dropWhile (· == '0')
  let magnitude := digits.length + exponent
  if digits.isEmpty || magnitude < 308 then false
  else if 310 < magnitude then true
  else infinityBound * Nat.pow 10 (-exponent).toNat ≤ ofDecimal digits * Nat.pow 10 exponent.toNat

/-- The exponent of a number, of which the letter has been read. -/
def exponent? (s : List Char) : Option (Int × List Char) := do
  let (negative, s) := sign s
  let (ds, rest) ← digits? isDigit s
  return (if negative then -ofDecimal ds else ofDecimal ds, rest)

/-- A number with a fraction or an exponent; only a negative one may be infinite. -/
def fractional? (negative : Bool) (whole fraction : List Char) (exponent : Int) : Option Tree :=
  if !negative && isInfinite (whole ++ fraction) (exponent - fraction.length) then none
  else some .fractional

/-- A decimal number after its sign. -/
def decimal? (negative : Bool) (s : List Char) : Option (Tree × List Char) := do
  let (whole, rest) ← wholeDigits? s
  match rest with
  | '.' :: rest =>
    let (fraction, rest) ← digits? isDigit rest
    match rest with
    | c :: after =>
      if c = 'e' ∨ c = 'E' then
        let (e, rest) ← exponent? after
        return (← fractional? negative whole fraction e, rest)
      else return (← fractional? negative whole fraction 0, rest)
    | [] => return (← fractional? negative whole fraction 0, [])
  | c :: after =>
    if c = 'e' ∨ c = 'E' then
      let (e, rest) ← exponent? after
      return (← fractional? negative whole [] e, rest)
    else return (← int64? negative (ofDecimal whole), rest)
  | [] => return (← int64? negative (ofDecimal whole), [])

/-- A number. -/
def number? (s : List Char) : Option (Tree × List Char) :=
  match s with
  | '0' :: 'x' :: rest => based? 16 (fun c => (hexValue? c).isSome) rest
  | '0' :: 'o' :: rest => based? 8 isOctal rest
  | '0' :: 'b' :: rest => based? 2 isBinary rest
  | s =>
    let (negative, s) := sign s
    match s with
    | 'i' :: 'n' :: 'f' :: rest => some (.fractional, rest)
    | 'n' :: 'a' :: 'n' :: rest => some (.fractional, rest)
    | s => decimal? negative s

end Gatehouse.Toml
