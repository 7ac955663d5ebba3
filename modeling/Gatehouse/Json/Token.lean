import Gatehouse.Json.Binary64
import Gatehouse.Json.Quoted

/-! The tokens of a JSON text.

A text is cut into punctuation, words, numbers and quoted texts, up to its end or to
the first place where no token can be told. A number or a quoted text can be well
formed and still have no value: a number may be too large, and surrogates may stand
alone. Such a token stands in the text like any other and is at fault only where its
value is asked for. -/
namespace Gatehouse.Json
open Text

/-- A token, or what stands where the tokens end. -/
inductive Token where
  | openObject
  | closeObject
  | openArray
  | closeArray
  | comma
  | colon
  | null
  | bool (value : Bool)
  | int (value : Int)
  | float (value : Float)
  /-- A number larger than any that can be held. -/
  | excess
  | str (value : Except Fault String)
  /-- A quoted text without its closing quote, at fault like `junk`. -/
  | unclosed (strict lenient : Fault)
  /-- No token: what is wrong where a value is wanted, and where any token would do. -/
  | junk (strict lenient : Fault)

namespace Token

/-- The parts of a number's text. -/
structure Numeral where
  negative : Bool
  whole : List Char
  fraction : List Char
  exponent : Option Int
  deriving Repr

/-- Why a number breaks off: at another character, or at the end of the text, which
only a strict reader tells apart. -/
def brokenOff : List Char → Token
  | [] => .junk .truncated .malformed
  | _ => .junk .malformed .malformed

/-- The fraction of a number, if there is one, and what follows. -/
def fraction (s : List Char) : Except Token (List Char × List Char) :=
  match s with
  | '.' :: rest =>
    let (digits, after) := spanDigits rest
    if digits.isEmpty then .error (brokenOff after) else .ok (digits, after)
  | _ => .ok ([], s)

/-- The exponent of a number, if there is one, and what follows. -/
def exponent (s : List Char) : Except Token (Option Int × List Char) :=
  match s with
  | c :: rest =>
    if c = 'e' ∨ c = 'E' then
      let (sign, rest) : Int × List Char := match rest with
        | '+' :: r => (1, r)
        | '-' :: r => (-1, r)
        | r => (1, r)
      let (digits, after) := spanDigits rest
      if digits.isEmpty then .error (brokenOff after)
      else .ok (some (sign * ofDecimal digits), after)
    else .ok (none, s)
  | [] => .ok (none, s)

/-- A number after its sign: no digit follows a leading zero. -/
def numeral (negative : Bool) (s : List Char) : Except Token (Numeral × List Char) := do
  let (whole, s) := spanDigits s
  match whole with
  | [] => throw (brokenOff s)
  | '0' :: _ :: _ => throw (.junk .malformed .malformed)
  | _ => pure ()
  let (fraction, s) ← fraction s
  let (exponent, s) ← exponent s
  return (⟨negative, whole, fraction, exponent⟩, s)

/-- The value of a number: whole numbers of 64 bits are exact, but zero with a sign and
whatever has a fraction or an exponent is a floating-point number. -/
def ofNumeral (n : Numeral) : Token :=
  let size := ofDecimal n.whole
  if n.fraction.isEmpty && n.exponent.isNone && !n.negative && size < Nat.pow 2 64 then .int size
  else if n.fraction.isEmpty && n.exponent.isNone && n.negative && 0 < size &&
      size ≤ Nat.pow 2 63 then
    .int (-size)
  else
    match Binary64.ofDecimal n.negative (n.whole.map digitValue) (n.fraction.map digitValue)
        (n.exponent.getD 0) with
    | some x => .float x
    | none => .excess

/-- Whether a character stands between tokens. -/
def isSpace (c : Char) : Bool := c == ' ' || c == '\n' || c == '\t' || c == '\r'

/-- A word of which the first letter has been read. -/
def word (rest : List Char) (t : Token) (s : List Char) : Token × List Char :=
  match rest, s with
  | [], s => (t, s)
  | _ :: _, [] => (.junk .truncated .truncated, [])
  | c :: rest, d :: s => if c = d then word rest t s else (.junk .malformed .malformed, [])

/-- A number's token and what follows it. -/
def number (negative : Bool) (s : List Char) : Token × List Char :=
  match numeral negative s with
  | .ok (n, rest) => (ofNumeral n, rest)
  | .error t => (t, [])

/-- The first token of a text that does not begin with a space, and what follows it. -/
def next (c : Char) (rest : List Char) : Token × List Char :=
  if c = '\x7b' then (.openObject, rest)
  else if c = '\x7d' then (.closeObject, rest)
  else if c = '[' then (.openArray, rest)
  else if c = ']' then (.closeArray, rest)
  else if c = ',' then (.comma, rest)
  else if c = ':' then (.colon, rest)
  else if c = 'n' then word ['u', 'l', 'l'] .null rest
  else if c = 't' then word ['r', 'u', 'e'] (.bool true) rest
  else if c = 'f' then word ['a', 'l', 's', 'e'] (.bool false) rest
  else if c = '"' then
    match Quoted.read rest with
    | (value, .closed rest) => (.str value, rest)
    | (.error strict, .broken lenient) => (.unclosed strict lenient, [])
    | (.ok _, .broken lenient) => (.unclosed lenient lenient, [])
  else if c = '-' then number true rest
  else if isDigit c then number false (c :: rest)
  else (.junk .malformed .malformed, [])

/-- The tokens of a text; every token takes at least one character, which the fuel
counts. -/
def scan : Nat → List Char → List Token
  | 0, _ => []
  | _, [] => []
  | fuel + 1, c :: rest =>
    if isSpace c then scan fuel rest
    else
      let (t, rest) := next c rest
      match t with
      | .junk .. => [t]
      | t => t :: scan fuel rest

/-- All tokens of a text. -/
def ofText (s : List Char) : List Token := scan s.length s

end Token

end Gatehouse.Json
