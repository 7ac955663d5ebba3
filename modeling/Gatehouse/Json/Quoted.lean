import Gatehouse.Json.Fault
import Gatehouse.Text.Digits

/-! Quoted text.

Between its quotes a text is made of pieces: characters, and numbered code units.
A code unit stands for the character of its number, or is one half of a pair of
surrogates; which pieces there are can be told of any text, whether they pair up
or not, and only a text whose halves pair up has a value. -/
namespace Gatehouse.Json.Quoted
open Text

/-- A piece of a quoted text. -/
inductive Piece where
  | scalar (c : Char)
  | unit (n : Nat)
  deriving DecidableEq, Repr

/-- How a quoted text ends: with its quote, before what follows it, or not at all. -/
inductive Ending where
  | closed (rest : List Char)
  | broken (fault : Fault)
  deriving Repr

/-! ### Writing -/

/-- A character between quotes: quotes, backslashes and control characters are
escaped, the commonest of these by a letter. -/
def escape (c : Char) : List Char :=
  if c = '"' then ['\\', '"']
  else if c = '\\' then ['\\', '\\']
  else if c.toNat = 8 then ['\\', 'b']
  else if c.toNat = 9 then ['\\', 't']
  else if c.toNat = 10 then ['\\', 'n']
  else if c.toNat = 12 then ['\\', 'f']
  else if c.toNat = 13 then ['\\', 'r']
  else if c.toNat < 32 then
    ['\\', 'u', '0', '0', digitChar (c.toNat / 16), digitChar (c.toNat % 16)]
  else [c]

/-- A text between quotes. -/
def write (s : List Char) : List Char := '"' :: s.flatMap escape ++ ['"']

/-! ### Reading -/

/-- The number of bytes of a text. -/
def byteLength (s : List Char) : Nat := (s.map Char.utf8Size).foldr (· + ·) 0

/-- The number that four hexadecimal digits write. -/
def unit? (a b c d : Char) : Option Nat := do
  let a ← hexValue? a
  let b ← hexValue? b
  let c ← hexValue? c
  let d ← hexValue? d
  some (ofDigits 16 [a, b, c, d])

/-- The character that a letter after a backslash stands for. -/
def letter? (c : Char) : Option Char :=
  if c = '"' ∨ c = '\\' ∨ c = '/' then some c
  else if c = 'b' then some (Char.ofNat 8)
  else if c = 'f' then some (Char.ofNat 12)
  else if c = 'n' then some '\n'
  else if c = 'r' then some '\r'
  else if c = 't' then some '\t'
  else none

/-- The pieces of a text whose opening quote has been read. -/
def pieces : List Char → List Piece × Ending
  | [] => ([], .broken .truncated)
  | '"' :: rest => ([], .closed rest)
  | '\\' :: 'u' :: a :: b :: c :: d :: rest =>
    match unit? a b c d with
    | some n => let (ps, ending) := pieces rest; (.unit n :: ps, ending)
    | none => ([], .broken .malformed)
  | '\\' :: 'u' :: rest =>
    ([], .broken (if byteLength rest < 4 then .truncated else .malformed))
  | ['\\'] => ([], .broken .truncated)
  | '\\' :: c :: rest =>
    match letter? c with
    | some l => let (ps, ending) := pieces rest; (.scalar l :: ps, ending)
    | none => ([], .broken .malformed)
  | c :: rest =>
    if c.toNat < 32 then ([], .broken .malformed)
    else let (ps, ending) := pieces rest; (.scalar c :: ps, ending)

/-- Whether a code unit is the first half of a pair. -/
def isHigh (n : Nat) : Bool := 0xD800 ≤ n && n ≤ 0xDBFF

/-- Whether a code unit is the second half of a pair. -/
def isLow (n : Nat) : Bool := 0xDC00 ≤ n && n ≤ 0xDFFF

/-- The character of a pair of halves. -/
def paired (high low : Nat) : Char :=
  Char.ofNat (0x10000 + (high - 0xD800) * 0x400 + (low - 0xDC00))

/-- The characters that pieces stand for; `last` is what is wrong when the pieces end
with a first half alone. -/
def characters (last : Fault) : List Piece → Except Fault (List Char)
  | [] => .ok []
  | .scalar c :: rest => (characters last rest).map (c :: ·)
  | [.unit n] =>
    if isHigh n then .error last
    else if isLow n then .error .malformed
    else .ok [Char.ofNat n]
  | .unit n :: .unit m :: rest =>
    if isHigh n then
      if isLow m then (characters last rest).map (paired n m :: ·) else .error .malformed
    else if isLow n then .error .malformed
    else (characters last (.unit m :: rest)).map (Char.ofNat n :: ·)
  | .unit n :: .scalar c :: rest =>
    if isHigh n || isLow n then .error .malformed
    else (characters last (.scalar c :: rest)).map (Char.ofNat n :: ·)

/-- What a text whose opening quote has been read says, and how it ends: what is
wrong with its pieces is found before what is wrong with its end. -/
def read (s : List Char) : Except Fault String × Ending :=
  let (ps, ending) := pieces s
  match ending with
  | .closed _ => ((characters .malformed ps).map String.ofList, ending)
  | .broken f =>
    match characters f ps with
    | .error g => (.error g, ending)
    | .ok _ => (.error f, ending)

end Gatehouse.Json.Quoted
