import Gatehouse.Text.Digits

/-! The characters of a TOML document: blanks, line ends, comments and quoted texts.

A reader here takes what it wants from the front of the characters and gives back
what it has read and what follows, or nothing if something else stands there. -/
namespace Gatehouse.Toml
open Text (hexValue? ofDigits)

/-- Whether a character may stand in a comment or a text as it is: none of the control
characters but the tab. -/
def isPlain (c : Char) : Bool := c == '\t' || (32 ≤ c.toNat && c.toNat != 127)

/-- What is left after spaces and tabs. -/
def skipSpaces (s : List Char) : List Char := s.dropWhile fun c => c == ' ' || c == '\t'

/-- What is left after the end of a line. -/
def newline? : List Char → Option (List Char)
  | '\n' :: rest => some rest
  | '\r' :: '\n' :: rest => some rest
  | _ => none

/-- What is left after the rest of a line, on which only a comment may stand. -/
def lineEnd? (s : List Char) : Option (List Char) :=
  let s := match skipSpaces s with
    | '#' :: rest => rest.dropWhile isPlain
    | s => s
  if s.isEmpty then some [] else newline? s

/-- What is left after spaces, line ends and comments, each of which ends its line. -/
def skipGap (inComment : Bool) : List Char → Option (List Char)
  | [] => if inComment then none else some []
  | '\n' :: rest => skipGap false rest
  | '\r' :: '\n' :: rest => skipGap false rest
  | c :: rest =>
    if inComment then if isPlain c then skipGap true rest else none
    else if c = ' ' ∨ c = '\t' then skipGap false rest
    else if c = '#' then skipGap true rest
    else some (c :: rest)

/-! ### Quoted texts -/

/-- The quotation mark of texts without escapes. -/
def apostrophe : Char := Char.ofNat 39

/-- The character that hexadecimal digits number. -/
def numbered? (digits : List Char) : Option Char := do
  let n := ofDigits 16 (← digits.mapM hexValue?)
  if n.isValidChar then some (Char.ofNat n) else none

/-- The character that a letter after a backslash stands for. -/
def letter? (c : Char) : Option Char :=
  if c = '"' ∨ c = '\\' then some c
  else if c = 'b' then some (Char.ofNat 8)
  else if c = 'f' then some (Char.ofNat 12)
  else if c = 'n' then some '\n'
  else if c = 'r' then some '\r'
  else if c = 't' then some '\t'
  else none

/-- The character that an escape stands for, of which the backslash has been read. -/
def escape? : List Char → Option (Char × List Char)
  | 'u' :: a :: b :: c :: d :: rest => (numbered? [a, b, c, d]).map (·, rest)
  | 'U' :: a :: b :: c :: d :: e :: f :: g :: h :: rest =>
    (numbered? [a, b, c, d, e, f, g, h]).map (·, rest)
  | c :: rest => (letter? c).map (·, rest)
  | [] => none

/-- A character that stands for itself. -/
def plain? : List Char → Option (List Char × List Char)
  | c :: rest => if isPlain c then some ([c], rest) else none
  | [] => none

/-- A character or an escape. -/
def piece? : List Char → Option (List Char × List Char)
  | '\\' :: rest => (escape? rest).map fun (c, rest) => ([c], rest)
  | s => plain? s

/-- A character or a line end, however it is written. -/
def plainOrNewline? (s : List Char) : Option (List Char × List Char) :=
  match newline? s with
  | some rest => some (['\n'], rest)
  | none => plain? s

/-- What is left after a line end and all blanks around it. -/
def continued? (s : List Char) : Option (List Char) := do
  let s ← newline? (skipSpaces s)
  return skipBlankLines s
where
  /-- What is left after spaces, tabs and line ends. -/
  skipBlankLines : List Char → List Char
    | ' ' :: rest => skipBlankLines rest
    | '\t' :: rest => skipBlankLines rest
    | '\n' :: rest => skipBlankLines rest
    | '\r' :: '\n' :: rest => skipBlankLines rest
    | s => s

/-- A character, an escape or a line end; a line end after a backslash is left out. -/
def pieceOrNewline? : List Char → Option (List Char × List Char)
  | '\\' :: rest =>
    match continued? rest with
    | some rest => some ([], rest)
    | none => piece? ('\\' :: rest)
  | s => plainOrNewline? s

/-- The pieces of a text up to its closing quote; the fuel counts pieces. -/
def upTo (quote : Char) (piece : List Char → Option (List Char × List Char)) :
    Nat → List Char → Option (List Char × List Char)
  | 0, _ => none
  | _, [] => none
  | fuel + 1, c :: rest =>
    if c = quote then some ([], rest)
    else do
      let (cs, rest) ← piece (c :: rest)
      let (more, rest) ← upTo quote piece fuel rest
      return (cs ++ more, rest)

/-- The pieces of a text up to three closing quotes. One or two quotes are part of the
text, also before the closing ones. -/
def upToThree (quote : Char) (piece : List Char → Option (List Char × List Char)) :
    Nat → List Char → Option (List Char × List Char)
  | 0, _ => none
  | fuel + 1, s =>
    let (quotes, rest) := s.span (· == quote)
    match quotes with
    | _ :: _ :: _ :: more => if more.length ≤ 2 then some (more, rest) else none
    | quotes => do
      let (cs, rest) ← piece rest
      let (more, rest) ← upToThree quote piece fuel rest
      return (quotes ++ cs ++ more, rest)

/-- A quoted text on one line. -/
def quotedLine? : List Char → Option (String × List Char)
  | c :: rest => do
    let piece ← if c = '"' then some piece? else if c = apostrophe then some plain? else none
    let (cs, rest) ← upTo c piece (rest.length + 1) rest
    return (String.ofList cs, rest)
  | [] => none

/-- A quoted text, on one line or between triple quotes. -/
def quoted? : List Char → Option (String × List Char)
  | a :: b :: c :: rest =>
    if b = a ∧ c = a then do
      let piece ← if a = '"' then some pieceOrNewline?
        else if a = apostrophe then some plainOrNewline? else none
      let (cs, rest) ← upToThree a piece (rest.length + 1) ((newline? rest).getD rest)
      return (String.ofList cs, rest)
    else quotedLine? (a :: b :: c :: rest)
  | s => quotedLine? s

/-! ### Keys -/

/-- Whether a character may stand in a key without quotes. -/
def isKeyChar (c : Char) : Bool := c.isAlphanum || c == '_' || c == '-'

/-- A key without dots. -/
def name? (s : List Char) : Option (String × List Char) :=
  let (bare, rest) := s.span isKeyChar
  if bare.isEmpty then quotedLine? s else some (String.ofList bare, rest)

/-- The parts of a dotted key, with blanks around them. -/
def names? : Nat → List Char → Option (List String × List Char)
  | 0, _ => none
  | fuel + 1, s => do
    let (name, rest) ← name? (skipSpaces s)
    match skipSpaces rest with
    | '.' :: rest =>
      let (more, rest) ← names? fuel rest
      return (name :: more, rest)
    | rest => return ([name], rest)

/-- How many parts a key may have, and how many levels of arrays and inline tables a
value. -/
def depthLimit : Nat := 79

/-- A key: the path that leads to it, its last part, and what follows it. -/
def key? (s : List Char) : Option ((List String × String) × List Char) := do
  let (parts, rest) ← names? depthLimit s
  let last ← parts.getLast?
  return ((parts.dropLast, last), rest)

end Gatehouse.Toml
