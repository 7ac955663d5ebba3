import Gatehouse.Settings.Tree
import Gatehouse.Text.Blank
import Gatehouse.Toml.Text

/-! Settings from environment variables.

The name of a variable says which setting it is, and its value is read as whatever
it looks like: a truth value, a number, a quoted text, a list, a group, or else a
text. A value that looks like none of these is a text as it stands. -/
namespace Gatehouse.Settings
open Text

/-! ### Names -/

/-- With what the names of variables begin, in letters of either case. -/
def variablePrefix : String := "AUTHGUARD_"

/-- What follows the opening of a text, in letters of either case. -/
def afterOpening? : List Char → List Char → Option (List Char)
  | [], s => some s
  | c :: opening, d :: s => if c.toLower = d.toLower then afterOpening? opening s else none
  | _ :: _, [] => none

/-- The parts of a name: two underscores or a dot stand between any two. -/
def nameParts : List Char → List Char → List (List Char)
  | part, [] => [part.reverse]
  | part, '_' :: '_' :: rest => part.reverse :: nameParts [] rest
  | part, '.' :: rest => part.reverse :: nameParts [] rest
  | part, c :: rest => nameParts (c :: part) rest

/-- The path of a variable's setting, in small letters; `none` if the variable is no
setting. -/
def variablePath? (name : String) : Option (List String) := do
  let rest ← afterOpening? variablePrefix.toList (trim name.toList)
  let parts := nameParts [] (trim (rest.map Char.toLower))
  if parts.any (·.isEmpty) then none else some (parts.map String.ofList)

/-! ### Values -/

/-- What is left after the blanks of plain text. -/
def skipPlainBlanks (s : List Char) : List Char :=
  s.dropWhile fun c => c == ' ' || c == '\t' || c == '\n' || c == '\r' || c.toNat == 12

/-- Whether a character ends a text without quotes. -/
def isSeparator (c : Char) : Bool :=
  c == ',' || c == '\x7b' || c == '\x7d' || c == '[' || c == ']'

/-- Whether a text is a decimal number with a point. -/
def isPointed (s : List Char) : Bool :=
  let s := match s with
    | '+' :: rest => rest
    | '-' :: rest => rest
    | s => s
  let (whole, rest) := spanDigits s
  match rest with
  | '.' :: rest =>
    let (fraction, rest) := spanDigits rest
    !(whole.isEmpty && fraction.isEmpty) && match rest with
      | [] => true
      | c :: rest => (c == 'e' || c == 'E') && (match rest with
        | '+' :: rest => decimal? rest
        | '-' :: rest => decimal? rest
        | rest => decimal? rest).isSome
  | _ => false

/-- A whole number that 64 bits hold, with or without a sign. -/
def integer? (s : List Char) : Option Int :=
  match s with
  | '-' :: rest => do
    let n ← decimal? rest
    if n ≤ Nat.pow 2 63 then some (-n) else none
  | s => do
    let n ← decimal? (match s with | '+' :: rest => rest | s => s)
    if n < Nat.pow 2 64 then some n else none

/-- What a text without quotes stands for. -/
def unquoted (s : List Char) : Tree :=
  if isPointed s then .fractional
  else match integer? s with
    | some n => .int n
    | none => .text (String.ofList s)

/-- A quoted text. -/
def quotedText? (s : List Char) : Option (String × List Char) :=
  match s with
  | '"' :: _ => Toml.quotedLine? s
  | _ => none

/-- A name within a group. -/
def memberName? (s : List Char) : Option (String × List Char) :=
  let (bare, rest) := s.span Toml.isKeyChar
  if bare.isEmpty then quotedText? s else some (String.ofList bare, rest)

mutual

/-- A value and what follows it; the fuel counts steps. -/
def value? : Nat → List Char → Option (Tree × List Char)
  | 0, _ => none
  | fuel + 1, s => do
    let (v, rest) ← match skipPlainBlanks s with
      | 't' :: 'r' :: 'u' :: 'e' :: rest => some (.bool true, rest)
      | 'f' :: 'a' :: 'l' :: 's' :: 'e' :: rest => some (.bool false, rest)
      | '\x7b' :: rest => (members? fuel [] rest).map fun (ms, rest) => (.group ms, rest)
      | '[' :: rest => (elements? fuel rest).map fun (vs, rest) => (.list vs, rest)
      | '"' :: rest => (quotedText? ('"' :: rest)).map fun (t, rest) => (.text t, rest)
      | c :: rest =>
        if c = Toml.apostrophe then
          match rest with
          | l :: d :: rest => if d = Toml.apostrophe then some (.letter l, rest) else none
          | _ => none
        else
          let (bare, rest) := (c :: rest).span (!isSeparator ·)
          some (unquoted (trim bare), rest)
      | [] => some (unquoted [], [])
    return (v, skipPlainBlanks rest)

/-- The elements of a list up to its bracket; a comma may stand after the last. -/
def elements? : Nat → List Char → Option (List Tree × List Char)
  | 0, _ => none
  | _, ']' :: rest => some ([], rest)
  | fuel + 1, s => do
    let (v, rest) ← value? fuel s
    match rest with
    | ',' :: rest =>
      let (vs, rest) ← elements? fuel rest
      return (v :: vs, rest)
    | ']' :: rest => return ([v], rest)
    | _ => none

/-- The members of a group up to its brace, among those already read; a comma may
stand after the last. -/
def members? : Nat → List (String × Tree) → List Char → Option (List (String × Tree) × List Char)
  | 0, _, _ => none
  | _, members, '\x7d' :: rest => some (members, rest)
  | fuel + 1, members, s => do
    let (name, rest) ← memberName? (skipPlainBlanks s)
    match skipPlainBlanks rest with
    | '=' :: rest =>
      let (v, rest) ← value? fuel (skipPlainBlanks rest)
      let members := Table.place name v members
      match rest with
      | ',' :: rest => members? fuel members rest
      | '\x7d' :: rest => return (members, rest)
      | _ => none
    | _ => none

end

/-- What a variable's value stands for. -/
def variableValue (value : String) : Tree :=
  let s := value.toList
  match value? (2 * s.length + 2) s with
  | some (v, []) => v
  | _ => .text value

/-! ### The whole environment -/

/-- The settings of an environment; of two variables for one setting the later counts. -/
def ofEnvironment (env : List (String × String)) : Tree :=
  .group (env.foldl (fun members e =>
    match variablePath? e.1 with
    | some path =>
      match Tree.nest path (variableValue e.2) with
      | .group ms => Tree.overlayMembers members ms
      | _ => members
    | none => members) [])

end Gatehouse.Settings
