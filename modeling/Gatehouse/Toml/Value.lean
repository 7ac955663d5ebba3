import Gatehouse.Toml.Moment
import Gatehouse.Toml.Number
import Gatehouse.Toml.Section

/-! Values of a TOML document. -/
namespace Gatehouse.Toml
open Settings

/-- What is left after a word. -/
def word? : List Char → List Char → Option (List Char)
  | [], s => some s
  | c :: word, d :: s => if c = d then word? word s else none
  | _ :: _, [] => none

/-- A value that is neither an array nor an inline table. -/
def scalar? (s : List Char) : Option (Tree × List Char) :=
  match s with
  | 't' :: _ => (word? ['t', 'r', 'u', 'e'] s).map (.bool true, ·)
  | 'f' :: _ => (word? ['f', 'a', 'l', 's', 'e'] s).map (.bool false, ·)
  | c :: _ =>
    if c = '"' ∨ c = apostrophe then (quoted? s).map fun (t, rest) => (.text t, rest)
    else (moment? s).or (number? s)
  | [] => none

/-- A dotted key and its value. -/
structure Assignment where
  path : List String
  key : String
  value : Tree

/-- The table of some assignments. -/
def tabled? (assignments : List Assignment) : Option Tree := do
  let es ← assignments.foldlM (fun es (a : Assignment) => Entries.assign a.path a.key a.value es) []
  return .group (Node.members es)

mutual

/-- A value with at most `room` levels of arrays and inline tables; the fuel counts
steps. -/
def value? : Nat → Nat → List Char → Option (Tree × List Char)
  | 0, _, _ => none
  | fuel + 1, room, s =>
    match s, room with
    | '[' :: rest, room + 1 => (items? fuel room rest).map fun (vs, rest) => (.list vs, rest)
    | '[' :: _, 0 => none
    | '\x7b' :: rest, room + 1 => do
      match skipSpaces rest with
      | '\x7d' :: rest => return (.group [], rest)
      | rest =>
        let (assignments, rest) ← assignments? fuel room rest
        return (← tabled? assignments, rest)
    | '\x7b' :: _, 0 => none
    | s, _ => scalar? s

/-- The elements of an array up to its closing bracket; a comma may stand after the
last. -/
def items? : Nat → Nat → List Char → Option (List Tree × List Char)
  | 0, _, _ => none
  | fuel + 1, room, s => do
    match ← skipGap false s with
    | ']' :: rest => return ([], rest)
    | s =>
      let (v, rest) ← value? fuel room s
      match ← skipGap false rest with
      | ']' :: rest => return ([v], rest)
      | ',' :: rest =>
        let (vs, rest) ← items? fuel room rest
        return (v :: vs, rest)
      | _ => none

/-- A key, its value, and what follows. -/
def assignment? : Nat → Nat → List Char → Option (Assignment × List Char)
  | 0, _, _ => none
  | fuel + 1, room, s => do
    let ((path, key), rest) ← key? s
    match rest with
    | '=' :: rest =>
      let (v, rest) ← value? fuel room (skipSpaces rest)
      return (⟨path, key, v⟩, rest)
    | _ => none

/-- The assignments of an inline table, of which there is at least one, up to its
closing brace. -/
def assignments? : Nat → Nat → List Char → Option (List Assignment × List Char)
  | 0, _, _ => none
  | fuel + 1, room, s => do
    let (a, rest) ← assignment? fuel room s
    match skipSpaces rest with
    | '\x7d' :: rest => return ([a], rest)
    | ',' :: rest =>
      let (more, rest) ← assignments? fuel room rest
      return (a :: more, rest)
    | _ => none

end

end Gatehouse.Toml
