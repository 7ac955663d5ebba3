import Gatehouse.Toml.Value

/-! TOML documents.

A document is a sequence of statements, one a line: headers, which open a table or a
further table of an array, and assignments, which add to the table opened last. Read
one after the other, they make one tree of settings, or none if a line is no
statement or if one contradicts those before it. -/
namespace Gatehouse.Toml
open Settings

/-- A statement. -/
inductive Statement where
  | table (path : List String) (key : String)
  | row (path : List String) (key : String)
  | assignment (assignment : Assignment)

/-- A statement and the characters after its key or value. -/
def statement? (s : List Char) : Option (Statement × List Char) :=
  match s with
  | '[' :: '[' :: rest => do
    let ((path, key), rest) ← key? rest
    return (.row path key, ← word? [']', ']'] rest)
  | '[' :: rest => do
    let ((path, key), rest) ← key? rest
    return (.table path key, ← word? [']'] rest)
  | s => (assignment? (3 * s.length + 3) depthLimit s).map fun (a, rest) => (.assignment a, rest)

/-- The statements of a text; each takes up its line, and the fuel counts lines. -/
def statements? : Nat → List Char → Option (List Statement)
  | 0, _ => none
  | fuel + 1, s =>
    match skipSpaces s with
    | [] => some []
    | c :: rest =>
      if c = '#' ∨ c = '\n' ∨ c = '\r' then do
        statements? fuel (← lineEnd? (c :: rest))
      else do
        let (statement, rest) ← statement? (c :: rest)
        return statement :: (← statements? fuel (← lineEnd? rest))

/-- The tables read so far, and the path to the one opened last. -/
structure Progress where
  entries : Entries := []
  current : List String := []

/-- Follows a statement. -/
def Progress.next? (p : Progress) : Statement → Option Progress
  | .table path key => do
    return ⟨← p.entries.openTable path key, path ++ [key]⟩
  | .row path key => do
    return ⟨← p.entries.openRow path key, path ++ [key]⟩
  | .assignment a => do
    let es ← Entries.within .implied (fun _ es => Entries.assign a.path a.key a.value es)
      p.current .declared p.entries
    return { p with entries := es }

/-- The settings of a TOML document; a byte order mark before it is passed over. -/
def document? (text : String) : Option Tree := do
  let s := match text.toList with
    | '\ufeff' :: rest => rest
    | s => s
  let statements ← statements? (s.length + 1) s
  let p ← statements.foldlM Progress.next? {}
  return .group (Node.members p.entries)

end Gatehouse.Toml
