import Gatehouse.Settings.Tree

/-! Tables of a TOML document while it is being read.

A table comes into being by its own header, by the header of a table below it, or by
a dotted key, and may be defined only once (`Origin`). Every statement of a document
changes one table, to which a path leads (`within`): a header opens it, and an
assignment adds a key to it. -/
namespace Gatehouse.Toml
open Settings

/-- How a table came into being. -/
inductive Origin where
  /-- By its own header; the whole document is such a table. -/
  | declared
  /-- By the header of a table below it. Its own header may follow. -/
  | implied
  /-- By a dotted key. Others may add to it. -/
  | dotted
  deriving DecidableEq, Repr

/-- What stands under a key: a value, a table, or an array of tables, of which the
latest comes first. -/
inductive Node where
  | value (tree : Tree)
  | table (origin : Origin) (entries : List (String × Node))
  | tables (rows : List (List (String × Node)))

/-- Keys and what stands under them. -/
abbrev Entries : Type := List (String × Node)

namespace Entries

/-- What stands under a key. -/
def lookup (key : String) (es : Entries) : Option Node := (es.find? (·.1 == key)).map (·.2)

/-- Changes the table to which a path leads, the latest of an array of tables. Tables
on the way that are not there come into being as `how`; a dotted key leads through no
table with a header of its own. -/
def within (how : Origin) (change : Origin → Entries → Option Entries) :
    List String → Origin → Entries → Option Entries
  | [], origin, es => change origin es
  | key :: path, _, es =>
    match lookup key es with
    | none => do
      let inner ← within how change path how []
      return Table.place key (.table how inner) es
    | some (.value _) => none
    | some (.tables []) => none
    | some (.tables (last :: rows)) => do
      let inner ← within how change path .declared last
      return Table.place key (.tables (inner :: rows)) es
    | some (.table origin inner) =>
      if how = .dotted ∧ origin = .declared then none
      else do
        let inner ← within how change path origin inner
        return Table.place key (.table origin inner) es

/-- Puts a value under a new key of the table that a dotted key leads to; this must
not be one that a header opened. -/
def assign (path : List String) (key : String) (value : Tree) (es : Entries) : Option Entries :=
  within .dotted (fun origin es =>
    if ¬ path.isEmpty ∧ origin ≠ .dotted then none
    else if (lookup key es).isSome then none
    else some (Table.place key (.value value) es)) path .declared es

/-- Opens a table, which must be new but for tables below it. -/
def openTable (path : List String) (key : String) (es : Entries) : Option Entries :=
  within .implied (fun _ es =>
    match lookup key es with
    | none => some (Table.place key (.table .declared []) es)
    | some (.table .implied inner) => some (Table.place key (.table .declared inner) es)
    | _ => none) path .declared es

/-- Opens a further table of an array of tables. -/
def openRow (path : List String) (key : String) (es : Entries) : Option Entries :=
  within .implied (fun _ es =>
    match lookup key es with
    | none => some (Table.place key (.tables [[]]) es)
    | some (.tables rows) => some (Table.place key (.tables ([] :: rows)) es)
    | _ => none) path .declared es

end Entries

mutual

/-- What stands under a key as settings. -/
def Node.toTree : Node → Tree
  | .value tree => tree
  | .table _ entries => .group (Node.members entries)
  | .tables rows => .list (Node.rows rows).reverse

/-- Entries as members. -/
def Node.members : List (String × Node) → List (String × Tree)
  | [] => []
  | (key, node) :: rest => (key, node.toTree) :: Node.members rest

/-- The tables of an array of tables, in the order given. -/
def Node.rows : List (List (String × Node)) → List Tree
  | [] => []
  | entries :: rest => .group (Node.members entries) :: Node.rows rest

end

end Gatehouse.Toml
