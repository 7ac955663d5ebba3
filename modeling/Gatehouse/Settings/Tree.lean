import Gatehouse.Json.Draft
import Gatehouse.Table

/-! Trees of settings, as a file or the environment gives them, and how one is laid
over another.

A layer says something about some settings and nothing about the others. Laid over
another layer, it replaces what it speaks of and leaves the rest: groups are merged
member by member, and everything else is replaced as a whole (`overlay`). A member
that the upper layer does not name is found as it was below
(`lookup_overlayMembers`). -/
namespace Gatehouse.Settings

/-- A value of settings; the members of a group are in ascending order of their names. -/
inductive Tree where
  | absent
  | bool (value : Bool)
  | int (value : Int)
  /-- A number with a fraction or an exponent. No setting is one, so which number it
  is need not be known. -/
  | fractional
  | text (value : String)
  | letter (value : Char)
  | list (items : List Tree)
  | group (members : List (String × Tree))
  deriving Inhabited

namespace Tree

/-- The member of a name. -/
def lookup (name : String) (members : List (String × Tree)) : Option Tree :=
  (members.find? (·.1 == name)).map (·.2)

mutual

/-- A tree with another laid over it. -/
def overlay (low : Tree) : Tree → Tree
  | group high =>
    match low with
    | group members => group (overlayMembers members high)
    | _ => group high
  | high => high

/-- Members with others laid over them. -/
def overlayMembers (low : List (String × Tree)) : List (String × Tree) → List (String × Tree)
  | [] => low
  | (name, high) :: rest =>
    let value := match lookup name low with
      | some value => overlay value high
      | none => high
    overlayMembers (Table.place name value low) rest

end

/-- A value at the end of a path of groups. -/
def nest : List String → Tree → Tree
  | [], value => value
  | name :: path, value => group [(name, nest path value)]

mutual

/-- A JSON value as a tree. -/
def ofJson : Json → Tree
  | .null => absent
  | .bool b => bool b
  | .int n => int n
  | .float _ => fractional
  | .str s => text s
  | .arr items => list (ofItems items)
  | .obj members => group (ofMembers members [])

/-- JSON values as trees. -/
def ofItems : List Json → List Tree
  | [] => []
  | v :: rest => ofJson v :: ofItems rest

/-- The members of a JSON object among members already read. -/
def ofMembers : List (String × Json) → List (String × Tree) → List (String × Tree)
  | [], members => members
  | (name, v) :: rest, members => ofMembers rest (Table.place name (ofJson v) members)

end

mutual

/-- A tree as a draft, to be read as a typed value. -/
def toDraft : Tree → Json.Draft
  | absent => .null
  | bool b => .bool b
  | int n => .int n
  | fractional => .float 0
  | text s => .str (.ok s)
  | letter c => .letter c
  | list items => .arr (toItems items) .closed
  | group members => .obj (toMembers members) .closed

/-- Trees as drafts. -/
def toItems : List Tree → List Json.Draft
  | [] => []
  | v :: rest => v.toDraft :: toItems rest

/-- Members as drafts. -/
def toMembers : List (String × Tree) → List (Except Json.Fault String × Json.Draft)
  | [] => []
  | (name, v) :: rest => (.ok name, v.toDraft) :: toMembers rest

end

/-- What a layer does not name stays as it was. -/
theorem lookup_overlayMembers {name : String} {high : List (String × Tree)} :
    ∀ {low : List (String × Tree)}, (∀ e ∈ high, e.1 ≠ name) →
      lookup name (overlayMembers low high) = lookup name low := by
  induction high with
  | nil => intro low _; simp [overlayMembers]
  | cons e rest ih =>
    intro low h
    obtain ⟨key, value⟩ := e
    simp only [overlayMembers]
    rw [ih fun e he => h e (List.mem_cons_of_mem _ he)]
    have hne : name ≠ key := Ne.symm (h (key, value) List.mem_cons_self)
    simp only [lookup, Table.find?_place_ne hne]

end Tree

end Gatehouse.Settings
