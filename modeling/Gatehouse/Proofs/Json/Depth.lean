import Gatehouse.Json.Draft
import Gatehouse.Proofs.Json.Draft
import Gatehouse.Proofs.Table

/-! How deep a value goes, and what is left of it where only so many levels may be read.

A value read without a type is read whole, its members put in the order of their keys, if it
goes no deeper than there is room for, and else not at all (`toJson_ofJson`). A value whose
members are in order already comes back as it was (`Canonical.normal_eq`). -/
namespace Gatehouse.Json

mutual

/-- How many arrays and objects of a value lie within each other at most. -/
def depth : Json → Nat
  | .arr items => depthItems items + 1
  | .obj members => depthMembers members + 1
  | _ => 0

/-- The depth of the deepest element. -/
def depthItems : List Json → Nat
  | [] => 0
  | v :: rest => max v.depth (depthItems rest)

/-- The depth of the deepest member. -/
def depthMembers : List (String × Json) → Nat
  | [] => 0
  | (_, v) :: rest => max v.depth (depthMembers rest)

end

theorem depthMembers_le_iff {members : List (String × Json)} {n : Nat} :
    depthMembers members ≤ n ↔ ∀ e ∈ members, e.2.depth ≤ n := by
  induction members with
  | nil => simp [depthMembers]
  | cons e rest ih =>
    rw [List.forall_mem_cons, ← ih]
    exact Nat.max_le

mutual

/-- A value with its members in the order of their keys; of members with one key the last
stands. -/
def normal : Json → Json
  | .arr items => .arr (normalItems items)
  | .obj members => .obj (normalMembers members [])
  | v => v

/-- Elements with their members in order. -/
def normalItems : List Json → List Json
  | [] => []
  | v :: rest => v.normal :: normalItems rest

/-- Puts members among members in order. -/
def normalMembers : List (String × Json) → List (String × Json) → List (String × Json)
  | [], ms => ms
  | (key, v) :: rest, ms => normalMembers rest (Table.place key v.normal ms)

end

/-- Values without floating-point numbers as a reader makes them: each number fits 64 bits, and
members stand in ascending order of their keys. -/
inductive Canonical : Json → Prop where
  | null : Canonical null
  | bool (b : Bool) : Canonical (bool b)
  | int {n : Int} (hlow : -Nat.pow 2 63 ≤ n) (hhigh : n < Nat.pow 2 64) : Canonical (int n)
  | str (s : String) : Canonical (str s)
  | arr {items : List Json} (h : ∀ v ∈ items, Canonical v) : Canonical (arr items)
  | obj {members : List (String × Json)} (ordered : members.Pairwise (·.1 < ·.1))
    (h : ∀ e ∈ members, Canonical e.2) : Canonical (obj members)

theorem Canonical.exact {v : Json} (h : Canonical v) : Exact v := by
  induction h with
  | null => exact .null
  | bool b => exact .bool b
  | int hlow hhigh => exact .int hlow hhigh
  | str s => exact .str s
  | arr _ ih => exact .arr ih
  | obj _ _ ih => exact .obj ih

/-! ### Values in order -/

theorem normalItems_eq {items : List Json} (h : ∀ v ∈ items, v.normal = v) :
    normalItems items = items := by
  induction items with
  | nil => rfl
  | cons v rest ih =>
    obtain ⟨hv, hrest⟩ := List.forall_mem_cons.mp h
    rw [normalItems, hv, ih hrest]

theorem normalMembers_eq {members : List (String × Json)} (h : ∀ e ∈ members, e.2.normal = e.2)
    (ms : List (String × Json)) (ordered : (ms ++ members).Pairwise (·.1 < ·.1)) :
    normalMembers members ms = ms ++ members := by
  induction members generalizing ms with
  | nil => exact (List.append_nil ms).symm
  | cons e rest ih =>
    obtain ⟨key, v⟩ := e
    obtain ⟨hv, hrest⟩ := List.forall_mem_cons.mp h
    have hlast : ∀ e ∈ ms, e.1 < key := fun e he =>
      (List.pairwise_append.mp ordered).2.2 e he (key, v) List.mem_cons_self
    rw [List.append_cons] at ordered ⊢
    rw [normalMembers, show v.normal = v from hv, Table.place_of_forall_lt v hlast,
      ih hrest _ ordered]

/-- A value in order comes back as it was. -/
theorem Canonical.normal_eq {v : Json} (h : Canonical v) : v.normal = v := by
  induction h with
  | arr _ ih => rw [normal, normalItems_eq ih]
  | obj ordered _ ih => rw [normal, normalMembers_eq ih [] ordered, List.nil_append]
  | _ => rfl

/-! ### Values read without a type -/

namespace Draft

/-- What is read of a value where there is room for so many levels. -/
def within (room : Nat) (v : Json) : Except Fault Json :=
  if v.depth ≤ room then .ok v.normal else .error .malformed

theorem toItems_ofItems {room : Nat} {items : List Json}
    (h : ∀ v ∈ items, toJson room (ofJson v) = within room v) :
    toItems room (ofItems items) =
      if depthItems items ≤ room then .ok (normalItems items) else .error .malformed := by
  induction items with
  | nil => rw [depthItems, if_pos (Nat.zero_le room)]; rfl
  | cons v rest ih =>
    obtain ⟨hv, hrest⟩ := List.forall_mem_cons.mp h
    rw [ofItems, toItems, hv, ih hrest, within]
    simp only [depthItems, normalItems, Nat.max_le]
    by_cases hdepth : v.depth ≤ room <;> by_cases hdepths : depthItems rest ≤ room <;>
      simp [hdepth, hdepths, bind, Except.bind, pure, Except.pure]

theorem toMembers_ofMembers {room : Nat} {members : List (String × Json)}
    (h : ∀ e ∈ members, toJson room (ofJson e.2) = within room e.2) (ms : List (String × Json)) :
    toMembers room (ofMembers members) ms =
      if depthMembers members ≤ room then .ok (normalMembers members ms)
      else .error .malformed := by
  induction members generalizing ms with
  | nil => rw [depthMembers, if_pos (Nat.zero_le room)]; rfl
  | cons e rest ih =>
    obtain ⟨key, v⟩ := e
    obtain ⟨hv, hrest⟩ := List.forall_mem_cons.mp h
    simp only [ofMembers, toMembers, bind, Except.bind]
    rw [show toJson room (ofJson v) = within room v from hv, within]
    simp only [depthMembers, normalMembers, Nat.max_le]
    by_cases hdepth : v.depth ≤ room
    · simp only [hdepth, if_true, true_and, ih hrest]
    · simp only [hdepth, if_false, false_and]

/-- A value is read whole if there is room for its levels, and else not at all. -/
theorem toJson_ofJson (room : Nat) (v : Json) : toJson room (ofJson v) = within room v := by
  induction v using Json.induction generalizing room with
  | arr items ih =>
    cases room with
    | zero => rfl
    | succ room =>
      rw [ofJson, toJson, toItems_ofItems fun v hv => ih v hv room, within, depth]
      simp only [Nat.add_le_add_iff_right]
      split <;> rfl
  | obj members ih =>
    cases room with
    | zero => rfl
    | succ room =>
      rw [ofJson, toJson, toMembers_ofMembers fun e he => ih e he room, within, depth]
      simp only [Nat.add_le_add_iff_right]
      split <;> rfl
  | _ => cases room <;> rfl

end Draft

end Gatehouse.Json
