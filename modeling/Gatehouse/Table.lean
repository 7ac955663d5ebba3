/-! Tables: finitely many values, each under a text of its own, kept in the order
of the texts. Whatever is done under one key leaves what stands under every other
key as it was (`find?_insert_ne`, `find?_erase_ne`), and a key answers with what
was last put under it (`find?_insert_self`). -/
namespace Gatehouse

/-- Values by text, in ascending order of the texts. -/
structure Table (α : Type) where
  toList : List (String × α) := []
  deriving DecidableEq, Repr, Inhabited

namespace Table
variable {α β : Type}

/-- No entries. -/
def empty : Table α := ⟨[]⟩

/-- What stands under a key. -/
def find? (t : Table α) (key : String) : Option α := (t.toList.find? (·.1 == key)).map (·.2)

/-- Whether anything stands under a key. -/
def contains (t : Table α) (key : String) : Bool := (t.find? key).isSome

/-- How many entries there are. -/
def size (t : Table α) : Nat := t.toList.length

/-- Whether there are no entries. -/
def isEmpty (t : Table α) : Bool := t.toList.isEmpty

/-- Puts an entry at its place among ordered entries, over one of the same key. -/
def place (key : String) (value : α) : List (String × α) → List (String × α)
  | [] => [(key, value)]
  | (k, v) :: rest =>
    if k = key then (key, value) :: rest
    else if key < k then (key, value) :: (k, v) :: rest
    else (k, v) :: place key value rest

/-- Puts a value under a key, in place of what stood there. -/
def insert (t : Table α) (key : String) (value : α) : Table α := ⟨place key value t.toList⟩

/-- Removes what stands under a key. -/
def erase (t : Table α) (key : String) : Table α := ⟨t.toList.filter (·.1 != key)⟩

/-- Keeps the entries whose value passes a test. -/
def keep (t : Table α) (test : α → Bool) : Table α := ⟨t.toList.filter fun e => test e.2⟩

/-- The values, in the order of their keys. -/
def values (t : Table α) : List α := t.toList.map (·.2)

/-- The table of a list of entries; of two with one key the later stands. -/
def ofList (entries : List (String × α)) : Table α :=
  entries.foldl (fun t e => t.insert e.1 e.2) empty

/-- Applies a function to every value. -/
def mapValues (t : Table α) (f : α → β) : Table β := ⟨t.toList.map fun e => (e.1, f e.2)⟩

theorem find?_empty (key : String) : (empty : Table α).find? key = none := rfl

theorem find?_place_self (key : String) (value : α) (l : List (String × α)) :
    (place key value l).find? (·.1 == key) = some (key, value) := by
  induction l with
  | nil => simp [place]
  | cons e rest ih =>
    obtain ⟨k, v⟩ := e
    by_cases h : k = key
    · simp [place, h]
    · by_cases hlt : key < k <;> simp [place, h, hlt, ih]

/-- What is put among entries is the only new one. -/
theorem mem_place {key : String} {value : α} {e : String × α} {l : List (String × α)}
    (h : e ∈ place key value l) : e = (key, value) ∨ e ∈ l := by
  induction l with
  | nil => exact .inl (List.mem_singleton.mp h)
  | cons e' rest ih =>
    obtain ⟨k, v⟩ := e'
    simp only [place] at h
    split at h
    · rcases List.mem_cons.mp h with rfl | hrest
      · exact .inl rfl
      · exact .inr (List.mem_cons_of_mem _ hrest)
    · split at h
      · exact List.mem_cons.mp h
      · rcases List.mem_cons.mp h with rfl | hrest
        · exact .inr List.mem_cons_self
        · exact (ih hrest).imp_right (List.mem_cons_of_mem _)

/-- A key answers with what was last put under it. -/
theorem find?_insert_self (t : Table α) (key : String) (value : α) :
    (t.insert key value).find? key = some value := by
  simp [find?, insert, find?_place_self]

theorem find?_place_ne {key other : String} (h : other ≠ key) (value : α) (l : List (String × α)) :
    (place key value l).find? (·.1 == other) = l.find? (·.1 == other) := by
  have h' : (key == other) = false := beq_eq_false_iff_ne.2 (Ne.symm h)
  induction l with
  | nil => simp [place, h']
  | cons e rest ih =>
    obtain ⟨k, v⟩ := e
    by_cases hk : k = key
    · subst hk; simp [place, h']
    · by_cases hlt : key < k
      · simp [place, hk, hlt, h']
      · by_cases hko : k = other
        · subst hko; simp [place, h, hlt]
        · simp [place, hk, hlt, hko, ih]

/-- Putting a value under one key changes no other. -/
theorem find?_insert_ne (t : Table α) {key other : String} (h : other ≠ key) (value : α) :
    (t.insert key value).find? other = t.find? other := by
  simp [find?, insert, find?_place_ne h]

/-- Nothing is left under an erased key. -/
theorem find?_erase_self (t : Table α) (key : String) : (t.erase key).find? key = none := by
  simp [find?, erase]

/-- Erasing one key changes no other. -/
theorem find?_erase_ne (t : Table α) {key other : String} (h : other ≠ key) :
    (t.erase key).find? other = t.find? other := by
  simp only [find?, erase, List.find?_filter]
  congr 2
  funext e
  by_cases he : e.1 = other <;> simp [he, h]

end Table

end Gatehouse
