import Gatehouse.Counter.Store

/-! Stores in memory: what a key answers with after a write, and what runs over them.

Every record of a store stands under the storage key of its own key (`Keyed`): a store
begins without records, a write files a record under its own key, and nothing else puts
records there. So a record that is found under a key and written back goes where it was
found. -/
namespace Gatehouse.Counter

namespace Memory

/-- Runs calls over a store in memory, where nothing goes wrong. -/
def run {α : Type} (s : Memory) (calls : Calls α) : α × Memory :=
  Store.Program.run answer calls s

/-- The store whose only record is the given one. -/
def single (r : Record) : Memory := ⟨⟨[(r.key.storageKey, r)]⟩⟩

/-- Every record stands under its own storage key. -/
def Keyed (s : Memory) : Prop := ∀ e ∈ s.records.toList, e.2.key.storageKey = e.1

section Run
variable {α β : Type} (s : Memory)

theorem run_done (a : α) : s.run (.done a) = (a, s) := rfl

theorem run_ask (r : Request) (next : r.Answer → Calls α) :
    s.run (.ask r next) = (answer r s).2.run (next (answer r s).1) := rfl

theorem run_bind (calls : Calls α) (f : α → Calls β) :
    s.run (calls.bind f) = (s.run calls).2.run (f (s.run calls).1) := by
  show Store.Program.run answer (calls.bind f) s = _
  rw [Store.Program.run_bind]
  rfl

end Run

/-! ### What a key answers with -/

theorem find?_empty (k : Key) : ({} : Memory).find? k = none := rfl

theorem find?_put (s : Memory) {k : Key} {r : Record} (h : k.storageKey = r.key.storageKey) :
    (s.put r).find? k = some r := by
  show (s.records.insert r.key.storageKey r).find? k.storageKey = some r
  rw [h]
  exact Table.find?_insert_self _ _ _

theorem find?_put_ne (s : Memory) {k : Key} {r : Record} (h : k.storageKey ≠ r.key.storageKey) :
    (s.put r).find? k = s.find? k := Table.find?_insert_ne _ h _

theorem find?_erase (s : Memory) (k : Key) : (s.erase k).find? k = none :=
  Table.find?_erase_self _ _

theorem find?_erase_ne (s : Memory) {k other : Key} (h : other.storageKey ≠ k.storageKey) :
    (s.erase k).find? other = s.find? other := Table.find?_erase_ne _ h

/-- What is found depends on the storage key alone. -/
theorem find?_congr (s : Memory) {k k' : Key} (h : k.storageKey = k'.storageKey) :
    s.find? k = s.find? k' := congrArg s.records.find? h

theorem find?_single (r : Record) : (single r).find? r.key = some r := by
  simp [find?, single, Table.find?]

section Single
variable {r r' : Record}

theorem put_single (h : r'.key = r.key) : (single r).put r' = single r' := by
  simp [put, single, Table.insert, Table.place, h]

theorem answer_create_single (h : r'.key = r.key) :
    answer (.write .create r') (single r) =
      (.error (.alreadyExists entityType r'.key.storageKey), single r) := by
  refine if_pos ?_
  rw [h, find?_single]
  rfl

theorem answer_update_single (h : r'.key = r.key) :
    answer (.write .update r') (single r) = (.ok r', single r') := by
  rw [← put_single h]
  refine if_pos ?_
  rw [h, find?_single]
  rfl

end Single

/-! ### Records stand under their own keys -/

theorem keyed_empty : Keyed {} := fun _ h => by cases h

theorem Keyed.find? {s : Memory} (hs : s.Keyed) {k : Key} {r : Record} (h : s.find? k = some r) :
    r.key.storageKey = k.storageKey := by
  obtain ⟨e, he, rfl⟩ := Option.map_eq_some_iff.mp h
  have hkey := List.find?_some he
  rw [hs e (List.mem_of_find?_eq_some he)]
  exact eq_of_beq hkey

theorem Keyed.put {s : Memory} (hs : s.Keyed) (r : Record) : (s.put r).Keyed := by
  intro e he
  rcases Table.mem_place he with rfl | he
  · rfl
  · exact hs e he

theorem Keyed.erase {s : Memory} (hs : s.Keyed) (k : Key) : (s.erase k).Keyed :=
  fun e he => hs e (List.mem_filter.mp he).1

theorem Keyed.purge {s : Memory} (hs : s.Keyed) (now : Instant) : (s.purge now).Keyed :=
  fun e he => hs e (List.mem_filter.mp he).1

/-- No request leaves a record under another's key. -/
theorem Keyed.answer {s : Memory} (hs : s.Keyed) (r : Request) : (Memory.answer r s).2.Keyed := by
  cases r with
  | find k => exact hs
  | write mode r =>
    cases mode <;> simp only [Memory.answer]
    · split
      · exact hs
      · exact hs.put r
    · split
      · exact hs.put r
      · exact hs
  | delete k => exact hs.erase k

end Memory

end Gatehouse.Counter
