import Gatehouse.Store.Script
import Mathlib.Logic.Function.Basic

/-! Endless scripts.

A script of queues ends, and its calls are then served. Here every operation has a turn
for each of its calls, however many they are, so that a statement about all `Turns` is one
about all scripts, those that never end included. A script of queues is the special case
`ofScript`. -/
namespace Gatehouse.Store

/-- What becomes of the calls of each operation, first to last, by the operation's name. -/
abbrev Turns : Type := String → Nat → Turn

namespace Turns

/-- The turns that are left once an operation was called. -/
def after (turns : Turns) (operation : String) : Turns :=
  Function.update turns operation fun n => turns operation (n + 1)

/-- The turns of a script of queues. -/
def ofScript (script : Script) : Turns := fun operation n =>
  ((script.find? operation).getD []).getD n .served

/-- Every call is answered: where calls have no limit of time, none hangs. -/
def Answered (limit : Option Nat) (turns : Turns) : Prop :=
  limit = none → ∀ operation n, turns operation n ≠ .hangs

theorem Answered.after {limit : Option Nat} {turns : Turns} (h : turns.Answered limit)
    (operation : String) : (turns.after operation).Answered limit := by
  intro hlimit other n
  by_cases ho : other = operation
  · subst ho
    simp only [Turns.after, Function.update_self]
    exact h hlimit other (n + 1)
  · simp only [Turns.after, Function.update_of_ne ho]
    exact h hlimit other n

/-! ### Drawing from a script of queues -/

section Draw
variable (script : Script) (operation : String)

/-- An operation without a queue, or with an empty one, is served. -/
theorem ofScript_spent (h : ∀ t rest, script.find? operation = some (t :: rest) → False) (n : Nat) :
    ofScript script operation n = .served := by
  rw [ofScript]
  cases hs : script.find? operation with
  | none => rfl
  | some queue =>
    cases queue with
    | nil => rfl
    | cons t rest => exact (h t rest hs).elim

theorem draw_turn : (script.draw operation).1 = ofScript script operation 0 := by
  rw [Script.draw]
  split
  · next h =>
    rw [ofScript, h]
    rfl
  · next h => exact (ofScript_spent script operation h 0).symm

theorem draw_rest : ofScript (script.draw operation).2 = (ofScript script).after operation := by
  funext other n
  rw [Script.draw]
  by_cases ho : other = operation
  · subst ho
    simp only [after, Function.update_self]
    split
    · next h =>
      simp only [ofScript, h, Table.find?_insert_self]
      rfl
    · next h => rw [ofScript_spent script other h, ofScript_spent script other h]
  · simp only [after, Function.update_of_ne ho]
    split
    · simp only [ofScript, Table.find?_insert_ne _ ho]
    · rfl

end Draw

end Turns

end Gatehouse.Store
