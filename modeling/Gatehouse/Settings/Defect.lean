import Gatehouse.Credential.Cost

/-! What can be wrong with settings that are otherwise of the right form. -/
namespace Gatehouse.Settings

/-- A defect of settings, and where it is. -/
inductive Defect where
  /-- A number that must be positive is not. -/
  | notPositive (field : String)
  /-- A text that must say something is empty. -/
  | isEmpty (field : String)
  /-- A text that must be one word has white space. -/
  | hasBlank (field : String)
  /-- A cost that cannot be used. -/
  | cost (problem : Credential.CostProblem)
  /-- A defect of one section. -/
  | inSection (name : String) (defect : Defect)
  /-- A defect below a table. -/
  | under (name : String) (defect : Defect)
  deriving DecidableEq, Repr, Inhabited

namespace Defect

/-- A defect in words. -/
def message : Defect → String
  | notPositive field => field ++ " must be greater than 0"
  | isEmpty field => field ++ " must not be empty"
  | hasBlank field => field ++ " must not contain whitespace"
  | cost problem => "invalid Argon2 parameters: " ++ problem.message
  | inSection name d => name ++ ": " ++ d.message
  | under name d => name ++ "." ++ d.message

end Defect

/-- The outcome of checking settings. -/
abbrev Check : Type := Except Defect Unit

/-- Requires a condition. -/
def require (condition : Bool) (otherwise : Defect) : Check :=
  if condition then .ok () else .error otherwise

end Gatehouse.Settings
