/-! What can be wrong with a text or a tree of values that is read as a typed
value. -/
namespace Gatehouse.Json

/-- How a well-formed value differs from the one wanted. -/
inductive Mismatch where
  | invalidType
  | invalidValue
  | invalidLength
  | unknownVariant
  | missingField
  | duplicateField
  deriving DecidableEq, Repr, Inhabited

/-- Why reading fails: the text is no JSON, it ends early, or what it says is not of
the type wanted at the place that `path` leads to. -/
inductive Fault where
  | malformed
  | truncated
  | mismatch (kind : Mismatch) (path : List String)
  deriving DecidableEq, Repr, Inhabited

namespace Fault

/-- A fault found below a member or an element. -/
def below (step : String) : Fault → Fault
  | mismatch kind path => mismatch kind (step :: path)
  | f => f

/-- A fault told without saying where below the present place it was found. -/
def withoutPath : Fault → Fault
  | mismatch kind _ => mismatch kind []
  | f => f

end Fault

end Gatehouse.Json
