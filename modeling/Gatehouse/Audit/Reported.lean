import Gatehouse.Audit.Event
import Gatehouse.Failure

/-! Results with reports: what an action came to, and what the audit trail is told. -/
namespace Gatehouse.Audit

/-- The end of an action: its result, and reports for the audit trail. -/
structure Reported (α : Type) where
  result : Except Failure α
  reports : List Report := []
  deriving Inhabited

end Gatehouse.Audit
