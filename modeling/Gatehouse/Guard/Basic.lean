import Gatehouse.Audit.Reported
import Gatehouse.Counter.Engine

/-! What guards do: they ask the store of counters, and end with a result and with
reports for the audit trail. -/
namespace Gatehouse.Guard

open Counter (Calls)

/-- A guard's action. -/
abbrev Action (α : Type) : Type := Calls (Audit.Reported α)

namespace Action
variable {α : Type}

/-- An action that asks nothing. -/
def of (a : α) : Action α := .done ⟨.ok a, []⟩

/-- Calls of the engine, and what is reported about their result. -/
def reporting {β : Type} (calls : Calls (Except Store.Error β)) (result : β → Except Failure α)
    (reports : β → List Audit.Report) : Action α :=
  calls.bind fun
    | .error e => .done ⟨.error (.ofStore e), []⟩
    | .ok b => .done ⟨result b, reports b⟩

/-- Calls of the engine about which nothing is reported. -/
def quiet (calls : Calls (Except Store.Error α)) : Action α := reporting calls .ok fun _ => []

/-- Goes on with a result, if there is one. -/
def andThen {β : Type} (action : Action α) (next : α → Except Failure β) : Action β :=
  action.bind fun o => .done ⟨o.result.bind next, o.reports⟩

end Action

/-- A refusal of a decision as a failure. -/
def granted (d : Counter.Decision) : Except Failure Counter.Decision :=
  if d.allowed then .ok d
  else .error (.attemptLimitReached d.attempts d.maxAttempts d.retryAfterSecs)

/-- Whether a decision is the one by which the threshold was reached. -/
def reachesThreshold (d : Counter.Decision) : Bool := !d.allowed && d.attempts == d.maxAttempts

/-- A report about the subject of a criteria. -/
def reportOn (kind : Audit.Kind) (who : Criteria) : Audit.Report :=
  ((Audit.Report.of kind who.subject).withReference who.reference).withClient who.client

end Gatehouse.Guard
