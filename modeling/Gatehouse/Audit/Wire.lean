import Gatehouse.Audit.Event
import Gatehouse.Counter.Wire

/-! Events of the audit trail as JSON. -/
namespace Gatehouse

open Json Json.Codec

/-- Identifiers, as texts. -/
def Uuid.codec : Codec Uuid where
  encode u := .str u.toText
  read m room d := do
    match Uuid.ofText? (← string.read m room d) with
    | some u => .ok u
    | none => .error Mismatch.invalidValue.fault

namespace Audit

/-- Kinds of event, by name; the application's own carry theirs. -/
def Kind.codec : Codec Kind :=
  variant
    (fun
      | .custom name => .obj [("custom", .str name)]
      | k => .str k.name)
    (named.map (fun k => (k.name, .plain k)) ++ [("custom", .texted custom)])

/-- Outcomes, by name. -/
def Outcome.codec : Codec Outcome := choice name [success, failure]

/-- Severities, by name. -/
def Severity.codec : Codec Severity := choice name [error, warning, notice, informational]

/-- A field of the report in an event. -/
def reportField {α : Type} (name : String) (absence : Absence) (c : Codec α) (get : Report → α)
    (set : α → Report → Report) : FieldCodec Event :=
  field name absence c (fun e => get e.report) fun v e => { e with report := set v e.report }

/-- Events. -/
def Event.codec : Codec Event :=
  record default [
    field "id" .required Uuid.codec Event.id fun v e => { e with id := v },
    field "timestamp" .required instant Event.timestamp fun v e => { e with timestamp := v },
    reportField "kind" .required Kind.codec (·.kind) fun v r => { r with kind := v },
    reportField "outcome" .required Outcome.codec (·.outcome) fun v r => { r with outcome := v },
    reportField "severity" .required Severity.codec (·.severity) fun v r => { r with severity := v },
    reportField "reference" .optional (option Reference.codec) (·.reference)
      fun v r => { r with reference := v },
    reportField "subject" .required string (·.subject) fun v r => { r with subject := v },
    reportField "client" .optional (option string) (·.client) fun v r => { r with client := v },
    reportField "metadata" .required (table any) (·.metadata) fun v r => { r with metadata := v },
    reportField "error" .optional (option string) (·.error) fun v r => { r with error := v }]

end Audit

end Gatehouse
