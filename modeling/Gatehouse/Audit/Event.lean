import Gatehouse.Json.Value
import Gatehouse.Reference
import Gatehouse.Table
import Gatehouse.Time.Instant
import Gatehouse.Uuid

/-! Events of the audit trail: what happened to whom, how it went and how much it
matters. -/
namespace Gatehouse.Audit

/-- What happened. -/
inductive Kind where
  | accountLocked
  | accountUnlocked
  | verifyAttemptsExhausted
  | rateLimitExceeded
  | passwordHistoryCreated
  | passwordReuseRejected
  /-- Something that only the application knows. -/
  | custom (name : String)
  deriving DecidableEq, Repr, Inhabited

/-- How an action went. -/
inductive Outcome where
  | success
  | failure
  deriving DecidableEq, Repr, Inhabited

/-- The name of an outcome. -/
def Outcome.name : Outcome → String
  | success => "success"
  | failure => "failure"

/-- How much an event matters, most important first. -/
inductive Severity where
  | error
  | warning
  | notice
  | informational
  deriving DecidableEq, Repr, Inhabited

namespace Severity

/-- The number of a severity in system logs. -/
def level : Severity → Nat
  | error => 3
  | warning => 4
  | notice => 5
  | informational => 6

/-- The name of a severity where it is stored. -/
def name : Severity → String
  | error => "Error"
  | warning => "Warning"
  | notice => "Notice"
  | informational => "Informational"

/-- The name of a severity in logs. -/
def label : Severity → String
  | error => "ERROR"
  | warning => "WARNING"
  | notice => "NOTICE"
  | informational => "INFO"

/-- Whether an event matters less than a warning. -/
def isBelowWarning (s : Severity) : Bool := warning.level < s.level

end Severity

namespace Kind

/-- The kinds that have a name of their own. -/
def named : List Kind :=
  [accountLocked, accountUnlocked, verifyAttemptsExhausted, rateLimitExceeded,
    passwordHistoryCreated, passwordReuseRejected]

/-- The name of a kind where it is stored. -/
def name : Kind → String
  | accountLocked => "account_locked"
  | accountUnlocked => "account_unlocked"
  | verifyAttemptsExhausted => "verify_attempts_exhausted"
  | rateLimitExceeded => "rate_limit_exceeded"
  | passwordHistoryCreated => "password_history_created"
  | passwordReuseRejected => "password_reuse_rejected"
  | custom _ => "custom"

/-- The name of a kind in logs. -/
def label : Kind → String
  | accountLocked => "auth.account.locked"
  | accountUnlocked => "auth.account.unlocked"
  | verifyAttemptsExhausted => "auth.verify.exhausted"
  | rateLimitExceeded => "auth.rate_limit.exceeded"
  | passwordHistoryCreated => "auth.password_history.created"
  | passwordReuseRejected => "auth.password_history.reuse_rejected"
  | custom name => "custom." ++ name

/-- How much an event of a kind matters where nothing else is said. -/
def defaultSeverity : Kind → Severity
  | accountLocked => .warning
  | verifyAttemptsExhausted => .warning
  | rateLimitExceeded => .notice
  | passwordReuseRejected => .notice
  | _ => .informational

end Kind

/-- What a guard reports. -/
structure Report where
  kind : Kind
  outcome : Outcome := .success
  severity : Severity := kind.defaultSeverity
  reference : Option Reference := none
  subject : String
  client : Option String := none
  /-- Further attributes. -/
  metadata : Table Json := .empty
  error : Option String := none
  deriving Inhabited

namespace Report

/-- A report that an action succeeded. -/
def of (kind : Kind) (subject : String) : Report := { kind, subject }

/-- Names the owner. -/
def withReference (r : Report) (reference : Reference) : Report := { r with reference := some reference }

/-- Names the client. -/
def withClient (r : Report) (client : Option String) : Report := { r with client := client }

/-- Says that the action failed, and why. -/
def withFailure (r : Report) (error : String) : Report :=
  { r with outcome := .failure, error := some error }

/-- Says how much it matters. -/
def withSeverity (r : Report) (severity : Severity) : Report := { r with severity := severity }

/-- Adds an attribute. -/
def withAttribute (r : Report) (name : String) (value : Json) : Report :=
  { r with metadata := r.metadata.insert name value }

/-- What is logged of a report: its attributes as texts, those that are absent left out. -/
def logged (r : Report) : List (String × String) :=
  [("kind", r.kind.label), ("outcome", r.outcome.name), ("severity", r.severity.label),
    ("subject", r.subject), ("message", "audit event")]
    ++ (r.reference.map fun x => ("reference", x.label)).toList
    ++ (r.client.map fun x => ("client", x)).toList
    ++ (r.error.map fun x => ("error", x)).toList

/-- The log that reports are written to. -/
def logTarget : String := "authguard::audit"

end Report

/-- A report with an identifier and the time it was made. -/
structure Event where
  id : Uuid
  timestamp : Instant
  report : Report
  deriving Inhabited

end Gatehouse.Audit
