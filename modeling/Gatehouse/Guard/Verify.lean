import Gatehouse.Guard.Basic
import Gatehouse.Settings.Guard

/-! Failed verifications of a second factor: counted by factor, and forgotten when none
followed for a while. The failure that reaches the threshold is reported. -/
namespace Gatehouse.Guard.Verify

open Counter (Decision Engine.evaluate Engine.recordFailure)

/-- The counter of failed verifications. -/
def key (who : Criteria) : Counter.Key := ⟨.verify, who⟩

/-- The policy of verifications. -/
def policy (s : VerifySettings) : Counter.Policy := .verify s.policy

/-- Whether another verification may be tried; nothing is counted. -/
def check (s : VerifySettings) (who : Criteria) (now : Instant) : Action Decision :=
  if s.enabled then .quiet (Engine.evaluate (policy s) (key who) now) else .of .unrestricted

/-- The report of attempts that are used up. -/
def exhaustedReport (who : Criteria) (d : Decision) : Audit.Report :=
  let r := ((reportOn .verifyAttemptsExhausted who).withFailure
    "verification attempts exhausted").withAttribute "attempts" (.nat d.attempts)
  match who.factor with
  | some factor => r.withAttribute "factor" (.str factor)
  | none => r

/-- Counts a failed verification. -/
def failed (s : VerifySettings) (who : Criteria) (now : Instant) : Action Decision :=
  if s.enabled then
    .reporting (Engine.recordFailure (policy s) (key who) now) .ok fun d =>
      if reachesThreshold d then [exhaustedReport who d] else []
  else .of .unrestricted

end Gatehouse.Guard.Verify
