import Gatehouse.Guard.Basic
import Gatehouse.Settings.Guard

/-! Rate limits: one token for each event. Every refusal is reported. -/
namespace Gatehouse.Guard.RateLimit

open Counter (Decision Engine.evaluate Engine.recordFailure Engine.reset)

/-- The counter of events. -/
def key (who : Criteria) : Counter.Key := ⟨.rateLimit, who⟩

/-- The policy of a rate limit. -/
def policy (s : RateLimitSettings) : Counter.Policy := .rateLimit s.policy

/-- The report of a refusal. -/
def exceededReport (s : RateLimitSettings) (who : Criteria) (d : Decision) : Audit.Report :=
  (((reportOn .rateLimitExceeded who).withFailure "rate limit exceeded").withAttribute
    "limit" (.int s.limit)).withAttribute "retry_after_secs" (.nat d.retryAfterSecs)

/-- Takes a token, and tells what was decided. -/
def tryConsume (s : RateLimitSettings) (who : Criteria) (now : Instant) : Action Decision :=
  if s.enabled then
    .reporting (Engine.recordFailure (policy s) (key who) now) .ok fun d =>
      if d.allowed then [] else [exceededReport s who d]
  else .of .unrestricted

/-- Takes a token, or fails where there is none. -/
def consume (s : RateLimitSettings) (who : Criteria) (now : Instant) : Action Decision :=
  (tryConsume s who now).andThen fun d =>
    if d.allowed then .ok d else .error (.rateLimitExceeded d.retryAfterSecs)

/-- What would be decided; no token is taken. -/
def peek (s : RateLimitSettings) (who : Criteria) (now : Instant) : Action Decision :=
  if s.enabled then .quiet (Engine.evaluate (policy s) (key who) now) else .of .unrestricted

/-- Gives all tokens back. -/
def reset (who : Criteria) : Action Unit :=
  .reporting (Engine.reset (key who)) (fun _ => .ok ()) fun _ => []

end Gatehouse.Guard.RateLimit
