import Gatehouse.Guard.RateLimit
import Gatehouse.Response

/-! Throttled requests: a request that falls under a rate limit reaches its handler only
with a token. -/
namespace Gatehouse.Guard.Throttle

/-- A request that passes, and perhaps with how many tokens left; or the failure it is
answered with. -/
inductive Gate where
  /-- The request falls under no criteria. -/
  | open
  /-- The request has been admitted. -/
  | admitted (tokensLeft : Option Int)
  | refused (failure : Failure)
  deriving DecidableEq, Repr

/-- Takes a token for a request with criteria. -/
def gate (settings : Criteria → RateLimitSettings) (who : Option Criteria) (now : Instant) :
    Counter.Calls (Gate × List Audit.Report) :=
  match who with
  | none => .done (.open, [])
  | some who =>
    (RateLimit.tryConsume (settings who) who now).bind fun o =>
      .done
        (match o.result with
          | .error f => .refused f
          | .ok d => if d.allowed then .admitted d.tokensLeft
              else .refused (.rateLimitExceeded d.retryAfterSecs),
          o.reports)

/-- The answer to a request, where `handled` is the handler's. -/
def respond (handled : Response) : Gate → Response
  | .open => handled
  | .admitted tokens => { handled with remaining := tokens.map Int.toNat }
  | .refused f => f.response

end Gatehouse.Guard.Throttle
