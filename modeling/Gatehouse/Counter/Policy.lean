import Gatehouse.Counter.Record

/-! Policies: how a counter's state goes on.

A policy says when stored state has lapsed (`Policy.refresh`), what the state is after
one more event (`Policy.applyFailure`) and what is decided from it
(`Policy.decide`). Failed logins lock an account when they reach a threshold, and a
lock keeps its end whatever follows. Failed verifications are forgotten when none
came for a while. A rate limit allows so many events in a window and gives its tokens
back all at once, or one by one. -/
namespace Gatehouse.Counter

/-- Failed logins: the one that reaches the threshold locks the account. -/
structure LoginPolicy where
  maxAttempts : Nat
  lockout : Duration
  /-- How long failures below the threshold are remembered. -/
  reset : Duration
  deriving DecidableEq, Repr, Inhabited

/-- Failed verifications: they are forgotten some time after the last. -/
structure VerifyPolicy where
  maxAttempts : Nat
  reset : Duration
  deriving DecidableEq, Repr, Inhabited

/-- How the tokens of a rate limit come back. -/
inductive Refill where
  /-- All at once, when the window is over. -/
  | fixedWindow
  /-- One by one, evenly over a window. -/
  | proportional
  deriving DecidableEq, Repr, Inhabited

/-- The name of a way to give tokens back. -/
def Refill.name : Refill → String
  | fixedWindow => "fixed_window"
  | proportional => "proportional"

/-- At most `limit` events in a window. -/
structure RatePolicy where
  limit : Int
  window : Duration
  refill : Refill
  deriving DecidableEq, Repr, Inhabited

namespace RatePolicy

/-- The largest number of tokens that are waited for at once. -/
def maxMissing : Int := 2147483647

/-- Whether the limit makes no sense: no events, or an empty window. -/
def isMisconfigured (p : RatePolicy) : Bool := p.limit ≤ 0 || p.window ≤ Duration.zero

/-- Milliseconds in which one token comes back. -/
def intervalMillis (p : RatePolicy) : Int := max (p.window.millis.tdiv (max p.limit 1)) 1

/-- The time in which one token comes back. -/
def tokenInterval (p : RatePolicy) : Duration := Duration.ofMillis p.intervalMillis

/-- The time in which `n` tokens come back. -/
def tokenSpan (p : RatePolicy) (n : Int) : Duration := ⟨p.tokenInterval.nanos * n⟩

/-- How many tokens a record lacks to the limit. -/
def missing (p : RatePolicy) (r : Record) : Int :=
  max 0 (min maxMissing (p.limit - max r.tokensLeft 0))

/-- When all tokens are back. -/
def windowEnd (p : RatePolicy) (r : Record) : Instant :=
  match p.refill with
  | .fixedWindow => r.windowStart.after p.window
  | .proportional => r.windowStart.after (p.tokenSpan (p.missing r))

/-- When the next token is back. -/
def nextTokenAt (p : RatePolicy) (r : Record) : Instant :=
  match p.refill with
  | .fixedWindow => r.windowStart.after p.window
  | .proportional => r.windowStart.after p.tokenInterval

/-- How many tokens have come back since the window began. -/
def tokensBack (p : RatePolicy) (r : Record) (now : Instant) : Int :=
  max (now.since r.windowStart).millis 0 / p.intervalMillis

/-- Gives back the tokens that have come back: a record with all of them has lapsed, and
the time of a token that is on its way is kept. -/
def refilled (p : RatePolicy) (r : Record) (now : Instant) : Option Record :=
  let back := p.tokensBack r now
  if back = 0 then some r
  else
    let tokens := max r.tokensLeft 0 + back
    if tokens ≥ p.limit then none
    else some
      { r with
        tokensLeft := tokens
        allowRequest := true
        windowStart := r.windowStart.after (p.tokenSpan back) }

/-- The threshold of a rate limit, as a number of attempts. -/
def threshold (p : RatePolicy) : Nat := min p.limit.toNat Counter.maxAttempts

end RatePolicy

/-- A policy of one of the three kinds. -/
inductive Policy where
  | login (policy : LoginPolicy)
  | verify (policy : VerifyPolicy)
  | rateLimit (policy : RatePolicy)
  deriving DecidableEq, Repr, Inhabited

namespace Policy

/-- The kind of counter that a policy is for. -/
def kind : Policy → Kind
  | login _ => .login
  | verify _ => .verify
  | rateLimit _ => .rateLimit

/-- The threshold, or the rate limit. -/
def maxAttempts : Policy → Nat
  | login p => p.maxAttempts
  | verify p => p.maxAttempts
  | rateLimit p => p.threshold

/-- Whether a policy lets nobody through because it makes no sense. -/
def isMisconfigured : Policy → Bool
  | rateLimit p => p.isMisconfigured
  | _ => false

/-- Whether a success clears the counter. -/
def resetsOnSuccess : Policy → Bool
  | verify _ => false
  | _ => true

/-- What is left of stored state; `none` once it has lapsed. -/
def refresh (p : Policy) (r : Record) (now : Instant) : Option Record :=
  match p with
  | login _ => if r.isExpired now then none else some r
  | verify p => if now ≤ r.updatedAt.after p.reset then some r else none
  | rateLimit p =>
    match p.refill with
    | .fixedWindow => if now < r.windowStart.after p.window then some r else none
    | .proportional => p.refilled r now

/-- One more attempt, up to the largest count. -/
def countUp (attempts : Nat) : Nat := min (attempts + 1) Counter.maxAttempts

/-- The state after one more failure, or one more event under a rate limit; `live` is
what is left of the state before. -/
def applyFailure (p : Policy) (live : Option Record) (key : Key) (now : Instant) : Record :=
  match p with
  | login p =>
    let r := live.getD (.fresh key now)
    let r := { r with attempts := countUp r.attempts, updatedAt := now }
    if !r.allowRequest then r
    else if r.attempts ≥ p.maxAttempts then
      { r with allowRequest := false, expireAt := now.after p.lockout }
    else { r with expireAt := now.after p.reset }
  | verify p =>
    let r := live.getD (.fresh key now)
    let attempts := countUp r.attempts
    { r with
      attempts
      allowRequest := attempts < p.maxAttempts
      updatedAt := now
      expireAt := now.after p.reset }
  | rateLimit p =>
    let r := match live with
      | some r => { r with tokensLeft := max (r.tokensLeft - 1) (-1) }
      | none => { Record.fresh key now with tokensLeft := p.limit - 1 }
    let r :=
      { r with
        allowRequest := 0 ≤ r.tokensLeft
        attempts := countUp r.attempts
        updatedAt := now }
    { r with expireAt := p.windowEnd r }

/-- When a refused request may be tried again. -/
def retryAt (p : Policy) (r : Record) : Instant :=
  match p with
  | login _ => r.expireAt
  | verify p => r.updatedAt.after p.reset
  | rateLimit p => p.nextTokenAt r

/-- What is decided where nothing has been counted. -/
def decideFresh (p : Policy) : Decision :=
  match p with
  | rateLimit q => { Decision.fresh p.maxAttempts with tokensLeft := some q.limit }
  | _ => .fresh p.maxAttempts

/-- What is decided from a live record. -/
def decideLive (p : Policy) (r : Record) (now : Instant) : Decision where
  allowed := r.allowRequest
  attempts := r.attempts
  maxAttempts := p.maxAttempts
  tokensLeft := if p.kind = .rateLimit then some r.tokensLeft else none
  retryAfterSecs := if r.allowRequest then 0 else secondsUntil (p.retryAt r) now
  record := some r

/-- What is decided from the state that is left. -/
def decide (p : Policy) (live : Option Record) (now : Instant) : Decision :=
  match live with
  | some r => p.decideLive r now
  | none => p.decideFresh

end Policy

end Gatehouse.Counter
