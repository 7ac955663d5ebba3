import Gatehouse.Counter.Policy
import Gatehouse.Settings.Defect

/-! The settings of one domain or application: lockout, verification, rate limit,
password history and consistency of flows; their defaults, their defects, and the
policies they stand for. -/
namespace Gatehouse

open Settings (Check require)

/-- Lockout after failed logins. -/
structure LoginSettings where
  enabled : Bool := true
  maxAttempts : Nat := 10
  accountBlockedDurationSecs : Nat := 7200
  attemptsResetTimeSecs : Nat := 43200
  deriving DecidableEq, Repr, Inhabited

namespace LoginSettings

/-- Finds what is wrong. -/
def check (s : LoginSettings) : Check := do
  require (0 < s.maxAttempts) (.notPositive "max_attempts")
  require (0 < s.accountBlockedDurationSecs) (.notPositive "account_blocked_duration_secs")
  require (0 < s.attemptsResetTimeSecs) (.notPositive "attempts_reset_time_secs")

/-- The policy of a lockout. -/
def policy (s : LoginSettings) : Counter.LoginPolicy where
  maxAttempts := s.maxAttempts
  lockout := .ofSetting s.accountBlockedDurationSecs
  reset := .ofSetting s.attemptsResetTimeSecs

end LoginSettings

/-- Failed verifications of a second factor. -/
structure VerifySettings where
  enabled : Bool := true
  maxAttempts : Nat := 5
  resetTimeSecs : Nat := 60
  deriving DecidableEq, Repr, Inhabited

namespace VerifySettings

/-- Finds what is wrong. -/
def check (s : VerifySettings) : Check := do
  require (0 < s.maxAttempts) (.notPositive "max_attempts")
  require (0 < s.resetTimeSecs) (.notPositive "reset_time_secs")

/-- The policy of verifications. -/
def policy (s : VerifySettings) : Counter.VerifyPolicy where
  maxAttempts := s.maxAttempts
  reset := .ofSetting s.resetTimeSecs

end VerifySettings

/-- Units in which a rate limit's period is told. -/
inductive TimeUnit where
  | seconds
  | minutes
  | hours
  | days
  deriving DecidableEq, Repr, Inhabited

namespace TimeUnit

/-- The name of a unit. -/
def name : TimeUnit → String
  | seconds => "seconds"
  | minutes => "minutes"
  | hours => "hours"
  | days => "days"

/-- Seconds in a unit. -/
def length : TimeUnit → Int
  | seconds => 1
  | minutes => 60
  | hours => 3600
  | days => 86400

/-- A unit has some length. -/
theorem length_pos (u : TimeUnit) : 0 < u.length := by
  cases u <;> decide

/-- So many units, as long as can be told. -/
def span (u : TimeUnit) (amount : Int) : Duration :=
  .seconds (Word.mulUpTo amount u.length)

theorem span_eq_clamp (u : TimeUnit) (amount : Int) :
    u.span amount = .clamp ⟨amount * u.length * Duration.nanosPerSecond⟩ := by
  have hleast : Word.least = -9223372036854775808 := rfl
  have hgreatest : Word.greatest = 9223372036854775807 := rfl
  have hshortest : Duration.shortest.nanos = -9223372036854775807000000 := rfl
  have hlongest : Duration.longest.nanos = 9223372036854775807000000 := rfl
  have hsecond : (Duration.nanosPerSecond : Int) = 1000000000 := rfl
  rw [span, Duration.seconds_eq_clamp, Word.mulUpTo]
  generalize amount * u.length = secs
  -- what is not a word is longer than the longest span
  simp only [Duration.clamp, hsecond, Duration.mk.injEq]
  omega

end TimeUnit

/-- A rate limit. -/
structure RateLimitSettings where
  enabled : Bool := false
  limit : Int := 5
  timePeriod : Int := 15
  timeUnit : TimeUnit := .minutes
  refill : Counter.Refill := .fixedWindow
  deriving DecidableEq, Repr, Inhabited

namespace RateLimitSettings

/-- Finds what is wrong with a rate limit in force. -/
def check (s : RateLimitSettings) : Check := do
  if s.enabled then
    require (0 < s.limit) (.notPositive "limit")
    require (0 < s.timePeriod) (.notPositive "time_period")

/-- The length of a window. -/
def window (s : RateLimitSettings) : Duration := s.timeUnit.span s.timePeriod

/-- The policy of a rate limit. -/
def policy (s : RateLimitSettings) : Counter.RatePolicy where
  limit := s.limit
  window := s.window
  refill := s.refill

end RateLimitSettings

/-- Passwords that may not be used again. -/
structure PasswordHistorySettings where
  enabled : Bool := false
  oldPasswords : Nat := 5
  deriving DecidableEq, Repr, Inhabited

/-- Finds what is wrong with a history in force. -/
def PasswordHistorySettings.check (s : PasswordHistorySettings) : Check :=
  require (!s.enabled || 0 < s.oldPasswords) (.notPositive "old_passwords")

/-- How long a flow's context lives and how often a stale one is read again. -/
structure ConsistencySettings where
  maxRetries : Nat := 2
  retryIntervalMs : Nat := 1000
  contextTtlSecs : Nat := 300
  deriving DecidableEq, Repr, Inhabited

namespace ConsistencySettings

/-- Finds what is wrong. -/
def check (s : ConsistencySettings) : Check :=
  require (0 < s.contextTtlSecs) (.notPositive "context_ttl_secs")

/-- How long a saved context lives. -/
def contextTtl (s : ConsistencySettings) : Duration := .ofSetting s.contextTtlSecs

end ConsistencySettings

/-- All settings of one domain or application. -/
structure GuardSettings where
  login : LoginSettings := {}
  verify : VerifySettings := {}
  rateLimit : RateLimitSettings := {}
  passwordHistory : PasswordHistorySettings := {}
  consistency : ConsistencySettings := {}
  deriving DecidableEq, Repr, Inhabited

/-- Finds the first thing that is wrong, section by section. -/
def GuardSettings.check (s : GuardSettings) : Check := do
  s.login.check.mapError (.inSection "login")
  s.verify.check.mapError (.inSection "verify")
  s.rateLimit.check.mapError (.inSection "rate_limit")
  s.passwordHistory.check.mapError (.inSection "password_history")
  s.consistency.check.mapError (.inSection "consistency")

end Gatehouse
