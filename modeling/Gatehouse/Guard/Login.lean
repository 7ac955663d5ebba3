import Gatehouse.Guard.Basic
import Gatehouse.Settings.Guard

/-! Failed logins: counted by subject, until they lock the account.

The failure that reaches the threshold is reported, and so is every unlocking by hand
or of a locked account. -/
namespace Gatehouse.Guard.Login

open Counter (Decision Engine.evaluate Engine.recordFailure Engine.recordSuccess)

/-- Why an account was unlocked. -/
inductive UnlockReason where
  | successfulLogin
  | adminAction
  deriving DecidableEq, Repr

/-- The name of a reason. -/
def UnlockReason.name : UnlockReason → String
  | successfulLogin => "successful_login"
  | adminAction => "admin_action"

/-- The counter of failed logins. -/
def key (who : Criteria) : Counter.Key := ⟨.login, who⟩

/-- The policy of a lockout. -/
def policy (s : LoginSettings) : Counter.Policy := .login s.policy

/-- Whether the account is locked; nothing is counted. -/
def check (s : LoginSettings) (who : Criteria) (now : Instant) : Action Decision :=
  if s.enabled then .quiet (Engine.evaluate (policy s) (key who) now) else .of .unrestricted

/-- Fails where the account is locked. -/
def ensureUnlocked (s : LoginSettings) (who : Criteria) (now : Instant) : Action Unit :=
  (check s who now).andThen fun d =>
    match d.record.bind (·.lockedUntil) with
    | some unlockAt => .error (.accountLocked unlockAt d.retryAfterSecs)
    | none => .ok ()

/-- The report of an account that was locked. -/
def lockReport (s : LoginSettings) (who : Criteria) (d : Decision) : Audit.Report :=
  ((reportOn .accountLocked who).withAttribute "attempts" (.nat d.attempts)).withAttribute
    "lockout_duration_secs" (.nat s.accountBlockedDurationSecs)

/-- Counts a failed login. -/
def failed (s : LoginSettings) (who : Criteria) (now : Instant) : Action Decision :=
  if s.enabled then
    .reporting (Engine.recordFailure (policy s) (key who) now) .ok fun d =>
      if reachesThreshold d then [lockReport s who d] else []
  else .of .unrestricted

/-- The report of an account that was unlocked. -/
def unlockReport (who : Criteria) (reason : UnlockReason) : Audit.Report :=
  (reportOn .accountUnlocked who).withAttribute "reason" (.str reason.name)

/-- Clears what was counted, and reports it where the account was locked or an
administrator asked for it. -/
def clear (s : LoginSettings) (who : Criteria) (reason : UnlockReason) (now : Instant) :
    Action Unit :=
  (Engine.evaluate (policy s) (key who) now).bind fun
    | .error e => .done ⟨.error (.ofStore e), []⟩
    | .ok d =>
      Action.reporting (Engine.recordSuccess (policy s) (key who)) (fun _ => .ok ()) fun _ =>
        if !d.allowed || reason = .adminAction then [unlockReport who reason] else []

/-- Takes note of a successful login. -/
def succeeded (s : LoginSettings) (who : Criteria) (now : Instant) : Action Unit :=
  if s.enabled then clear s who .successfulLogin now else .of ()

/-- Unlocks an account by hand, even where no lockout is in force. -/
def unlock (s : LoginSettings) (who : Criteria) (now : Instant) : Action Unit :=
  clear s who .adminAction now

end Gatehouse.Guard.Login
