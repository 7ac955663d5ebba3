import Gatehouse.Guard.Login
import Gatehouse.Guard.RateLimit
import Gatehouse.Guard.Verify
import Gatehouse.Proofs.Counter.Confined
import Gatehouse.Proofs.Machine
import Gatehouse.Settings.Config

/-! Counters do not touch each other.

The three guards keep their counters in one store. Every call is about one counter, that of
the guard's kind and the caller's criteria (`Call.key`), and keeps to it
(`Call.confined_action`). So over any run the calls on one counter end with the results and
the reports, and leave the record, that they would without the calls on all other counters
(`services_isolated`). -/
namespace Gatehouse.Guard

open Counter (Confined Decision Memory)

/-! ### Three guards over one store -/

/-- What the guards are asked to do. -/
inductive Operation where
  | countLogin
  | checkAccount
  | ensureUnlocked
  | passLogin
  | unlockAccount
  | countVerification
  | checkVerification
  | takeToken
  /-- Takes a token, and fails where there is none. -/
  | demandToken
  | peekTokens
  | resetTokens
  deriving DecidableEq, Repr

/-- The kind of counter that an operation is about. -/
def Operation.kind : Operation → Counter.Kind
  | countLogin | checkAccount | ensureUnlocked | passLogin | unlockAccount => .login
  | countVerification | checkVerification => .verify
  | takeToken | demandToken | peekTokens | resetTokens => .rateLimit

/-- A call of a guard. Whoever tells the settings is asked on every call, and may be
another on the next. -/
structure Call where
  provider : SettingsProvider
  operation : Operation
  who : Criteria
  now : Instant

namespace Call

/-- The counter that a call is about. -/
def key (c : Call) : Counter.Key := ⟨c.operation.kind, c.who⟩

/-- What a call does; some calls end with a decision. -/
def action (c : Call) : Action (Option Decision) :=
  let s := c.provider c.who.reference c.who.client
  match c.operation with
  | .countLogin => (Login.failed s.login c.who c.now).andThen fun d => .ok (some d)
  | .checkAccount => (Login.check s.login c.who c.now).andThen fun d => .ok (some d)
  | .ensureUnlocked => (Login.ensureUnlocked s.login c.who c.now).andThen fun _ => .ok none
  | .passLogin => (Login.succeeded s.login c.who c.now).andThen fun _ => .ok none
  | .unlockAccount => (Login.unlock s.login c.who c.now).andThen fun _ => .ok none
  | .countVerification => (Verify.failed s.verify c.who c.now).andThen fun d => .ok (some d)
  | .checkVerification => (Verify.check s.verify c.who c.now).andThen fun d => .ok (some d)
  | .takeToken => (RateLimit.tryConsume s.rateLimit c.who c.now).andThen fun d => .ok (some d)
  | .demandToken => (RateLimit.consume s.rateLimit c.who c.now).andThen fun d => .ok (some d)
  | .peekTokens => (RateLimit.peek s.rateLimit c.who c.now).andThen fun d => .ok (some d)
  | .resetTokens => (RateLimit.reset c.who).andThen fun _ => .ok none

end Call

/-- The guards over a store in memory where nothing goes wrong. A call is answered with its
result and its reports, told under the counter it is about. -/
def services : Machine Call Memory (Counter.Key × Audit.Reported (Option Decision)) where
  next c store := ((c.key, (store.run c.action).1), (store.run c.action).2)

/-! ### Every call keeps to its counter -/

section Confined
variable {α β : Type} {k : Counter.Key}

theorem confined_reporting {calls : Counter.Calls (Except Store.Error β)} (h : Confined k calls)
    (result : β → Except Failure α) (reports : β → List Audit.Report) :
    Confined k (Action.reporting calls result reports) := by
  refine h.bind fun found => ?_
  cases found with
  | error e => exact .done _
  | ok b => exact .done _

theorem confined_andThen {action : Action α} (h : Confined k action)
    (next : α → Except Failure β) : Confined k (action.andThen next) :=
  h.bind fun _ => .done _

end Confined

namespace Login
variable (s : LoginSettings) (who : Criteria) (now : Instant)

theorem confined_check : Confined (key who) (check s who now) := by
  unfold check
  split
  · exact confined_reporting (Counter.Engine.confined_evaluate _ _ _) _ _
  · exact .done _

theorem confined_failed : Confined (key who) (failed s who now) := by
  unfold failed
  split
  · exact confined_reporting (Counter.Engine.confined_recordFailure _ _ _) _ _
  · exact .done _

theorem confined_clear (reason : UnlockReason) : Confined (key who) (clear s who reason now) := by
  refine (Counter.Engine.confined_evaluate _ _ _).bind fun found => ?_
  cases found with
  | error e => exact .done _
  | ok d => exact confined_reporting (Counter.Engine.confined_recordSuccess _ _) _ _

theorem confined_succeeded : Confined (key who) (succeeded s who now) := by
  unfold succeeded
  split
  · exact confined_clear s who now _
  · exact .done _

end Login

namespace Verify
variable (s : VerifySettings) (who : Criteria) (now : Instant)

theorem confined_check : Confined (key who) (check s who now) := by
  unfold check
  split
  · exact confined_reporting (Counter.Engine.confined_evaluate _ _ _) _ _
  · exact .done _

theorem confined_failed : Confined (key who) (failed s who now) := by
  unfold failed
  split
  · exact confined_reporting (Counter.Engine.confined_recordFailure _ _ _) _ _
  · exact .done _

end Verify

namespace RateLimit
variable (s : RateLimitSettings) (who : Criteria) (now : Instant)

theorem confined_tryConsume : Confined (key who) (tryConsume s who now) := by
  unfold tryConsume
  split
  · exact confined_reporting (Counter.Engine.confined_recordFailure _ _ _) _ _
  · exact .done _

theorem confined_peek : Confined (key who) (peek s who now) := by
  unfold peek
  split
  · exact confined_reporting (Counter.Engine.confined_evaluate _ _ _) _ _
  · exact .done _

end RateLimit

theorem Call.confined_action (c : Call) : Confined c.key c.action := by
  obtain ⟨provider, operation, who, now⟩ := c
  cases operation with
  | countLogin => exact confined_andThen (Login.confined_failed _ who now) _
  | checkAccount => exact confined_andThen (Login.confined_check _ who now) _
  | ensureUnlocked =>
    exact confined_andThen (confined_andThen (Login.confined_check _ who now) _) _
  | passLogin => exact confined_andThen (Login.confined_succeeded _ who now) _
  | unlockAccount => exact confined_andThen (Login.confined_clear _ who now _) _
  | countVerification => exact confined_andThen (Verify.confined_failed _ who now) _
  | checkVerification => exact confined_andThen (Verify.confined_check _ who now) _
  | takeToken => exact confined_andThen (RateLimit.confined_tryConsume _ who now) _
  | demandToken =>
    exact confined_andThen (confined_andThen (RateLimit.confined_tryConsume _ who now) _) _
  | peekTokens => exact confined_andThen (RateLimit.confined_peek _ who now) _
  | resetTokens =>
    exact confined_andThen (confined_reporting (Counter.Engine.confined_reset _) _ _) _

/-! ### Runs with and without the calls on other counters -/

/-- Two stores that are one to the calls on a counter. -/
structure Same (k : Counter.Key) (s s' : Memory) : Prop where
  keyed : s.Keyed
  keyed' : s'.Keyed
  find?_eq : s.find? k = s'.find? k

section Run
variable {k : Counter.Key} {s s' : Memory} {c : Call}

theorem Same.step (h : Same k s s') (hc : c.key = k) :
    (services.next c s).1 = (services.next c s').1 ∧
      Same k (services.next c s).2 (services.next c s').2 := by
  subst hc
  obtain ⟨hanswer, hfind⟩ := c.confined_action.run_eq h.keyed h.keyed' h.find?_eq
  exact ⟨congrArg (Prod.mk c.key) hanswer, h.keyed.run _, h.keyed'.run _, hfind⟩

theorem Same.step_other (h : Same k s s') (hc : c.key ≠ k) : Same k (services.next c s).2 s' where
  keyed := h.keyed.run _
  keyed' := h.keyed'
  find?_eq := (c.confined_action.run_other h.keyed hc.symm).trans h.find?_eq

theorem Same.run (h : Same k s s') (cs : List Call) :
    (services.answers s cs).filter (·.1 = k) = services.answers s' (cs.filter (·.key = k)) ∧
      Same k (services.after s cs) (services.after s' (cs.filter (·.key = k))) := by
  induction cs generalizing s s' with
  | nil => exact ⟨rfl, h⟩
  | cons c rest ih =>
    have htold : (services.next c s).1.1 = c.key := rfl
    by_cases hc : c.key = k
    · obtain ⟨hanswer, hsame⟩ := h.step hc
      obtain ⟨hanswers, hafter⟩ := ih hsame
      have hkept : (c :: rest).filter (·.key = k) = c :: rest.filter (·.key = k) := by simp [hc]
      rw [hkept, Machine.answers, Machine.answers, ← hanswer, ← hanswers]
      exact ⟨by simp [htold, hc], hafter⟩
    · obtain ⟨hanswers, hafter⟩ := ih (h.step_other hc)
      have hdropped : (c :: rest).filter (·.key = k) = rest.filter (·.key = k) := by simp [hc]
      rw [hdropped, Machine.answers, ← hanswers]
      exact ⟨by simp [htold, hc], hafter⟩

end Run

/-- **Counters are isolated.** Take any run of calls of the three guards over one store, for
whatever criteria and whoever tells the settings. The calls on one counter end with the same
results and reports, and leave the same record, as in the run without the calls on other
counters. -/
theorem services_isolated (k : Counter.Key) (store : Memory) (hstore : store.Keyed)
    (cs : List Call) :
    let own := cs.filter (·.key = k)
    (services.answers store cs).filter (·.1 = k) = services.answers store own ∧
      (services.after store cs).find? k = (services.after store own).find? k := by
  have hsame : Same k store store := ⟨hstore, hstore, rfl⟩
  obtain ⟨hanswers, hafter⟩ := hsame.run cs
  exact ⟨hanswers, hafter.find?_eq⟩

/-- The second of alice's failed logins locks her account and is reported, whatever bob does,
and whatever alice does with her second factor and her tokens. -/
theorem services_isolated_for_alice :
    let settings : GuardSettings :=
      { login := { maxAttempts := 2 }, verify := { maxAttempts := 1 },
        rateLimit := { enabled := true, limit := 1 } }
    let alice : Criteria := { reference := .domain "acme", subject := "alice" }
    let bob : Criteria := { reference := .domain "acme", subject := "alice:-" }
    let call (o : Operation) (who : Criteria) (millis : Int) : Call :=
      ⟨settings.everywhere, o, who, .ofMillis millis⟩
    let k : Counter.Key := ⟨.login, alice⟩
    let cs := [call .countLogin bob 0, call .countLogin alice 10, call .countVerification alice 20,
      call .takeToken alice 30, call .countLogin bob 40, call .countLogin alice 50,
      call .unlockAccount bob 60, call .resetTokens alice 70, call .checkAccount alice 80]
    let own := [call .countLogin alice 10, call .countLogin alice 50, call .checkAccount alice 80]
    (services.answers {} cs).filter (·.1 = k) = services.answers {} own ∧
      (services.after {} cs).find? k = (services.after {} own).find? k ∧
      (services.answers {} own).map (fun a => (a.2.result.toOption.join.map (·.allowed),
        a.2.reports.length)) = [(some true, 0), (some false, 1), (some false, 0)] := by
  intro settings alice bob call k cs own
  obtain ⟨hanswers, hafter⟩ := services_isolated k {} Memory.keyed_empty cs
  exact ⟨hanswers, hafter, by decide +kernel⟩

end Gatehouse.Guard
