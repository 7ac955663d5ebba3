import Gatehouse.Proofs.Counter.Engine

/-! What a failed login does to a record.

There are only three things: a lock that lasts is kept with its end, or a lock begins, or
the failure is counted below the threshold (`nextRecord_cases`). So all who count failures
at one instant agree on the end of the lock, whichever of them reaches the threshold and
whatever the others have written in between (`After.lockEnd_eq`), and whoever finds a
lock that one of them wrote keeps it (`nextRecord_locked_again`). -/
namespace Gatehouse.Counter.LoginPolicy

open Engine (live nextRecord)

variable (q : LoginPolicy) (k : Key) (now : Instant)

theorem live_some (r : Record) :
    live (.login q) (some r) now = if now < r.expireAt then some r else none := by
  by_cases h : now < r.expireAt
  · simp [live, Policy.refresh, Record.isExpired, h]
  · simp [live, Policy.refresh, Record.isExpired, h, not_lt.mp h]

/-- What is live is what was found, before its end. -/
theorem live_eq_some {stored : Option Record} {r : Record}
    (h : live (.login q) stored now = some r) : stored = some r ∧ now < r.expireAt := by
  cases stored with
  | none => cases h
  | some r₀ =>
    rw [live_some] at h
    split at h
    · next hlt =>
      cases h
      exact ⟨rfl, hlt⟩
    · cases h

/-- The end of the lock that a failure keeps or, where it reaches the threshold, begins. -/
def lockEnd (stored : Option Record) : Instant :=
  match live (.login q) stored now with
  | some r => if r.allowRequest then now.after q.lockout else r.expireAt
  | none => now.after q.lockout

/-- A record after a failure: under a lock, or free, and until when. -/
inductive After (stored : Option Record) (r : Record) : Prop where
  /-- The lock that was found lasts. -/
  | keeps (r₀ : Record) : live (.login q) stored now = some r₀ → r₀.allowRequest = false →
      r.allowRequest = false → r.expireAt = r₀.expireAt → After stored r
  /-- The threshold is reached. -/
  | locks : (∀ r₀, live (.login q) stored now = some r₀ → r₀.allowRequest = true) →
      r.allowRequest = false → r.expireAt = now.after q.lockout → After stored r
  | counts : (∀ r₀, live (.login q) stored now = some r₀ → r₀.allowRequest = true) →
      r.allowRequest = true → r.expireAt = now.after q.reset → After stored r

theorem nextRecord_cases (stored : Option Record) :
    After q now stored (nextRecord (.login q) k now stored) := by
  unfold nextRecord
  cases hlive : live (.login q) stored now with
  | none =>
    have hopen : ∀ r₀, live (.login q) stored now = some r₀ → r₀.allowRequest = true := by
      intro r₀ hr₀
      rw [hlive] at hr₀
      cases hr₀
    by_cases hmax : q.maxAttempts ≤ Policy.countUp 0
    · refine .locks hopen ?_ ?_ <;> simp [Policy.applyFailure, Record.fresh, hmax]
    · refine .counts hopen ?_ ?_ <;> simp [Policy.applyFailure, Record.fresh, hmax]
  | some r₀ =>
    cases hallow : r₀.allowRequest with
    | false => refine .keeps r₀ hlive hallow ?_ ?_ <;> simp [Policy.applyFailure, hallow]
    | true =>
      have hopen : ∀ r, live (.login q) stored now = some r → r.allowRequest = true := by
        intro r hr
        rw [hlive] at hr
        cases hr
        exact hallow
      by_cases hmax : q.maxAttempts ≤ Policy.countUp r₀.attempts
      · refine .locks hopen ?_ ?_ <;> simp [Policy.applyFailure, hallow, hmax]
      · refine .counts hopen ?_ ?_ <;> simp [Policy.applyFailure, hallow, hmax]

variable {q k now} {stored : Option Record} {r : Record}

theorem lockEnd_of_locked (hlive : live (.login q) stored now = some r)
    (hlocked : r.allowRequest = false) : lockEnd q now stored = r.expireAt := by
  simp [lockEnd, hlive, hlocked]

theorem lockEnd_of_open
    (hopen : ∀ r, live (.login q) stored now = some r → r.allowRequest = true) :
    lockEnd q now stored = now.after q.lockout := by
  unfold lockEnd
  cases hlive : live (.login q) stored now with
  | none => rfl
  | some r => simp [hopen r hlive]

/-- A lock after a failure ends where the failure found or set its end. -/
theorem After.expireAt_eq (h : After q now stored r) (hlocked : r.allowRequest = false) :
    r.expireAt = lockEnd q now stored := by
  cases h with
  | keeps r₀ hlive hlocked₀ _ hexpire => rw [hexpire, lockEnd_of_locked hlive hlocked₀]
  | locks hopen _ hexpire => rw [hexpire, lockEnd_of_open hopen]
  | counts _ hallow _ =>
    rw [hallow] at hlocked
    cases hlocked

/-- Whoever finds what a failure left agrees with it about the end of the lock. -/
theorem After.lockEnd_eq (h : After q now stored r) :
    lockEnd q now (some r) = lockEnd q now stored := by
  cases h with
  | keeps r₀ hlive hlocked₀ hlocked hexpire =>
    have hlasts : now < r.expireAt := by
      rw [hexpire]
      exact (live_eq_some q now hlive).2
    have hlive' : live (.login q) (some r) now = some r := by rw [live_some, if_pos hlasts]
    rw [lockEnd_of_locked hlive' hlocked, lockEnd_of_locked hlive hlocked₀, hexpire]
  | locks hopen hlocked hexpire =>
    rw [lockEnd_of_open hopen]
    by_cases hlasts : now < r.expireAt
    · have hlive' : live (.login q) (some r) now = some r := by rw [live_some, if_pos hlasts]
      rw [lockEnd_of_locked hlive' hlocked, hexpire]
    · refine lockEnd_of_open fun r' hr' => ?_
      rw [live_some, if_neg hlasts] at hr'
      cases hr'
  | counts hopen hallow _ =>
    rw [lockEnd_of_open hopen]
    refine lockEnd_of_open fun r' hr' => ?_
    obtain ⟨hr, _⟩ := live_eq_some q now hr'
    cases hr
    exact hallow

/-- No failure remembers anything beyond the end of the calendar. -/
theorem After.expireAt_le (h : After q now stored r) (hnow : now ≤ .latest)
    (hstored : ∀ r₀ ∈ stored, r₀.expireAt ≤ .latest) : r.expireAt ≤ .latest := by
  cases h with
  | keeps r₀ hlive _ _ hexpire =>
    rw [hexpire]
    exact hstored r₀ (live_eq_some q now hlive).1
  | locks _ _ hexpire =>
    rw [hexpire]
    exact Instant.after_le_latest hnow _
  | counts _ _ hexpire =>
    rw [hexpire]
    exact Instant.after_le_latest hnow _

/-- A lock lasts beyond the instant at which it is written, but for the last instant of
the calendar. -/
theorem After.lasts (h : After q now stored r) (hq : (Policy.login q).WellConfigured)
    (hnow : now < .latest) (hlocked : r.allowRequest = false) : now < r.expireAt := by
  cases h with
  | keeps r₀ hlive _ _ hexpire =>
    rw [hexpire]
    exact (live_eq_some q now hlive).2
  | locks _ _ hexpire =>
    rw [hexpire]
    exact Instant.lt_after hnow hq.1
  | counts _ hallow _ =>
    rw [hallow] at hlocked
    cases hlocked

theorem nextRecord_of_locked (hlasts : now < r.expireAt) (hlocked : r.allowRequest = false) :
    (nextRecord (.login q) k now (some r)).allowRequest = false := by
  rw [nextRecord, live_some, if_pos hlasts]
  simp [Policy.applyFailure, hlocked]

/-- Whoever finds a lock that a failure at the same instant wrote writes a lock. At the
last instant of the calendar nothing is live, and all failures are first failures. -/
theorem nextRecord_locked_again (hq : (Policy.login q).WellConfigured) (hnow : now ≤ .latest)
    (hstored : ∀ r ∈ stored, r.expireAt ≤ .latest)
    (hlocked : (nextRecord (.login q) k now stored).allowRequest = false) :
    (nextRecord (.login q) k now (some (nextRecord (.login q) k now stored))).allowRequest =
      false := by
  have hafter := nextRecord_cases q k now stored
  rcases lt_or_eq_of_le hnow with hlt | heq
  · exact nextRecord_of_locked (hafter.lasts hq hlt hlocked) hlocked
  · have hdead : ∀ found : Option Record, (∀ r ∈ found, r.expireAt ≤ .latest) →
        live (.login q) found now = none := by
      intro found hfound
      cases hlive : live (.login q) found now with
      | none => rfl
      | some r =>
        obtain ⟨hr, hlasts⟩ := live_eq_some q now hlive
        rw [heq] at hlasts
        exact absurd hlasts (not_lt.mpr (hfound r hr))
    have hrange : ∀ r ∈ some (nextRecord (.login q) k now stored), r.expireAt ≤ .latest := by
      intro r hr
      cases hr
      exact hafter.expireAt_le hnow hstored
    rw [nextRecord, hdead stored hstored] at hlocked
    rw [nextRecord, hdead _ hrange]
    exact hlocked

end Gatehouse.Counter.LoginPolicy
