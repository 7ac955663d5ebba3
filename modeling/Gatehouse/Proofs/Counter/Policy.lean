import Gatehouse.Counter.Policy
import Gatehouse.Proofs.Time.Order

/-! What every policy has in common.

A failure is counted on top of what is live and leaves the record under its key
(`applyFailure_attempts`, `applyFailure_key`). A well-configured policy never writes a
record that has lapsed at the instant of writing: what a failure leaves still stands
(`Stands`), however many failures follow at the same instant. -/
namespace Gatehouse.Counter

namespace RatePolicy

/-- A record to which `n` tokens have come back, and the time that they took. -/
def restored (p : RatePolicy) (r : Record) (n : Int) : Record :=
  { r with
    tokensLeft := max r.tokensLeft 0 + n
    allowRequest := true
    windowStart := r.windowStart.after (p.tokenSpan n) }

section Refilled
variable {p : RatePolicy} {r : Record} {now : Instant}

theorem refilled_of_none (h : p.tokensBack r now = 0) : p.refilled r now = some r := if_pos h

theorem refilled_of_all (h : p.tokensBack r now ≠ 0)
    (hall : p.limit ≤ max r.tokensLeft 0 + p.tokensBack r now) : p.refilled r now = none := by
  simp only [refilled, if_neg h, if_pos hall]

theorem refilled_of_some (h : p.tokensBack r now ≠ 0)
    (hmissing : max r.tokensLeft 0 + p.tokensBack r now < p.limit) :
    p.refilled r now = some (p.restored r (p.tokensBack r now)) := by
  simp only [refilled, if_neg h, if_neg (Int.not_le.mpr hmissing)]
  rfl

end Refilled

theorem refilled_cases {p : RatePolicy} {r r' : Record} {now : Instant}
    (h : p.refilled r now = some r') :
    p.tokensBack r now = 0 ∧ r' = r ∨
      p.tokensBack r now ≠ 0 ∧ max r.tokensLeft 0 + p.tokensBack r now < p.limit ∧
        r' = p.restored r (p.tokensBack r now) := by
  simp only [refilled] at h
  split at h
  · next hnone =>
    cases h
    exact .inl ⟨hnone, rfl⟩
  · next hsome =>
    split at h
    · cases h
    · next hmissing =>
      cases h
      exact .inr ⟨hsome, Int.not_le.mp hmissing, rfl⟩

end RatePolicy

namespace Policy

/-- Spans are positive, and a rate limit allows something. -/
def WellConfigured : Policy → Prop
  | login p => 0 < p.lockout.nanos ∧ 0 < p.reset.nanos
  | verify p => 0 < p.reset.nanos
  | rateLimit p => 0 < p.limit ∧ 0 < p.window.nanos

instance (p : Policy) : Decidable p.WellConfigured :=
  match p with
  | login p => inferInstanceAs (Decidable (0 < p.lockout.nanos ∧ 0 < p.reset.nanos))
  | verify p => inferInstanceAs (Decidable (0 < p.reset.nanos))
  | rateLimit p => inferInstanceAs (Decidable (0 < p.limit ∧ 0 < p.window.nanos))

variable {p : Policy} {r r' : Record} {k : Key} {now : Instant}

theorem WellConfigured.not_misconfigured (h : p.WellConfigured) : p.isMisconfigured = false := by
  cases p with
  | login p => rfl
  | verify p => rfl
  | rateLimit p =>
    obtain ⟨hlimit, hwindow⟩ := h
    have hw : ¬ p.window ≤ Duration.zero := Int.not_le.mpr hwindow
    simp [isMisconfigured, RatePolicy.isMisconfigured, hw, Int.not_le.mpr hlimit]

/-! ### Keys and counts -/

theorem refresh_fixedWindow {p : RatePolicy} (h : p.refill = .fixedWindow) (r : Record)
    (now : Instant) : (rateLimit p).refresh r now =
      if now < r.windowStart.after p.window then some r else none := by
  simp only [refresh, h]

theorem refresh_proportional {p : RatePolicy} (h : p.refill = .proportional) (r : Record)
    (now : Instant) : (rateLimit p).refresh r now = p.refilled r now := by
  simp only [refresh, h]

/-- What is left of a record is the record, or the record with the tokens that came back. -/
theorem refresh_cases (h : p.refresh r now = some r') :
    r' = r ∨ ∃ q : RatePolicy, p = rateLimit q ∧ q.refill = .proportional ∧
      q.tokensBack r now ≠ 0 ∧ max r.tokensLeft 0 + q.tokensBack r now < q.limit ∧
        r' = q.restored r (q.tokensBack r now) := by
  cases p with
  | login p =>
    simp only [refresh] at h
    split at h <;> cases h
    exact .inl rfl
  | verify p =>
    simp only [refresh] at h
    split at h <;> cases h
    exact .inl rfl
  | rateLimit p =>
    simp only [refresh] at h
    split at h
    · split at h <;> cases h
      exact .inl rfl
    · next hrefill =>
      rcases RatePolicy.refilled_cases h with ⟨-, rfl⟩ | ⟨hsome, hmissing, rfl⟩
      · exact .inl rfl
      · exact .inr ⟨p, rfl, hrefill, hsome, hmissing, rfl⟩

/-- What is left of a record has its key. -/
theorem refresh_key (h : p.refresh r now = some r') : r'.key = r.key := by
  rcases refresh_cases h with rfl | ⟨q, -, -, -, -, rfl⟩
  · rfl
  · rfl

/-- What is left of a record counts what it counted. -/
theorem refresh_attempts (h : p.refresh r now = some r') : r'.attempts = r.attempts := by
  rcases refresh_cases h with rfl | ⟨q, -, -, -, -, rfl⟩
  · rfl
  · rfl

/-- A failure leaves the live record's key, or makes a record of the key asked about. -/
theorem applyFailure_key (p : Policy) (live : Option Record) (k : Key) (now : Instant) :
    (p.applyFailure live k now).key = (live.map (·.key)).getD k := by
  cases p with
  | login p =>
    simp only [applyFailure]
    split
    · cases live <;> rfl
    · split <;> cases live <;> rfl
  | verify p => cases live <;> rfl
  | rateLimit p => cases live <;> rfl

/-- A failure counts one more than what is live. -/
theorem applyFailure_attempts (p : Policy) (live : Option Record) (k : Key) (now : Instant) :
    (p.applyFailure live k now).attempts = countUp ((live.map (·.attempts)).getD 0) := by
  cases p with
  | login p =>
    simp only [applyFailure]
    split
    · cases live <;> rfl
    · split <;> cases live <;> rfl
  | verify p => cases live <;> rfl
  | rateLimit p => cases live <;> rfl

/-- A failure does not move the beginning of a window; it begins one where none is live. -/
theorem applyFailure_windowStart (p : Policy) (live : Option Record) (k : Key) (now : Instant) :
    (p.applyFailure live k now).windowStart = (live.map (·.windowStart)).getD now := by
  cases p with
  | login p =>
    simp only [applyFailure]
    split
    · cases live <;> rfl
    · split <;> cases live <;> rfl
  | verify p => cases live <;> rfl
  | rateLimit p => cases live <;> rfl

theorem le_countUp_one {n : Nat} : 1 ≤ countUp n := by
  simp only [countUp, Counter.maxAttempts]
  omega

theorem countUp_le (n : Nat) : countUp n ≤ n + 1 := Nat.min_le_left _ _

/-! ### Records that still stand -/

/-- The record's time runs at an instant: its lock or window is not over, or its window or
the last failure is of that very instant. -/
def Stands (p : Policy) (r : Record) (now : Instant) : Prop :=
  match p with
  | login _ => now < r.expireAt
  | verify _ => r.updatedAt = now
  | rateLimit _ => r.windowStart = now

/-- No token comes back at the instant at which the window began. -/
theorem tokensBack_self (p : RatePolicy) (h : r.windowStart = now) : p.tokensBack r now = 0 := by
  have hsince : (now.since now).millis = 0 := by
    simp [Instant.since, Duration.millis]
  rw [RatePolicy.tokensBack, h, hsince]
  exact Int.zero_ediv _

theorem Stands.refresh (h : p.Stands r now) (hp : p.WellConfigured) (hnow : now < .latest) :
    p.refresh r now = some r := by
  cases p with
  | login p =>
    have hlive : r.isExpired now = false := decide_eq_false (not_le.mpr h)
    simp [Policy.refresh, hlive]
  | verify p =>
    have hlive : now ≤ r.updatedAt.after p.reset := by
      rw [show r.updatedAt = now from h]
      exact le_of_lt (Instant.lt_after hnow hp)
    simp [Policy.refresh, hlive]
  | rateLimit p =>
    have hstart : r.windowStart = now := h
    simp only [Policy.refresh]
    split
    · have hlive : now < r.windowStart.after p.window := by
        rw [hstart]
        exact Instant.lt_after hnow hp.2
      rw [if_pos hlive]
    · exact RatePolicy.refilled_of_none (tokensBack_self p hstart)

/-- A failure at an instant leaves a record that stands at it. -/
theorem stands_applyFailure {live : Option Record} (hp : p.WellConfigured) (hnow : now < .latest)
    (hlive : ∀ r ∈ live, p.Stands r now) : p.Stands (p.applyFailure live k now) now := by
  cases p with
  | login p =>
    simp only [applyFailure]
    split
    · next hlocked =>
      cases live with
      | none => simp [Record.fresh] at hlocked
      | some r => exact hlive r rfl
    · split
      · exact Instant.lt_after hnow hp.1
      · exact Instant.lt_after hnow hp.2
  | verify p => rfl
  | rateLimit p =>
    cases live with
    | none => rfl
    | some r => exact hlive r rfl

end Policy

end Gatehouse.Counter
