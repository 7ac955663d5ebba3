import Gatehouse.Proofs.Counter.Runs

/-! Stored records make sense.

The fields of a record say one thing several times over: the count of failures and whether
the subject is let through, the tokens that are left and when they will all be back. A
failure leaves them in agreement whenever it found them so (`coherent_nextRecord`), whatever
the clock says, and nothing else writes records. So every record that a run leaves in a store
is coherent and stands under its own storage key (`stored_coherent`), also where the clock
was set back in between. -/
namespace Gatehouse.Counter

/-- What a lockout keeps of every record: the threshold decides who is let through, and below
it failures are remembered for as long as was set, from the last of them. -/
structure LoginPolicy.Coherent (p : LoginPolicy) (r : Record) : Prop where
  counted : 1 ≤ r.attempts
  attempts_le : r.attempts ≤ Counter.maxAttempts
  allows_iff : r.allowRequest = true ↔ r.attempts < p.maxAttempts
  expireAt_eq : r.allowRequest = true → r.expireAt = r.updatedAt.after p.reset

/-- What verifications keep of every record: the threshold decides who is let through, and
failures are remembered for as long as was set, from the last of them. -/
structure VerifyPolicy.Coherent (p : VerifyPolicy) (r : Record) : Prop where
  counted : 1 ≤ r.attempts
  allows_iff : r.allowRequest = true ↔ r.attempts < p.maxAttempts
  expireAt_eq : r.expireAt = r.updatedAt.after p.reset

/-- What a rate limit keeps of every record: a token is missing, the event that took the last
one was still let through, and the record ends when all tokens are back. -/
structure RatePolicy.Coherent (p : RatePolicy) (r : Record) : Prop where
  le_tokensLeft : -1 ≤ r.tokensLeft
  tokensLeft_le : r.tokensLeft ≤ p.limit - 1
  allows_iff : r.allowRequest = true ↔ 0 ≤ r.tokensLeft
  expireAt_eq : r.expireAt = p.windowEnd r

namespace Policy

/-- What a policy keeps of every record. -/
def Coherent : Policy → Record → Prop
  | login p => p.Coherent
  | verify p => p.Coherent
  | rateLimit p => p.Coherent

theorem countUp_le_maxAttempts (n : Nat) : countUp n ≤ Counter.maxAttempts := Nat.min_le_right _ _

/-- A count does not go back, as long as it is no larger than counts get. -/
theorem le_countUp {n : Nat} (h : n ≤ Counter.maxAttempts) : n ≤ countUp n :=
  Nat.le_min.mpr ⟨Nat.le_succ n, h⟩

section Failures
variable {r : Record} {k : Key} {now : Instant}

/-- A failed login while the account is open counts up to the threshold. -/
theorem coherent_login_open (p : LoginPolicy) (hopen : r.allowRequest = true) :
    p.Coherent ((login p).applyFailure (some r) k now) := by
  have hone : 1 ≤ countUp r.attempts := le_countUp_one
  have hlast := countUp_le_maxAttempts r.attempts
  by_cases hmax : p.maxAttempts ≤ countUp r.attempts
  · constructor <;> simp [applyFailure, hopen, hmax, hone, hlast]
  · have hbelow := Nat.lt_of_not_le hmax
    constructor <;> simp [applyFailure, hopen, hmax, hone, hlast, hbelow]

/-- A failed login under a lock leaves the count at the threshold or above it. -/
theorem coherent_login_locked {p : LoginPolicy} (h : p.Coherent r)
    (hlocked : r.allowRequest = false) :
    p.Coherent ((login p).applyFailure (some r) k now) := by
  have hone : 1 ≤ countUp r.attempts := le_countUp_one
  have hlast := countUp_le_maxAttempts r.attempts
  have hreached : ¬ r.attempts < p.maxAttempts := by
    rw [← h.allows_iff, hlocked]
    exact Bool.false_ne_true
  have hgrows := le_countUp h.attempts_le
  have hstays : ¬ countUp r.attempts < p.maxAttempts := by omega
  constructor <;> simp [applyFailure, hlocked, hone, hlast, hstays]

theorem coherent_verify (p : VerifyPolicy) (live : Option Record) :
    p.Coherent ((verify p).applyFailure live k now) where
  counted := le_countUp_one
  allows_iff := decide_eq_true_iff
  expireAt_eq := rfl

theorem coherent_first_token {p : RatePolicy} (hlimit : 0 < p.limit) :
    p.Coherent ((rateLimit p).applyFailure none k now) where
  le_tokensLeft := by
    show -1 ≤ p.limit - 1
    omega
  tokensLeft_le := Int.le_refl _
  allows_iff := decide_eq_true_iff
  expireAt_eq := rfl

theorem coherent_next_token {p : RatePolicy} (hlimit : 0 < p.limit) (hr : r.tokensLeft < p.limit) :
    p.Coherent ((rateLimit p).applyFailure (some r) k now) where
  le_tokensLeft := Int.le_max_right _ _
  tokensLeft_le := by
    show max (r.tokensLeft - 1) (-1) ≤ p.limit - 1
    omega
  allows_iff := decide_eq_true_iff
  expireAt_eq := rfl

end Failures

theorem pos_limit_of_configured {p : RatePolicy} (h : (rateLimit p).isMisconfigured = false) :
    0 < p.limit := by
  simp only [isMisconfigured, RatePolicy.isMisconfigured, Bool.or_eq_false_iff,
    decide_eq_false_iff_not] at h
  omega

end Policy

namespace Engine
variable {p : Policy} {k : Key} {now : Instant} {stored : Option Record}

/-- A failure leaves a coherent record on top of a coherent one, or on top of none. -/
theorem coherent_nextRecord (hp : p.isMisconfigured = false)
    (hstored : ∀ r ∈ stored, p.Coherent r) : p.Coherent (nextRecord p k now stored) := by
  rw [nextRecord]
  cases hlive : live p stored now with
  | none =>
    cases p with
    | login q => exact Policy.coherent_login_open q (r := .fresh k now) (k := k) rfl
    | verify q => exact Policy.coherent_verify q none
    | rateLimit q => exact Policy.coherent_first_token (Policy.pos_limit_of_configured hp)
  | some r =>
    obtain ⟨r₀, hfound, hrefresh⟩ := Option.bind_eq_some_iff.mp hlive
    have hr₀ := hstored r₀ hfound
    rcases Policy.refresh_cases hrefresh with rfl | ⟨q, rfl, -, -, hmissing, rfl⟩
    · cases p with
      | login q =>
        cases hallow : r.allowRequest with
        | true => exact Policy.coherent_login_open q hallow
        | false => exact Policy.coherent_login_locked hr₀ hallow
      | verify q => exact Policy.coherent_verify q (some r)
      | rateLimit q =>
        have htokens : r.tokensLeft ≤ q.limit - 1 := hr₀.tokensLeft_le
        exact Policy.coherent_next_token (Policy.pos_limit_of_configured hp) (by omega)
    · exact Policy.coherent_next_token (Policy.pos_limit_of_configured hp) hmissing

/-- **Stored records keep their sense.** Whatever the policies are, and whatever happens at
whatever instants to the counters of a store that begins without records: every record that
is stored stands under its own storage key and is coherent under its key's policy. -/
theorem stored_coherent (policy : Key → Policy) (es : List (Key × Event × Instant)) :
    ∀ e ∈ ((counters policy).after {} es).records.toList,
      e.1 = e.2.key.storageKey ∧ (policy e.2.key).Coherent e.2 := by
  have hkept : ∀ e : Key × Event × Instant, True → (policy e.1).isMisconfigured = false →
      ∀ stored, (∀ r ∈ stored, r.key = e.1 ∧ (policy r.key).Coherent r) →
        (policy (nextRecord (policy e.1) e.1 e.2.2 stored).key).Coherent
          (nextRecord (policy e.1) e.1 e.2.2 stored) := by
    intro e _ hp stored hstored
    rw [nextRecord_key fun r hr => (hstored r hr).1]
    refine coherent_nextRecord hp fun r hr => ?_
    obtain ⟨hkey, hr⟩ := hstored r hr
    rwa [hkey] at hr
  have hstocked : Stocked (fun r => (policy r.key).Coherent r) ((counters policy).after {} es) :=
    (stocked_empty _).after hkept fun _ _ => trivial
  exact fun e he => ⟨(hstocked.keyed e he).symm, hstocked.all e he⟩

/-- The clock is set back by most of a minute, and no token of the bucket's two is back. -/
theorem stored_coherent_clock_set_back :
    let p : RatePolicy := ⟨2, .seconds 60, .proportional⟩
    let k : Key := ⟨.rateLimit, { reference := .domain "acme", subject := "alice" }⟩
    let policy : Key → Policy := fun _ => .rateLimit p
    let es : List (Key × Event × Instant) :=
      [(k, .failed, .ofMillis 60000), (k, .failed, .ofMillis 1000)]
    let r : Record :=
      { key := k, attempts := 2, tokensLeft := 0, allowRequest := true,
        windowStart := .ofMillis 60000, createdAt := .ofMillis 60000,
        updatedAt := .ofMillis 1000, expireAt := .ofMillis 120000 }
    (k.storageKey, r) ∈ ((counters policy).after {} es).records.toList ∧
      k.storageKey = r.key.storageKey ∧ p.Coherent r := by
  intro p k policy es r
  have hstored : (k.storageKey, r) ∈ ((counters policy).after {} es).records.toList := by
    decide +kernel
  exact ⟨hstored, stored_coherent policy es _ hstored⟩

end Engine

end Gatehouse.Counter
