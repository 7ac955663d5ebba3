import Gatehouse.Proofs.Counter.Engine

/-! Records lapse by the end they tell.

A record tells its end when it is written, and whether it has lapsed is found out when it is
read: by that end for a login, by the start of the window for a rate limit, and where
tokens come back one by one, by the number that came back since. For the records that a
policy writes (`Policy.Dated`) the two agree: at its end a record has lapsed
(`Dated.lapses`). Where tokens are counted by the time that has passed, this takes instants
outside leap seconds. -/
namespace Gatehouse.Counter

namespace RatePolicy
variable {p : RatePolicy} {r r' : Record} {t : Instant}

/-! ### Tokens that come back -/

theorem intervalMillis_pos (p : RatePolicy) : 0 < p.intervalMillis := by
  unfold intervalMillis
  omega

theorem tokenSpan_nanos (p : RatePolicy) (n : Int) :
    (p.tokenSpan n).nanos = p.intervalMillis * n * 1000000 := by
  show p.intervalMillis * 1000000 * n = _
  rw [Int.mul_right_comm]

/-- Tokens are back once the time in which they come back is over. -/
theorem le_tokensBack (hstart : r.windowStart.IsRegular) (ht : t.IsRegular) {n : Int} (hn : 0 ≤ n)
    (h : r.windowStart.nanos + (p.tokenSpan n).nanos ≤ t.nanos) : n ≤ p.tokensBack r t := by
  have hinterval := p.intervalMillis_pos
  have hproduct : 0 ≤ p.intervalMillis * n := Int.mul_nonneg (Int.le_of_lt hinterval) hn
  rw [tokenSpan_nanos] at h
  have hmillis : p.intervalMillis * n ≤ (t.since r.windowStart).millis := by
    have hsince := Instant.since_of_regular ht hstart
    unfold Duration.millis
    rw [Int.tdiv_eq_ediv_of_nonneg (by rw [hsince]; omega), hsince]
    refine Int.le_ediv_of_mul_le (by decide) ?_
    show p.intervalMillis * n * 1000000 ≤ _
    omega
  unfold tokensBack
  refine Int.le_ediv_of_mul_le hinterval ?_
  rw [Int.mul_comm]
  exact Int.le_trans hmillis (Int.le_max_left _ _)

/-! ### Records of a rate limit -/

/-- What a rate limit keeps of every record: a token is missing, and where tokens come back
one by one, their time began outside leap seconds. -/
structure Paced (p : RatePolicy) (r : Record) : Prop where
  tokens : r.tokensLeft < p.limit
  start : p.refill = .proportional → r.windowStart.IsRegular

theorem Paced.missing_eq (h : p.Paced r) (hpos : 0 < p.limit) (hlimit : p.limit ≤ maxMissing) :
    p.missing r = p.limit - max r.tokensLeft 0 ∧ 0 < p.missing r := by
  have htokens := h.tokens
  unfold missing
  omega

/-- Giving back tokens that are not all of them leaves one missing. -/
theorem Paced.restored (h : p.Paced r) {n : Int} (hmissing : max r.tokensLeft 0 + n < p.limit) :
    p.Paced (p.restored r n) := by
  refine ⟨hmissing, fun hrefill => ?_⟩
  show Instant.IsRegular (Instant.after _ _)
  rw [Instant.after_of_regular (h.start hrefill)]
  exact Instant.held_isRegular _

/-- All tokens are back when the record tells that they are. -/
theorem Paced.refilled_eq_none (h : p.Paced r) (hrefill : p.refill = .proportional)
    (hpos : 0 < p.limit) (hlimit : p.limit ≤ maxMissing) (ht : t.IsRegular) (hlt : t < .latest)
    (hend : p.windowEnd r ≤ t) : p.refilled r t = none := by
  obtain ⟨hmissing, hsome⟩ := h.missing_eq hpos hlimit
  have hstart := h.start hrefill
  have hover : r.windowStart.nanos + (p.tokenSpan (p.missing r)).nanos ≤ t.nanos := by
    simp only [windowEnd, hrefill, Instant.after_of_regular hstart] at hend
    exact Instant.le_nanos_of_held_le hlt hend
  have hback := le_tokensBack hstart ht (Int.le_of_lt hsome) hover
  have hnotnone : p.tokensBack r t ≠ 0 := by omega
  have hall : p.limit ≤ max r.tokensLeft 0 + p.tokensBack r t := by omega
  exact refilled_of_all hnotnone hall

end RatePolicy

/-! ### Records of a policy -/

namespace Policy

/-- Whether the time that has passed is measured, as tokens come back one by one. -/
def measuresTime : Policy → Bool
  | rateLimit p => p.refill == .proportional
  | _ => false

/-- The policies whose records may go when their time is over: those of logins, and those
of rate limits that are never too large for their missing tokens to be waited for. -/
def Purgeable : Policy → Prop
  | login _ => True
  | verify _ => False
  | rateLimit p => p.limit ≤ RatePolicy.maxMissing

instance (p : Policy) : Decidable p.Purgeable :=
  match p with
  | login _ => inferInstanceAs (Decidable True)
  | verify _ => inferInstanceAs (Decidable False)
  | rateLimit p => inferInstanceAs (Decidable (p.limit ≤ RatePolicy.maxMissing))

/-- An instant before the end of the calendar, and outside leap seconds where time is
measured. -/
structure Covers (p : Policy) (t : Instant) : Prop where
  lt_latest : t < .latest
  regular : p.measuresTime = true → t.IsRegular

/-- A record as a policy writes it. -/
def Dated (p : Policy) (r : Record) : Prop :=
  match p with
  | rateLimit p => p.Paced r ∧ r.expireAt = p.windowEnd r
  | _ => True

variable {p : Policy} {r : Record} {t : Instant}

/-- **A record has lapsed when its time is over.** -/
theorem Dated.lapses (h : p.Dated r) (hp : p.WellConfigured) (hpurge : p.Purgeable)
    (ht : p.Covers t) (hend : r.expireAt ≤ t) : p.refresh r t = none := by
  cases p with
  | login p =>
    have hexpired : r.isExpired t = true := decide_eq_true hend
    simp [refresh, hexpired]
  | verify p => cases hpurge
  | rateLimit p =>
    obtain ⟨hpaced, hexpire⟩ := h
    rw [hexpire] at hend
    cases hrefill : p.refill with
    | fixedWindow =>
      have hover : ¬ t < r.windowStart.after p.window := by
        simp only [RatePolicy.windowEnd, hrefill] at hend
        exact not_lt.mpr hend
      rw [refresh_fixedWindow hrefill, if_neg hover]
    | proportional =>
      have hregular : t.IsRegular := ht.regular (by simp [measuresTime, hrefill])
      rw [refresh_proportional hrefill]
      exact hpaced.refilled_eq_none hrefill hp.1 hpurge hregular ht.lt_latest hend

/-- What is left of a rate limit's record is one of its records. -/
theorem paced_of_refresh {p : RatePolicy} {r' : Record} (h : p.Paced r)
    (hlive : (rateLimit p).refresh r t = some r') : p.Paced r' := by
  rcases refresh_cases hlive with rfl | ⟨q, hq, -, -, hmissing, rfl⟩
  · exact h
  · cases hq
    exact h.restored hmissing

/-- A failure leaves a record as the policy writes it. -/
theorem dated_nextRecord {k : Key} {stored : Option Record} (hp : p.WellConfigured)
    (ht : p.Covers t) (hstored : ∀ r ∈ stored, p.Dated r) :
    p.Dated (Engine.nextRecord p k t stored) := by
  cases p with
  | login p => trivial
  | verify p => trivial
  | rateLimit p =>
    refine ⟨?_, rfl⟩
    have hpos : 0 < p.limit := hp.1
    unfold Engine.nextRecord
    cases hlive : Engine.live (rateLimit p) stored t with
    | none =>
      refine ⟨?_, fun hrefill => ht.regular (by simp [measuresTime, hrefill])⟩
      show p.limit - 1 < p.limit
      omega
    | some r =>
      obtain ⟨r₀, hfound, hrefresh⟩ := Option.bind_eq_some_iff.mp hlive
      have hpaced : p.Paced r := paced_of_refresh (hstored r₀ hfound).1 hrefresh
      have htokens := hpaced.tokens
      refine ⟨?_, hpaced.start⟩
      show max (r.tokensLeft - 1) (-1) < p.limit
      omega

end Policy

end Gatehouse.Counter
