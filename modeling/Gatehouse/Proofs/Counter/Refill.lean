import Gatehouse.Proofs.Counter.Expiry

/-! Tokens that come back one by one.

Outside leap seconds the tokens that have come back are counted by plain division of the
time that has passed (`tokensBack_eq`). What a record is still good for is the time that its
tokens stand for, less the time from which the next one is counted (`worth`). Giving tokens
back leaves it as it was, as the time moves on by as much (`Flowing.refilled`); only a full
bucket is worth less than the record before it (`Flowing.lapsed`), since no time is counted
towards a token beyond the limit. -/
namespace Gatehouse.Counter.RatePolicy

variable {p : RatePolicy} {r r' : Record} {t u : Instant}

/-! ### The time of one token -/

theorem tokenInterval_nanos (p : RatePolicy) :
    p.tokenInterval.nanos = 1000000 * p.intervalMillis := Int.mul_comm _ _

theorem tokenInterval_pos (p : RatePolicy) : 0 < p.tokenInterval.nanos := by
  have hmillis := p.intervalMillis_pos
  rw [tokenInterval_nanos]
  omega

theorem tokenSpan_eq (p : RatePolicy) (n : Int) :
    (p.tokenSpan n).nanos = n * p.tokenInterval.nanos := Int.mul_comm _ _

/-- A limit that makes sense gives a token back in its share of the window, rounded down to
whole milliseconds, but in no less than one. -/
theorem intervalMillis_eq (hp : (Policy.rateLimit p).WellConfigured) :
    p.intervalMillis = max 1 (p.window.nanos / (1000000 * p.limit)) := by
  obtain ⟨hlimit, hwindow⟩ := hp
  have hone : max p.limit 1 = p.limit := by omega
  have hmillis : p.window.millis = p.window.nanos / 1000000 :=
    Int.tdiv_eq_ediv_of_nonneg (Int.le_of_lt hwindow)
  have hnonneg : 0 ≤ p.window.nanos / 1000000 := Int.ediv_nonneg (Int.le_of_lt hwindow) (by decide)
  rw [intervalMillis, hone, hmillis, Int.tdiv_eq_ediv_of_nonneg hnonneg,
    Int.ediv_ediv_of_nonneg (by decide), Int.max_comm]

/-! ### Tokens by plain division -/

theorem tokensBack_nonneg (p : RatePolicy) (r : Record) (t : Instant) : 0 ≤ p.tokensBack r t :=
  Int.ediv_nonneg (Int.le_max_right _ _) (Int.le_of_lt p.intervalMillis_pos)

theorem tokensBack_eq (hstart : r.windowStart.Plain) (ht : t.Plain)
    (hle : r.windowStart.nanos ≤ t.nanos) :
    p.tokensBack r t = (t.nanos - r.windowStart.nanos) / p.tokenInterval.nanos := by
  have hnonneg : 0 ≤ (t.nanos - r.windowStart.nanos) / 1000000 :=
    Int.ediv_nonneg (by omega) (by decide)
  rw [tokensBack, ht.millis_since hstart hle, Int.max_eq_left hnonneg,
    Int.ediv_ediv_of_nonneg (by decide), tokenInterval_nanos]

/-- Before its window has begun, no token of a record has come back. -/
theorem tokensBack_early (p : RatePolicy) (hstart : r.windowStart.Plain) (ht : t.Plain)
    (hearly : t.nanos < r.windowStart.nanos) : p.tokensBack r t = 0 := by
  have hsince := Instant.since_of_regular ht.1 hstart.1
  have hmillis : ¬1 ≤ (t.since r.windowStart).millis := by
    rw [Duration.le_millis_iff (by decide)]
    omega
  have hnone : max (t.since r.windowStart).millis 0 = 0 := by omega
  rw [tokensBack, hnone, Int.zero_ediv]

/-- The first token comes back when its time is over. -/
theorem tokensBack_eq_zero_iff (hstart : r.windowStart.Plain) (ht : t.Plain)
    (hlast : r.windowStart.after p.tokenInterval < .latest) :
    p.tokensBack r t = 0 ↔ t < r.windowStart.after p.tokenInterval := by
  have hinterval := p.tokenInterval_pos
  rw [ht.lt_iff (hstart.after _), hstart.nanos_after_of_lt_latest (Int.le_of_lt hinterval) hlast]
  rcases Int.lt_or_le t.nanos r.windowStart.nanos with hearly | hbegun
  · have hnone := tokensBack_early p hstart ht hearly
    omega
  · rw [tokensBack_eq hstart ht hbegun]
    constructor
    · intro hnone
      have hlt := Int.lt_ediv_add_one_mul_self (t.nanos - r.windowStart.nanos) hinterval
      rw [hnone] at hlt
      omega
    · intro hlt
      exact Int.ediv_eq_zero_of_lt (by omega) (by omega)

/-! ### Tokens given back -/

section Begun
variable (hstart : r.windowStart.Plain) (ht : t.Plain) (hle : r.windowStart.nanos ≤ t.nanos)
include hstart ht hle

theorem tokensBack_mul_le :
    p.tokensBack r t * p.tokenInterval.nanos ≤ t.nanos - r.windowStart.nanos := by
  rw [tokensBack_eq hstart ht hle]
  exact Int.ediv_mul_le _ (Int.ne_of_gt p.tokenInterval_pos)

/-- The next token is counted from the instant at which the last one came back. -/
theorem nanos_restored : (p.restored r (p.tokensBack r t)).windowStart.nanos =
    r.windowStart.nanos + p.tokensBack r t * p.tokenInterval.nanos := by
  have hspent := tokensBack_mul_le (p := p) hstart ht hle
  have hspan := p.tokenSpan_eq (p.tokensBack r t)
  have hnonneg := Int.mul_nonneg (tokensBack_nonneg p r t) (Int.le_of_lt p.tokenInterval_pos)
  have hlast := ht.2.2
  show Instant.nanos (Instant.after _ _) = _
  rw [hstart.nanos_after (by omega) (by omega), hspan]

end Begun

/-- The first token is back after one token's time. -/
theorem tokensBack_after_tokenInterval (hstart : r.windowStart.Plain)
    (hlast : r.windowStart.nanos + p.tokenInterval.nanos ≤ Instant.latest.nanos) :
    p.tokensBack r (r.windowStart.after p.tokenInterval) = 1 := by
  have hinterval := p.tokenInterval_pos
  have hnanos := hstart.nanos_after (Int.le_of_lt hinterval) hlast
  have hpassed : (r.windowStart.after p.tokenInterval).nanos - r.windowStart.nanos =
      p.tokenInterval.nanos := by omega
  rw [tokensBack_eq hstart (hstart.after _) (by omega), hpassed]
  exact Int.ediv_self (Int.ne_of_gt hinterval)

/-! ### The worth of a record -/

/-- What a record is still good for, in nanoseconds. -/
def worth (p : RatePolicy) (r : Record) : Int :=
  max r.tokensLeft 0 * p.tokenInterval.nanos - r.windowStart.nanos

/-- A record as it is found at an instant: a token is missing, and its window has begun. -/
structure Flowing (p : RatePolicy) (r : Record) (t : Instant) : Prop where
  tokens : r.tokensLeft < p.limit
  start : r.windowStart.Plain
  begun : r.windowStart.nanos ≤ t.nanos

theorem Flowing.mono (h : p.Flowing r t) (hle : t.nanos ≤ u.nanos) : p.Flowing r u :=
  { h with begun := Int.le_trans h.begun hle }

/-- No record is worth less than nothing, but for the time that has gone by. -/
theorem Flowing.neg_le_worth (h : p.Flowing r t) : -t.nanos ≤ p.worth r := by
  have hbegun := h.begun
  have htokens : 0 ≤ max r.tokensLeft 0 * p.tokenInterval.nanos :=
    Int.mul_nonneg (by omega) (Int.le_of_lt p.tokenInterval_pos)
  unfold worth
  omega

/-- A record with less than one token's time to its credit is worth no full bucket. -/
theorem worth_le (hlimit : 0 < p.limit) (htokens : r.tokensLeft < p.limit)
    (hrest : t.nanos - r.windowStart.nanos < p.tokenInterval.nanos) :
    p.worth r ≤ p.limit * p.tokenInterval.nanos - t.nanos := by
  have hcap : (max r.tokensLeft 0 + 1) * p.tokenInterval.nanos ≤ p.limit * p.tokenInterval.nanos :=
    Int.mul_le_mul_of_nonneg_right (by omega) (Int.le_of_lt p.tokenInterval_pos)
  rw [Int.add_mul] at hcap
  unfold worth
  omega

section Division
variable (h : p.Flowing r t) (ht : t.Plain)
include h ht

theorem Flowing.lt_tokensBack_mul :
    t.nanos - r.windowStart.nanos <
      p.tokensBack r t * p.tokenInterval.nanos + p.tokenInterval.nanos := by
  have hlt := Int.lt_ediv_add_one_mul_self (t.nanos - r.windowStart.nanos) p.tokenInterval_pos
  rwa [← tokensBack_eq h.start ht h.begun, Int.add_mul, Int.one_mul] at hlt

/-- What is left of a record is worth what the record was, with less than one token's time
to its credit. -/
theorem Flowing.refilled (hlive : p.refilled r t = some r') :
    p.Flowing r' t ∧ p.worth r' = p.worth r ∧
      t.nanos - r'.windowStart.nanos < p.tokenInterval.nanos := by
  have hspent := tokensBack_mul_le (p := p) h.start ht h.begun
  have hrest := h.lt_tokensBack_mul ht
  rcases refilled_cases hlive with ⟨hnone, rfl⟩ | ⟨-, hmissing, rfl⟩
  · rw [hnone] at hrest
    exact ⟨h, rfl, by omega⟩
  · have hback := tokensBack_nonneg p r t
    have hmoved := nanos_restored (p := p) h.start ht h.begun
    refine ⟨⟨hmissing, h.start.after _, by omega⟩, ?_, by omega⟩
    have htokens : max (max r.tokensLeft 0 + p.tokensBack r t) 0 =
        max r.tokensLeft 0 + p.tokensBack r t := Int.max_eq_left (by omega)
    rw [worth, worth, hmoved]
    show max (max r.tokensLeft 0 + p.tokensBack r t) 0 * _ - _ = _
    rw [htokens, Int.add_mul]
    omega

/-- A record of which nothing is left was worth a full bucket. -/
theorem Flowing.lapsed (hlapsed : p.refilled r t = none) :
    p.limit * p.tokenInterval.nanos - t.nanos ≤ p.worth r := by
  have hspent := tokensBack_mul_le (p := p) h.start ht h.begun
  simp only [RatePolicy.refilled] at hlapsed
  split at hlapsed
  · cases hlapsed
  · split at hlapsed
    · next hall =>
      have hfull : p.limit * p.tokenInterval.nanos ≤
          (max r.tokensLeft 0 + p.tokensBack r t) * p.tokenInterval.nanos :=
        Int.mul_le_mul_of_nonneg_right hall (Int.le_of_lt p.tokenInterval_pos)
      rw [Int.add_mul] at hfull
      unfold worth
      omega
    · cases hlapsed

end Division

end Gatehouse.Counter.RatePolicy
