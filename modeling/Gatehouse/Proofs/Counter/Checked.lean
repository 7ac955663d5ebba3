import Gatehouse.Proofs.Counter.Refill
import Gatehouse.Proofs.Time.Width

/-! Policies on numbers of a width.

Limits may be as large as 64 bits allow, windows as long as a span can be, and a record that was
written under one policy may be read under any other, at any instant. Here what a policy makes of a
record is computed on numbers of a width, one operation after the other, and comes to what it comes
to without a width: what is left of the record (`Policy.checkedRefresh_eq`), the record after a
failure (`Policy.checkedFailure_eq`) and what is decided (`Policy.checkedDecide_eq`).

Two products carry the weight. Tokens that came back took no more time than has elapsed
(`checkedOfMillis_tokensBack`), and those that are missing take no more than a window, or a
millisecond each (`Sensible.intervalMillis_mul_le`). The differences need something of the record
(`Record.Told`), which every failure leaves behind (`Policy.applyFailure_told`). -/
namespace Gatehouse.Counter

open Instant (calendarMillis)

/-! ### Policies and records whose numbers fit -/

/-- Whether the numbers of a policy fit their types. -/
def Policy.Told : Policy → Prop
  | .login p => p.maxAttempts ≤ Counter.maxAttempts ∧ p.lockout.InRange ∧ p.reset.InRange
  | .verify p => p.maxAttempts ≤ Counter.maxAttempts ∧ p.reset.InRange
  | .rateLimit p => Word.Fits p.limit ∧ p.window.InRange

instance (p : Policy) : Decidable p.Told :=
  match p with
  | .login p => inferInstanceAs (Decidable (p.maxAttempts ≤ Counter.maxAttempts ∧ _ ∧ _))
  | .verify p => inferInstanceAs (Decidable (p.maxAttempts ≤ Counter.maxAttempts ∧ _))
  | .rateLimit p => inferInstanceAs (Decidable (Word.Fits p.limit ∧ _))

/-- What a record that a failure left can be relied on for. -/
structure Record.Told (r : Record) : Prop where
  tokens_least : -1 ≤ r.tokensLeft
  tokens_greatest : r.tokensLeft ≤ Word.greatest
  windowStart : r.windowStart.OnCalendar
  updatedAt : r.updatedAt.OnCalendar
  expireAt : r.expireAt.OnCalendar

/-! ### Rate limits -/

namespace RatePolicy

/-- The time in which one token comes back. -/
def checkedInterval (p : RatePolicy) : Checked Duration := do
  let window ← p.window.checkedMillis
  let millis ← Word.div window (max p.limit 1)
  Duration.checkedOfMillis (max millis 1)

/-- When all tokens are back. -/
def checkedWindowEnd (p : RatePolicy) (r : Record) : Checked Instant :=
  match p.refill with
  | .fixedWindow => .ok (r.windowStart.after p.window)
  | .proportional => do
    let missing ← Word.sub p.limit (max r.tokensLeft 0)
    let span ← (← p.checkedInterval).checkedTimes (max 0 (min maxMissing missing))
    return r.windowStart.after span

/-- When the next token is back. -/
def checkedNextTokenAt (p : RatePolicy) (r : Record) : Checked Instant :=
  match p.refill with
  | .fixedWindow => .ok (r.windowStart.after p.window)
  | .proportional => do return r.windowStart.after (← p.checkedInterval)

/-- Gives back the tokens that have come back. -/
def checkedRefilled (p : RatePolicy) (r : Record) (now : Instant) : Checked (Option Record) := do
  let interval ← (← p.checkedInterval).checkedMillis
  let elapsed ← (← now.checkedSince r.windowStart).checkedMillis
  let back ← Word.div (max elapsed 0) interval
  if back = 0 then return some r
  else
    let tokens := Word.addUpTo (max r.tokensLeft 0) back
    if p.limit ≤ tokens then return none
    else
      let span ← Duration.checkedOfMillis (← Word.mul back interval)
      return some
        { r with
          tokensLeft := tokens
          allowRequest := true
          windowStart := r.windowStart.after span }

/-- The number of tokens after one more event. -/
def checkedTokens (p : RatePolicy) : Option Record → Checked Int
  | some r => do return max (← Word.sub r.tokensLeft 1) (-1)
  | none => Word.sub p.limit 1

section Checked
variable {p : RatePolicy} {r : Record} {now : Instant}

/-- A limit that makes sense, of numbers that fit. -/
structure Sensible (p : RatePolicy) : Prop where
  limit_pos : 0 < p.limit
  limit_le : p.limit ≤ Word.greatest
  window_pos : 0 < p.window.nanos
  window_fits : p.window.InRange

theorem Sensible.millis_nonneg (h : p.Sensible) : 0 ≤ p.window.millis :=
  Int.tdiv_nonneg (Int.le_of_lt h.window_pos) (by decide)

theorem Sensible.max_limit (h : p.Sensible) : max p.limit 1 = p.limit := Int.max_eq_left h.limit_pos

theorem Sensible.intervalMillis_eq (h : p.Sensible) :
    p.intervalMillis = max (p.window.millis / p.limit) 1 := by
  rw [intervalMillis, h.max_limit, Int.tdiv_eq_ediv_of_nonneg h.millis_nonneg]

/-- As many tokens as the limit come back within a window; or else each comes back in a
millisecond, and only so many are waited for at once. -/
theorem Sensible.intervalMillis_mul_le (h : p.Sensible) {n : Int} (hlimit : n ≤ p.limit)
    (hmissing : n ≤ maxMissing) : p.intervalMillis * n ≤ Word.greatest := by
  rw [h.intervalMillis_eq]
  rcases Int.le_total (p.window.millis / p.limit) 1 with hless | hmore
  -- A window too short for its limit: here `n ≤ p.limit` bounds nothing.
  · have hmax : maxMissing ≤ Word.greatest := by decide
    rw [Int.max_eq_right hless]
    omega
  · rw [Int.max_eq_left hmore]
    calc p.window.millis / p.limit * n
        ≤ p.window.millis / p.limit * p.limit := Int.mul_le_mul_of_nonneg_left hlimit (by omega)
      _ ≤ p.window.millis := Int.ediv_mul_le _ (Int.ne_of_gt h.limit_pos)
      _ ≤ Word.greatest := h.window_fits.millis_fits.2

theorem Sensible.intervalMillis_le (h : p.Sensible) : p.intervalMillis ≤ Word.greatest := by
  have hone := h.intervalMillis_mul_le (n := 1) h.limit_pos (by decide)
  rwa [Int.mul_one] at hone

theorem Sensible.checkedOfMillis_interval (h : p.Sensible) :
    Duration.checkedOfMillis p.intervalMillis = .ok p.tokenInterval := by
  have hpos := p.intervalMillis_pos
  have hleast : -Word.greatest ≤ 1 := by decide
  exact Duration.checkedOfMillis_of_fits (by omega) h.intervalMillis_le

theorem Sensible.checkedInterval_eq (h : p.Sensible) : p.checkedInterval = .ok p.tokenInterval := by
  have hdiv : Word.div p.window.millis p.limit = .ok (p.window.millis / p.limit) :=
    Word.div_of_pos h.millis_nonneg h.window_fits.millis_fits.2 h.limit_pos
  simp only [checkedInterval, h.window_fits.checkedMillis, h.max_limit, hdiv, bind, Except.bind,
    ← h.intervalMillis_eq, h.checkedOfMillis_interval]

theorem Sensible.checkedNextTokenAt_eq (h : p.Sensible) (r : Record) :
    p.checkedNextTokenAt r = .ok (p.nextTokenAt r) := by
  unfold checkedNextTokenAt nextTokenAt
  cases p.refill with
  | fixedWindow => rfl
  | proportional =>
    simp only [h.checkedInterval_eq, bind, Except.bind]
    rfl

theorem Sensible.checkedTimes_interval (h : p.Sensible) {n : Int} (hn : 0 ≤ n)
    (hlimit : n ≤ p.limit) (hmissing : n ≤ maxMissing) :
    p.tokenInterval.checkedTimes n = .ok (p.tokenSpan n) := by
  have hpos := p.intervalMillis_pos
  have hnonneg : 0 ≤ p.intervalMillis * n := Int.mul_nonneg (by omega) hn
  have hle := h.intervalMillis_mul_le hlimit hmissing
  have hgreatest : Word.greatest = 9223372036854775807 := rfl
  have hmax : maxMissing = 2147483647 := rfl
  have hnanos : p.tokenInterval.nanos * n = p.intervalMillis * n * 1000000 :=
    Int.mul_right_comm _ _ _
  rw [Duration.checkedTimes, if_pos (by omega)]
  refine if_pos ⟨?_, ?_⟩
  · show -9223372036854775807000000 ≤ p.tokenInterval.nanos * n
    omega
  · show p.tokenInterval.nanos * n ≤ 9223372036854775807000000
    omega

theorem Sensible.checkedWindowEnd_eq (h : p.Sensible) (htokens : r.tokensLeft ≤ Word.greatest) :
    p.checkedWindowEnd r = .ok (p.windowEnd r) := by
  have hlimit := h.limit_pos
  have hlimit' := h.limit_le
  have hleast : Word.least = -9223372036854775808 := rfl
  have hgreatest : Word.greatest = 9223372036854775807 := rfl
  have hsub : Word.sub p.limit (max r.tokensLeft 0) = .ok (p.limit - max r.tokensLeft 0) :=
    Word.check_of_fits ⟨by omega, by omega⟩
  unfold checkedWindowEnd windowEnd
  cases p.refill with
  | fixedWindow => rfl
  | proportional =>
    have hmax : maxMissing = 2147483647 := rfl
    have hspan : p.tokenInterval.checkedTimes (max 0 (min maxMissing
        (p.limit - max r.tokensLeft 0))) = .ok (p.tokenSpan (p.missing r)) :=
      h.checkedTimes_interval (by omega) (by omega) (by omega)
    simp only [hsub, h.checkedInterval_eq, hspan, bind, Except.bind]
    rfl

theorem windowEnd_onCalendar (p : RatePolicy) (hr : r.windowStart.OnCalendar) :
    (p.windowEnd r).OnCalendar := by
  unfold windowEnd
  split <;> exact hr.after _

theorem Sensible.checkedMillis_interval (h : p.Sensible) :
    p.tokenInterval.checkedMillis = .ok p.intervalMillis := by
  have hpos := p.intervalMillis_pos
  have hleast : Word.least ≤ 1 := by decide
  rw [Duration.checkedMillis, tokenInterval, Duration.millis_ofMillis]
  exact Word.check_of_fits ⟨by omega, h.intervalMillis_le⟩

/-- The tokens that came back took no more time than has elapsed. -/
theorem tokensBack_mul_intervalMillis_le (p : RatePolicy) (r : Record) (now : Instant) :
    p.tokensBack r now * p.intervalMillis ≤ max (now.since r.windowStart).millis 0 :=
  Int.ediv_mul_le _ (Int.ne_of_gt p.intervalMillis_pos)

theorem checkedOfMillis_tokensBack (hr : r.windowStart.OnCalendar) (hnow : now.OnCalendar) :
    Word.mul (p.tokensBack r now) p.intervalMillis =
        .ok (p.tokensBack r now * p.intervalMillis) ∧
      Duration.checkedOfMillis (p.tokensBack r now * p.intervalMillis) =
        .ok (p.tokenSpan (p.tokensBack r now)) := by
  have hle := tokensBack_mul_intervalMillis_le p r now
  have helapsed := hnow.millis_since_le hr
  have hpos := p.intervalMillis_pos
  have hnonneg : 0 ≤ p.tokensBack r now * p.intervalMillis :=
    Int.mul_nonneg (tokensBack_nonneg p r now) (by omega)
  have hcalendar : 0 ≤ calendarMillis ∧ calendarMillis ≤ Word.greatest := by decide
  have hleast : Word.least ≤ 0 := by decide
  refine ⟨Word.check_of_fits ⟨by omega, by omega⟩, ?_⟩
  rw [Duration.checkedOfMillis_of_fits (by omega) (by omega), tokenSpan, Int.mul_comm]
  exact congrArg _ (congrArg _ (Int.mul_right_comm _ _ _))

theorem Sensible.checkedRefilled_eq (h : p.Sensible) (hr : r.Told) (hnow : now.OnCalendar) :
    p.checkedRefilled r now = .ok (p.refilled r now) := by
  have hnonneg := tokensBack_nonneg p r now
  have helapsed := hnow.millis_since_le hr.windowStart
  have hcalendar : 0 ≤ calendarMillis ∧ calendarMillis ≤ Word.greatest := by decide
  have hdiv : Word.div (max (now.since r.windowStart).millis 0) p.intervalMillis =
      .ok (p.tokensBack r now) :=
    Word.div_of_pos (Int.le_max_right _ _) (by omega) p.intervalMillis_pos
  obtain ⟨hmul, hspan⟩ := checkedOfMillis_tokensBack (p := p) hr.windowStart hnow
  have hall := Word.le_addUpTo_iff (Int.le_max_right r.tokensLeft 0) hnonneg h.limit_le
  simp only [checkedRefilled, refilled, h.checkedInterval_eq, h.checkedMillis_interval,
    hnow.checkedSince hr.windowStart, (hnow.since_inRange hr.windowStart).checkedMillis, hdiv,
    bind, Except.bind]
  split
  · rfl
  · split
    · next hlapsed =>
      -- A sum that is cut off at the last word reaches the limit just where the full one does.
      rw [if_pos (hall.mp hlapsed)]
      rfl
    · next hmissing =>
      have hless := Int.not_le.mp fun hle => hmissing (hall.mpr hle)
      have htokens := Word.addUpTo_of_lt (Int.le_max_right r.tokensLeft 0) hnonneg
        (by have := h.limit_le; omega)
      rw [if_neg (Int.not_le.mpr hless), hmul, htokens]
      simp only [hspan]
      rfl

end Checked

end RatePolicy

/-! ### Policies -/

/-- Whole seconds until a deadline, rounded up. -/
def checkedSecondsUntil (deadline now : Instant) : Checked Nat := do
  let millis ← (← deadline.checkedSince now).checkedMillis
  if millis ≤ 0 then return 0
  else return (← Word.div (← Word.add millis 999) 1000).toNat

theorem checkedSecondsUntil_eq {deadline now : Instant} (hdeadline : deadline.OnCalendar)
    (hnow : now.OnCalendar) : checkedSecondsUntil deadline now = .ok (secondsUntil deadline now) := by
  have hle := hdeadline.millis_since_le hnow
  have hcalendar : calendarMillis + 999 ≤ Word.greatest := by decide
  have hleast : Word.least ≤ 0 := by decide
  simp only [checkedSecondsUntil, secondsUntil, hdeadline.checkedSince hnow,
    (hdeadline.since_inRange hnow).checkedMillis, bind, Except.bind]
  split
  · rfl
  · have hadd : Word.add (deadline.since now).millis 999 = .ok ((deadline.since now).millis + 999) :=
      Word.check_of_fits ⟨by omega, by omega⟩
    simp only [hadd, Word.div_of_pos (a := (deadline.since now).millis + 999) (b := 1000) (by omega)
      (by omega) (by decide)]
    rfl

theorem Record.told_fresh (k : Key) {now : Instant} (hnow : now.OnCalendar) :
    (Record.fresh k now).Told where
  tokens_least := (by decide : (-1 : Int) ≤ 0)
  tokens_greatest := (by decide : (0 : Int) ≤ Word.greatest)
  windowStart := hnow
  updatedAt := hnow
  expireAt := hnow

namespace Policy

/-- What is left of stored state. -/
def checkedRefresh (p : Policy) (r : Record) (now : Instant) : Checked (Option Record) :=
  match p with
  | rateLimit q =>
    match q.refill with
    | .fixedWindow => .ok (p.refresh r now)
    | .proportional => q.checkedRefilled r now
  | _ => .ok (p.refresh r now)

/-- The state after one more failure, or one more event under a rate limit. The other kinds only
count up, which ends at the largest count, and set instants. -/
def checkedFailure (p : Policy) (live : Option Record) (key : Key) (now : Instant) :
    Checked Record :=
  match p with
  | rateLimit q => do
    let tokens ← q.checkedTokens live
    let r :=
      { live.getD (.fresh key now) with
        tokensLeft := tokens
        allowRequest := 0 ≤ tokens
        attempts := countUp (live.getD (.fresh key now)).attempts
        updatedAt := now }
    return { r with expireAt := ← q.checkedWindowEnd r }
  | _ => .ok (p.applyFailure live key now)

/-- When a refused request may be tried again. -/
def checkedRetryAt (p : Policy) (r : Record) : Checked Instant :=
  match p with
  | rateLimit q => q.checkedNextTokenAt r
  | _ => .ok (p.retryAt r)

/-- What is decided from the state that is left. -/
def checkedDecide (p : Policy) (live : Option Record) (now : Instant) : Checked Decision :=
  match live with
  | some r => do
    let seconds ←
      if r.allowRequest then .ok 0 else do checkedSecondsUntil (← p.checkedRetryAt r) now
    return { p.decideLive r now with retryAfterSecs := seconds }
  | none => .ok p.decideFresh

variable {p : Policy} {r r' : Record} {live : Option Record} {k : Key} {now : Instant}

theorem Told.sensible {q : RatePolicy} (h : (rateLimit q).Told)
    (hok : (rateLimit q).isMisconfigured = false) : q.Sensible := by
  obtain ⟨hlimit, hwindow⟩ : ¬q.limit ≤ 0 ∧ ¬q.window ≤ Duration.zero := by
    simpa [isMisconfigured, RatePolicy.isMisconfigured] using hok
  exact ⟨Int.not_le.mp hlimit, h.1.2, Int.not_le.mp hwindow, h.2⟩

theorem checkedRefresh_eq (hp : p.Told) (hok : p.isMisconfigured = false) (hr : r.Told)
    (hnow : now.OnCalendar) : p.checkedRefresh r now = .ok (p.refresh r now) := by
  cases p with
  | login | verify => rfl
  | rateLimit q =>
    cases hrefill : q.refill with
    | fixedWindow => simp only [checkedRefresh, hrefill]
    | proportional =>
      simp only [checkedRefresh, refresh, hrefill]
      exact (hp.sensible hok).checkedRefilled_eq hr hnow

/-- What is left of a record can be told. -/
theorem refresh_told (hp : p.Told) (hr : r.Told) (h : p.refresh r now = some r') : r'.Told := by
  rcases refresh_cases h with rfl | ⟨q, rfl, -, -, hmissing, rfl⟩
  · exact hr
  · have hback := q.tokensBack_nonneg r now
    have hlimit : q.limit ≤ Word.greatest := hp.1.2
    exact
      { tokens_least := by show -1 ≤ max r.tokensLeft 0 + q.tokensBack r now; omega
        tokens_greatest := by
          show max r.tokensLeft 0 + q.tokensBack r now ≤ Word.greatest
          omega
        windowStart := hr.windowStart.after _
        updatedAt := hr.updatedAt
        expireAt := hr.expireAt }

theorem checkedRetryAt_eq (hp : p.Told) (hok : p.isMisconfigured = false) (r : Record) :
    p.checkedRetryAt r = .ok (p.retryAt r) := by
  cases p with
  | login | verify => rfl
  | rateLimit q => exact (hp.sensible hok).checkedNextTokenAt_eq r

theorem retryAt_onCalendar (p : Policy) (hr : r.Told) : (p.retryAt r).OnCalendar := by
  cases p with
  | login q => exact hr.expireAt
  | verify q => exact hr.updatedAt.after _
  | rateLimit q =>
    simp only [retryAt, RatePolicy.nextTokenAt]
    split <;> exact hr.windowStart.after _

theorem checkedDecide_eq (hp : p.Told) (hok : p.isMisconfigured = false)
    (hlive : ∀ r ∈ live, r.Told) (hnow : now.OnCalendar) :
    p.checkedDecide live now = .ok (p.decide live now) := by
  cases live with
  | none => rfl
  | some r =>
    have hseconds := checkedSecondsUntil_eq (p.retryAt_onCalendar (hlive r rfl)) hnow
    simp only [checkedDecide, checkedRetryAt_eq hp hok, hseconds, bind, Except.bind, decide,
      decideLive]
    split <;> rfl

/-- What a failure starts from can be told. -/
theorem told_getD_fresh (k : Key) (hlive : ∀ r ∈ live, r.Told) (hnow : now.OnCalendar) :
    (live.getD (.fresh k now)).Told := by
  cases live with
  | none => exact Record.told_fresh k hnow
  | some r => exact hlive r rfl

theorem checkedTokens_eq {q : RatePolicy} (h : q.Sensible) (hlive : ∀ r ∈ live, r.Told) (k : Key)
    (now : Instant) :
    q.checkedTokens live = .ok ((rateLimit q).applyFailure live k now).tokensLeft ∧
      -1 ≤ ((rateLimit q).applyFailure live k now).tokensLeft ∧
      ((rateLimit q).applyFailure live k now).tokensLeft ≤ Word.greatest := by
  have hleast : Word.least = -9223372036854775808 := rfl
  cases live with
  | none =>
    have hlimit := h.limit_pos
    have hlimit' := h.limit_le
    have hsub : Word.sub q.limit 1 = .ok (q.limit - 1) :=
      Word.check_of_fits ⟨by omega, by omega⟩
    refine ⟨hsub, ?_, ?_⟩
    · show -1 ≤ q.limit - 1
      omega
    · show q.limit - 1 ≤ Word.greatest
      omega
  | some r =>
    have hr := hlive r rfl
    have hlow := hr.tokens_least
    have hhigh := hr.tokens_greatest
    have hsub : Word.sub r.tokensLeft 1 = .ok (r.tokensLeft - 1) :=
      Word.check_of_fits ⟨by omega, by omega⟩
    refine ⟨?_, ?_, ?_⟩
    · simp only [RatePolicy.checkedTokens, hsub, bind, Except.bind]
      rfl
    · exact Int.le_max_right _ _
    · show max (r.tokensLeft - 1) (-1) ≤ Word.greatest
      omega

/-- The record that a failure leaves can be told. -/
theorem applyFailure_told (hp : p.Told) (hok : p.isMisconfigured = false)
    (hlive : ∀ r ∈ live, r.Told) (hnow : now.OnCalendar) :
    (p.applyFailure live k now).Told := by
  have hfrom := told_getD_fresh k hlive hnow
  cases p with
  | login q =>
    simp only [applyFailure]
    split
    · exact { hfrom with updatedAt := hnow }
    · split <;> exact { hfrom with updatedAt := hnow, expireAt := hnow.after _ }
  | verify q => exact { hfrom with updatedAt := hnow, expireAt := hnow.after _ }
  | rateLimit q =>
    obtain ⟨-, hlow, hhigh⟩ := checkedTokens_eq (hp.sensible hok) hlive k now
    have hstart : ((rateLimit q).applyFailure live k now).windowStart.OnCalendar := by
      cases live with
      | none => exact hnow
      | some r => exact (hlive r rfl).windowStart
    exact ⟨hlow, hhigh, hstart, hnow, q.windowEnd_onCalendar hstart⟩

theorem checkedFailure_eq (hp : p.Told) (hok : p.isMisconfigured = false)
    (hlive : ∀ r ∈ live, r.Told) :
    p.checkedFailure live k now = .ok (p.applyFailure live k now) := by
  cases p with
  | login | verify => rfl
  | rateLimit q =>
    obtain ⟨htokens, hlow, hhigh⟩ := checkedTokens_eq (hp.sensible hok) hlive k now
    simp only [checkedFailure, htokens, bind, Except.bind]
    rw [(hp.sensible hok).checkedWindowEnd_eq]
    · cases live <;> rfl
    · exact hhigh

/-- A record of fewer tokens than a failure leaves would not do. -/
example : (rateLimit ⟨1, .longest, .proportional⟩).checkedFailure
    (some { Record.fresh default .epoch with tokensLeft := Word.least }) default .epoch =
      .error .unfit := rfl

end Policy

end Gatehouse.Counter
