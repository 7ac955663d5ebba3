import Gatehouse.Proofs.Counter.Waiting
import Gatehouse.Proofs.Time.Leap

/-! Until the last of the seconds told.

The seconds that a denied caller is told to wait are rounded up, so they may be more than the time
left, but by less than a second: whoever comes back before the last of them has begun is denied,
under a policy of any kind (`denied_until_last_second`). In leap seconds the times that are told
and the times that are measured do not agree, and there a caller may be let in before
(`let_in_before_last_second`). -/
namespace Gatehouse.Counter

section Rounding
variable {deadline now t : Instant} {n : Nat}

/-- Seconds are not rounded up by a whole one. -/
theorem lt_since_of_secondsUntil (h : secondsUntil deadline now = n + 1) :
    n * 1000000000 < (deadline.since now).nanos := by
  simp only [secondsUntil] at h
  split at h
  · cases h
  · have hmillis : (n * 1000 + 1 : Int) ≤ (deadline.since now).millis := by omega
    rw [Duration.le_millis_iff (by omega)] at hmillis
    omega

/-- Before the last of the seconds told, but not at once, the deadline is yet to come. -/
theorem lt_deadline (hdeadline : deadline.IsRegular) (hnow : now.InRange)
    (h : secondsUntil deadline now = n + 1) (hn : 0 < n) (ht : t ≤ now.after (.seconds n)) :
    t < deadline := by
  have hsince := lt_since_of_secondsUntil h
  have hspan : Instant.perSecond ≤ (Duration.seconds n).nanos ∧
      (Duration.seconds n).nanos ≤ n * 1000000000 := by
    simp only [Instant.perSecond, Duration.seconds_eq_clamp, Duration.clamp, Duration.shortest,
      Duration.longest, Duration.nanosPerSecond]
    omega
  have hbefore := Instant.nanos_after_lt hdeadline hnow hspan.1 (by omega)
  have hle := Instant.nanos_le_of_le ht
  exact Instant.lt_iff.mpr (.inl (by omega))

end Rounding

/-- No token comes back before the moment told, as seen outside leap seconds. -/
theorem RatePolicy.tokensBack_eq_zero_of_lt {p : RatePolicy} {r : Record} {t : Instant}
    (ht : t.Plain) (hend : (r.windowStart.after p.tokenInterval).IsRegular)
    (hlt : t < r.windowStart.after p.tokenInterval) : p.tokensBack r t = 0 := by
  have hinterval := p.tokenInterval_pos
  rw [Instant.after_eq_held hinterval hend] at hlt
  have hbefore := Instant.nanos_lt_of_lt_held ht.2 hlt
  have hsince := Instant.since_le (b := r.windowStart) ht.1
  have hpositive := p.intervalMillis_pos
  have hmillis : ¬p.intervalMillis ≤ (t.since r.windowStart).millis := by
    rw [Duration.le_millis_iff hpositive]
    rw [p.tokenInterval_nanos] at hbefore
    omega
  exact Int.ediv_eq_zero_of_lt (Int.le_max_right _ _) (by omega)

namespace Policy
variable {p : Policy} {r : Record} {now t : Instant}

/-- A record that refuses goes on refusing until the moment told. -/
theorem shut_of_lt_retryAt (hrefuses : r.allowRequest = false) (ht : t.InRange)
    (hend : (p.retryAt r).IsRegular) (hregular : p.measuresTime = true → t.IsRegular)
    (hlt : t < p.retryAt r) : p.Shut r t := by
  refine ⟨?_, hrefuses⟩
  cases p with
  | login p =>
    have hlive : r.isExpired t = false := decide_eq_false (not_le.mpr hlt)
    simp [refresh, hlive]
  | verify p => exact if_pos (le_of_lt hlt)
  | rateLimit p =>
    cases hrefill : p.refill with
    | fixedWindow =>
      rw [refresh_fixedWindow hrefill]
      simp only [retryAt, RatePolicy.nextTokenAt, hrefill] at hlt
      exact if_pos hlt
    | proportional =>
      rw [refresh_proportional hrefill]
      simp only [retryAt, RatePolicy.nextTokenAt, hrefill] at hlt hend
      have ht : t.Plain := ⟨hregular (by simp [measuresTime, hrefill]), ht⟩
      exact RatePolicy.refilled_of_none (RatePolicy.tokensBack_eq_zero_of_lt ht hend hlt)

/-- A record that refuses denies whoever comes. -/
theorem Shut.denies (h : p.Shut r t) : (p.decide (p.refresh r t) t).allowed = false := by
  rw [h.live]
  exact h.refuses

end Policy

namespace Engine
variable {p : Policy} {k : Key} {s later : Memory} {e : Event × Instant} {d : Decision}

/-- **A denied caller is denied until the last of the seconds told.** Under a well-configured policy
of any kind, from any store, a look or a failure at an instant of the calendar is denied, and the
caller is told to wait for `n + 1` seconds; then nothing happens to the key. A look at the same
instant is denied; and where the moment told lies outside leap seconds, so is a look at every
instant up to `n` seconds later, but those in leap seconds where tokens come back one by one. -/
theorem denied_until_last_second (hp : p.WellConfigured) (hs : s.Keyed) (hrange : e.2.InRange)
    (hlast : e.2 < .latest) (hd : ((counter p k).next e s).1 = some (.ok d))
    (hdenied : d.allowed = false) {n : Nat} (hsecs : d.retryAfterSecs = n + 1)
    (hkey : later.find? k = ((counter p k).next e s).2.find? k) :
    ∃ r ∈ d.record,
      (∃ d', (later.run (evaluate p k e.2)).1 = .ok d' ∧ d'.allowed = false) ∧
      ((p.retryAt r).IsRegular → ∀ t, e.2 ≤ t → t ≤ e.2.after (.seconds n) →
        (p.measuresTime = true → t.IsRegular) →
        ∃ d', (later.run (evaluate p k t)).1 = .ok d' ∧ d'.allowed = false) := by
  obtain ⟨r, hr, hshut, htold, hfind⟩ := shut_of_denied hp hs hd hdenied
    fun _ _ _ hspan _ => Instant.lt_after hlast hspan
  have hlook : ∀ t, p.Shut r t →
      ∃ d', (later.run (evaluate p k t)).1 = .ok d' ∧ d'.allowed = false := fun t hshut => by
    rw [run_evaluate hp.not_misconfigured, hkey, hfind]
    exact ⟨_, rfl, hshut.denies⟩
  refine ⟨r, hr, hlook e.2 hshut, fun hend t hfrom hto hregular => hlook t ?_⟩
  rcases Nat.eq_zero_or_pos n with rfl | hn
  · -- no second goes by, so the look is at the same instant
    have hnow : Instant.after e.2 (.seconds (0 : Nat)) = e.2 := Instant.after_zero hrange
    rw [hnow] at hto
    exact le_antisymm hto hfrom ▸ hshut
  · have hlt : t < p.retryAt r := lt_deadline hend hrange (htold ▸ hsecs) hn hto
    have ht : t.InRange := ⟨Int.le_trans hrange.1 (Instant.nanos_le_of_le hfrom),
      Instant.nanos_le_of_le (le_trans hto (Instant.after_le_latest (le_of_lt hlast) _))⟩
    exact Policy.shut_of_lt_retryAt hshut.refuses ht hend hregular hlt

/-- One event a minute, and a second one is refused. Half a second into the minute the caller is
told to wait a minute, and 59 seconds later, with half a second to go, is denied. -/
theorem denied_until_last_second_of_a_minute :
    let p : Policy := .rateLimit ⟨1, .seconds 60, .proportional⟩
    let k : Key := ⟨.rateLimit, { reference := .domain "acme", subject := "alice" }⟩
    let taken := nextRecord p k .epoch none
    let s := ({} : Memory).put (nextRecord p k .epoch (some taken))
    let d := p.decide (live p (s.find? k) (.ofMillis 500)) (.ofMillis 500)
    d.allowed = false ∧ d.retryAfterSecs = 60 ∧
      ∃ d', (s.run (evaluate p k (.ofMillis 59500))).1 = .ok d' ∧ d'.allowed = false := by
  intro p k taken s d
  have hsecs : d.retryAfterSecs = 59 + 1 := by decide +kernel
  obtain ⟨r, hr, -, hdenied⟩ := denied_until_last_second (p := p) (k := k)
    (e := (.evaluated, .ofMillis 500)) (by decide) (Memory.keyed_empty.put _) (by decide)
    (by decide) rfl (by decide +kernel) hsecs rfl
  have hend : ∀ r ∈ d.record, (p.retryAt r).IsRegular := by decide +kernel
  exact ⟨by decide +kernel, hsecs, hdenied (hend r hr) (.ofMillis 59500) (by decide)
    (by decide +kernel) fun _ => rfl⟩

/-- In leap seconds the wait may be over before. At the second before one a caller has just used
the only event of a second and a half, and is told to wait two seconds, the first of which passes
over the leap second; but within the leap second more than a second and a half is measured. And a
lock of half a second, begun in a leap second, ends in it: a clock set back ten seconds and a bit
tells eleven seconds, and ten seconds from there pass over the leap second and the lock's end. -/
theorem let_in_before_last_second :
    let rate : Policy := .rateLimit ⟨1, .ofMillis 1500, .proportional⟩
    let login : Policy := .login ⟨1, .ofMillis 500, .seconds 600⟩
    let events : Key := ⟨.rateLimit, { reference := .domain "acme", subject := "alice" }⟩
    let logins : Key := ⟨.login, { reference := .domain "acme", subject := "alice" }⟩
    let inLeapSecond (millis : Nat) : Instant := ⟨1483228799999999999, millis * 1000000 + 1⟩
    let before : Instant := .ofMillis 1483228799000
    let early : Instant := .ofMillis 1483228790000
    let told (p : Policy) (k : Key) (s : Memory) (t : Instant) :=
      (s.run (evaluate p k t)).1.toOption.map fun d => (d.allowed, d.retryAfterSecs)
    let used := (counter rate events).after {} [(.failed, before), (.failed, before)]
    let locked := (counter login logins).after {} [(.failed, inLeapSecond 100)]
    (rate.WellConfigured ∧ told rate events used before = some (false, 2) ∧
      before ≤ inLeapSecond 900 ∧ inLeapSecond 900 ≤ before.after (.seconds 1) ∧
      told rate events used (inLeapSecond 900) = some (true, 0)) ∧
    (login.WellConfigured ∧ told login logins locked early = some (false, 11) ∧
      told login logins locked (early.after (.seconds 10)) = some (true, 0)) := by
  decide +kernel

end Engine

end Gatehouse.Counter
