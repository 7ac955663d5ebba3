import Gatehouse.Proofs.Counter.Login
import Gatehouse.Proofs.Counter.Refill
import Gatehouse.Proofs.Counter.Runs

/-! Waiting as long as one is told.

A denied caller is told in how many seconds the request may be made again. For logins and
rate limits that moment is the one at which a lock, a window or the wait for a token is over;
failed verifications are still remembered at the moment told, and forgotten after it
(`Policy.Reopened`). Between the denial and that moment nothing but the clock decides
(`Denied.shut`), so whether the caller is let through after the wait depends on how the
time left is rounded to seconds. It is cut to whole milliseconds before it is rounded up,
which makes the wait too short where less than a millisecond goes beyond whole seconds
(`allowed_after_waiting_iff`, `forgotten_after_waiting_iff`). -/
namespace Gatehouse.Counter

section Rounding
variable {deadline now : Instant}

theorem secondsUntil_eq (hd : deadline.Plain) (hn : now.Plain) (hle : now.nanos ≤ deadline.nanos) :
    (secondsUntil deadline now : Int) = (deadline.nanos - now.nanos) / 1000000000 +
      if 1000000 ≤ (deadline.nanos - now.nanos) % 1000000000 then 1 else 0 := by
  have hmillis := hd.millis_since hn hle
  simp only [secondsUntil, hmillis]
  split <;> split <;> omega

/-- The moment to which the wait leads, as far as the deadline is concerned. -/
theorem nanos_after_secondsUntil (hd : deadline.Plain) (hn : now.Plain)
    (hle : now.nanos ≤ deadline.nanos) :
    (now.after (.seconds (secondsUntil deadline now))).nanos =
      min (now.nanos + secondsUntil deadline now * 1000000000) Instant.latest.nanos := by
  have hsecs := secondsUntil_eq hd hn hle
  have hfirst : -8334601228800000000000 ≤ now.nanos := hn.2.1
  have hlast : deadline.nanos ≤ 8210266876799999999999 := hd.2.2
  have hspan := Duration.seconds_nanos (n := (secondsUntil deadline now : Int)) (by omega) (by
    split at hsecs <;> omega)
  rw [hn.nanos_after_eq_min (by omega), hspan]

/-- The wait ends at the deadline or later, unless what goes beyond whole seconds is less than
a millisecond. -/
theorem le_after_secondsUntil_iff (hd : deadline.Plain) (hn : now.Plain)
    (hle : now.nanos ≤ deadline.nanos) (hlast : deadline < .latest) :
    deadline ≤ now.after (.seconds (secondsUntil deadline now)) ↔
      (deadline.since now).subsecond = 0 ∨ 1000000 ≤ (deadline.since now).subsecond := by
  have hsecs := secondsUntil_eq hd hn hle
  have hwait := nanos_after_secondsUntil hd hn hle
  have hnanos := Instant.nanos_lt_of_lt_latest hlast
  rw [hd.le_iff (hn.after _), hwait, hd.subsecond_since hn hle]
  split at hsecs <;> omega

/-- The wait ends later than the deadline where a millisecond or more goes beyond whole seconds. -/
theorem lt_after_secondsUntil_iff (hd : deadline.Plain) (hn : now.Plain)
    (hle : now.nanos ≤ deadline.nanos) (hlast : deadline < .latest) :
    deadline < now.after (.seconds (secondsUntil deadline now)) ↔
      1000000 ≤ (deadline.since now).subsecond := by
  have hsecs := secondsUntil_eq hd hn hle
  have hwait := nanos_after_secondsUntil hd hn hle
  have hnanos := Instant.nanos_lt_of_lt_latest hlast
  rw [hd.lt_iff (hn.after _), hwait, hd.subsecond_since hn hle]
  split at hsecs <;> omega

end Rounding

/-! ### Records told outside leap seconds -/

/-- The times by which a record lapses lie outside leap seconds. -/
structure Record.Plain (r : Record) : Prop where
  start : r.windowStart.Plain
  updated : r.updatedAt.Plain
  expire : r.expireAt.Plain

namespace Policy
variable {p : Policy} {r r' : Record} {k : Key} {t now : Instant}

theorem plain_retryAt (h : r.Plain) : (p.retryAt r).Plain := by
  cases p with
  | login p => exact h.expire
  | verify p => exact h.updated.after _
  | rateLimit p =>
    simp only [retryAt, RatePolicy.nextTokenAt]
    split
    · exact h.start.after _
    · exact h.start.after _

theorem plain_refresh (h : r.Plain) (hlive : p.refresh r now = some r') : r'.Plain := by
  rcases refresh_cases hlive with rfl | ⟨q, -, -, -, -, rfl⟩
  · exact h
  · exact { h with start := h.start.after _ }

theorem plain_applyFailure {live : Option Record} (hnow : now.Plain) (h : ∀ r ∈ live, r.Plain) :
    (p.applyFailure live k now).Plain := by
  have hfrom : (live.getD (.fresh k now)).Plain := by
    cases live with
    | none => exact ⟨hnow, hnow, hnow⟩
    | some r => exact h r rfl
  cases p with
  | login p =>
    simp only [applyFailure]
    split
    · exact ⟨hfrom.start, hnow, hfrom.expire⟩
    · split
      · exact ⟨hfrom.start, hnow, hnow.after _⟩
      · exact ⟨hfrom.start, hnow, hnow.after _⟩
  | verify p => exact ⟨hfrom.start, hnow, hnow.after _⟩
  | rateLimit p =>
    have hend : ∀ r : Record, r.windowStart.Plain → (p.windowEnd r).Plain := fun r hr => by
      simp only [RatePolicy.windowEnd]
      split
      · exact hr.after _
      · exact hr.after _
    cases live with
    | none => exact ⟨hnow, hnow, hend _ hnow⟩
    | some r => exact ⟨hfrom.start, hnow, hend _ hfrom.start⟩

/-! ### Refusing, and letting through again -/

/-- When a request that a record refuses is let through: from the moment told on or, for
verifications, after it. -/
def Reopened (p : Policy) (r : Record) (t : Instant) : Prop :=
  match p with
  | verify _ => p.retryAt r < t
  | _ => p.retryAt r ≤ t

/-- The record is live and refuses. -/
structure Shut (p : Policy) (r : Record) (now : Instant) : Prop where
  live : p.refresh r now = some r
  refuses : r.allowRequest = false

theorem decideFresh_allowed (p : Policy) : p.decideFresh.allowed = true := by
  cases p <;> rfl

theorem decideLive_allowed (p : Policy) (r : Record) (t : Instant) :
    (p.decideLive r t).allowed = r.allowRequest := rfl

/-- Where tokens come back one by one, the first that does lets events through again. -/
theorem allowed_refilled_iff {p : RatePolicy} (hrefuses : r.allowRequest = false) :
    ((rateLimit p).decide (p.refilled r t) t).allowed = true ↔ p.tokensBack r t ≠ 0 := by
  unfold RatePolicy.refilled
  by_cases hnone : p.tokensBack r t = 0
  · simp [hnone, decide, decideLive_allowed, hrefuses]
  · simp only [hnone, if_false, ne_eq, not_false_eq_true, iff_true]
    split
    · exact decideFresh_allowed _
    · rfl

/-- **What lets a refused caller in again is the clock alone**: the decision turns at the
moment told. -/
theorem allowed_iff_reopened (hr : r.Plain) (hrefuses : r.allowRequest = false) (ht : t.Plain)
    (hlast : p.retryAt r < .latest) :
    (p.decide (p.refresh r t) t).allowed = true ↔ p.Reopened r t := by
  have hshut : (p.decideLive r t).allowed = false := hrefuses
  have hopen := p.decideFresh_allowed
  cases p with
  | login p =>
    by_cases hover : r.expireAt ≤ t
    · simp [refresh, Record.isExpired, Reopened, retryAt, decide, hover, hopen]
    · simp [refresh, Record.isExpired, Reopened, retryAt, decide, hover, hshut]
  | verify p =>
    by_cases hlive : t ≤ r.updatedAt.after p.reset
    · simp [refresh, Reopened, retryAt, decide, hlive, hshut, not_lt.mpr hlive]
    · simp [refresh, Reopened, retryAt, decide, hlive, hopen, not_le.mp hlive]
  | rateLimit p =>
    cases hrefill : p.refill with
    | fixedWindow =>
      by_cases hlive : t < r.windowStart.after p.window
      · simp [refresh, Reopened, retryAt, RatePolicy.nextTokenAt, hrefill, decide, hlive, hshut]
      · simp [refresh, Reopened, retryAt, RatePolicy.nextTokenAt, hrefill, decide, hlive, hopen,
          not_lt.mp hlive]
    | proportional =>
      have hmoment : (rateLimit p).retryAt r = r.windowStart.after p.tokenInterval := by
        simp only [retryAt, RatePolicy.nextTokenAt, hrefill]
      have hnext : r.windowStart.after p.tokenInterval < .latest := hmoment ▸ hlast
      simp only [refresh, hrefill, Reopened, hmoment]
      rw [allowed_refilled_iff hrefuses, ne_eq, RatePolicy.tokensBack_eq_zero_iff hr.start ht hnext,
        not_lt]

theorem Shut.not_reopened (h : p.Shut r now) (hr : r.Plain) (hnow : now.Plain)
    (hlast : p.retryAt r < .latest) : ¬ p.Reopened r now := by
  rw [← allowed_iff_reopened hr h.refuses hnow hlast, h.live]
  simp [decide, decideLive_allowed, h.refuses]

/-- While a record refuses, the moment told is yet to come. -/
theorem Shut.le_retryAt (h : p.Shut r now) (hr : r.Plain) (hnow : now.Plain)
    (hlast : p.retryAt r < .latest) : now.nanos ≤ (p.retryAt r).nanos := by
  refine Instant.nanos_le_of_le ?_
  have hclosed := h.not_reopened hr hnow hlast
  cases p with
  | login p => exact le_of_lt (not_le.mp hclosed)
  | verify p => exact not_lt.mp hclosed
  | rateLimit p => exact le_of_lt (not_le.mp hclosed)

/-- What is left of a record and refuses is the record as it was. -/
theorem shut_of_refresh (hlive : p.refresh r' now = some r) (hrefuses : r.allowRequest = false) :
    r = r' ∧ p.Shut r now := by
  rcases refresh_cases hlive with rfl | ⟨q, -, -, -, -, rfl⟩
  · exact ⟨rfl, hlive, hrefuses⟩
  · cases hrefuses

/-- An event that is refused leaves a record that is live: where tokens came back, the event
would have taken one of them. -/
theorem live_of_refused {p : RatePolicy} {stored : Option Record} (hp : (rateLimit p).WellConfigured)
    (hrefuses : (Engine.nextRecord (.rateLimit p) k now stored).allowRequest = false) :
    (rateLimit p).refresh (Engine.nextRecord (.rateLimit p) k now stored) now =
      some (Engine.nextRecord (.rateLimit p) k now stored) := by
  unfold Engine.nextRecord at hrefuses ⊢
  cases hlive : Engine.live (.rateLimit p) stored now with
  | none =>
    rw [hlive] at hrefuses
    have hlimit : 0 < p.limit := hp.1
    have hnone : ¬ 0 ≤ p.limit - 1 := of_decide_eq_false hrefuses
    omega
  | some r =>
    rw [hlive] at hrefuses
    have htokens : ¬ 0 ≤ max (r.tokensLeft - 1) (-1) := of_decide_eq_false hrefuses
    obtain ⟨r₀, -, hrefresh⟩ := Option.bind_eq_some_iff.mp hlive
    simp only [refresh] at hrefresh ⊢
    split at hrefresh
    · split at hrefresh <;> cases hrefresh
      next hopen => exact if_pos hopen
    · rcases RatePolicy.refilled_cases hrefresh with ⟨hnone, rfl⟩ | ⟨hsome, -, rfl⟩
      · exact if_pos hnone
      · have hcount := p.tokensBack_nonneg r₀ now
        have htokens : ¬ 0 ≤ max (max r₀.tokensLeft 0 + p.tokensBack r₀ now - 1) (-1) := htokens
        omega

/-- A failure that is denied leaves a record that refuses from then on, if the moment told lies
ahead wherever it is counted from the failure. -/
theorem shut_nextRecord {stored : Option Record} (hp : p.WellConfigured)
    (hahead : ∀ d : Duration, 0 < d.nanos →
      p.retryAt (Engine.nextRecord p k now stored) = now.after d → now < now.after d)
    (hrefuses : (Engine.nextRecord p k now stored).allowRequest = false) :
    p.Shut (Engine.nextRecord p k now stored) now := by
  refine ⟨?_, hrefuses⟩
  cases p with
  | login p =>
    have hlock : now < (Engine.nextRecord (.login p) k now stored).expireAt := by
      cases p.nextRecord_cases k now stored with
      | keeps r₀ hlive _ _ hend =>
        rw [hend]
        exact (LoginPolicy.live_eq_some p now hlive).2
      | locks _ _ hend =>
        rw [hend]
        exact hahead p.lockout hp.1 hend
      | counts _ hopen _ =>
        rw [hrefuses] at hopen
        cases hopen
    have hlive : (Engine.nextRecord (.login p) k now stored).isExpired now = false :=
      decide_eq_false (not_le.mpr hlock)
    simp [refresh, hlive]
  | verify p => exact if_pos (le_of_lt (hahead p.reset hp rfl))
  | rateLimit p => exact live_of_refused hp hrefuses

end Policy

namespace Engine
variable {p : Policy} {k : Key} {s : Memory} {now : Instant}

/-! ### The wait that a caller is told -/

theorem plain_nextRecord {stored : Option Record} (hnow : now.Plain)
    (hstored : ∀ r ∈ stored, r.Plain) : (nextRecord p k now stored).Plain := by
  refine Policy.plain_applyFailure hnow fun r hlive => ?_
  obtain ⟨r₀, hfound, hrefresh⟩ := Option.bind_eq_some_iff.mp hlive
  exact Policy.plain_refresh (hstored r₀ hfound) hrefresh

/-- The record that a denial is decided from is stored, refuses, and tells the seconds of the
wait. -/
theorem shut_of_denied {e : Event × Instant} {d : Decision} (hp : p.WellConfigured) (hs : s.Keyed)
    (hd : ((counter p k).next e s).1 = some (.ok d)) (hdenied : d.allowed = false)
    (hahead : ∀ r ∈ d.record, ∀ span : Duration, 0 < span.nanos →
      p.retryAt r = e.2.after span → e.2 < e.2.after span) :
    ∃ r ∈ d.record, p.Shut r e.2 ∧ d.retryAfterSecs = secondsUntil (p.retryAt r) e.2 ∧
      ((counter p k).next e s).2.find? k = some r := by
  have hok := hp.not_misconfigured
  obtain ⟨event, now⟩ := e
  have hsecs : ∀ r : Record, r.allowRequest = false →
      (p.decideLive r now).retryAfterSecs = secondsUntil (p.retryAt r) now := fun r hr => by
    simp [Policy.decideLive, hr]
  cases event with
  | evaluated =>
    simp only [counter, run_evaluate hok] at hd ⊢
    cases hd
    cases hlive : live p (s.find? k) now with
    | none =>
      rw [hlive] at hdenied
      exact absurd hdenied (by simp [Policy.decide, Policy.decideFresh_allowed])
    | some r =>
      rw [hlive] at hdenied
      obtain ⟨r₀, hfound, hrefresh⟩ := Option.bind_eq_some_iff.mp hlive
      obtain ⟨rfl, hshut⟩ := Policy.shut_of_refresh hrefresh hdenied
      exact ⟨r, rfl, hshut, hsecs r hdenied, hfound⟩
  | failed =>
    simp only [counter, run_recordFailure hok hs] at hd ⊢
    cases hd
    exact ⟨_, rfl, Policy.shut_nextRecord hp (hahead _ rfl) hdenied, hsecs _ hdenied,
      find?_put_nextRecord hs⟩
  | succeeded => cases hd
  | removed => cases hd
  | purged => cases hd

/-- A store to which some run on the counter leads, at instants outside leap seconds. -/
def Reachable (p : Policy) (k : Key) (s : Memory) : Prop :=
  ∃ es : List (Event × Instant), (∀ e ∈ es, e.2.Plain) ∧ s = (counter p k).after {} es

theorem Reachable.holds (h : Reachable p k s) (hp : p.WellConfigured) :
    Holds k Record.Plain s := by
  obtain ⟨es, hes, rfl⟩ := h
  exact (holds_empty k _).after hp (fun _ ht _ => plain_nextRecord ht) hes

/-- After some run on the counter a caller is denied, with a moment to come back that lies
before the end of the calendar. -/
structure Denied (p : Policy) (k : Key) (s : Memory) (e : Event × Instant) (d : Decision) :
    Prop where
  reachable : Reachable p k s
  plain : e.2.Plain
  answer : ((counter p k).next e s).1 = some (.ok d)
  refused : d.allowed = false
  ends : ∀ r ∈ d.record, p.retryAt r < .latest

variable {e : Event × Instant} {d : Decision} {later : Memory}

/-- The record that the denial is decided from tells its times outside leap seconds. -/
theorem Denied.shut (h : Denied p k s e d) (hp : p.WellConfigured) :
    ∃ r ∈ d.record, r.Plain ∧ p.Shut r e.2 ∧ d.retryAfterSecs = secondsUntil (p.retryAt r) e.2 ∧
      ((counter p k).next e s).2.find? k = some r := by
  have hs := h.reachable.holds hp
  obtain ⟨r, hr, hshut, hsecs, hfind⟩ := shut_of_denied hp hs.keyed h.answer h.refused
    fun r hr _ hspan hend => h.plain.lt_after hspan (hend ▸ h.ends r hr)
  have hplain := hs.next hp fun _ => plain_nextRecord h.plain
  exact ⟨r, hr, hplain.all r hfind, hshut, hsecs, hfind⟩

/-- While nothing happens to the key, callers are let through as soon as the record reopens. -/
theorem Denied.allowed_iff (h : Denied p k s e d) (hp : p.WellConfigured)
    (hkey : later.find? k = ((counter p k).next e s).2.find? k) :
    ∃ r ∈ d.record, d.retryAfterSecs = secondsUntil (p.retryAt r) e.2 ∧ (p.retryAt r).Plain ∧
      e.2.nanos ≤ (p.retryAt r).nanos ∧
      ∀ t : Instant, t.Plain → ∃ d', (later.run (evaluate p k t)).1 = .ok d' ∧
        (d'.allowed = true ↔ p.Reopened r t) := by
  obtain ⟨r, hr, hplain, hshut, hsecs, hfind⟩ := h.shut hp
  have hlast := h.ends r hr
  refine ⟨r, hr, hsecs, Policy.plain_retryAt hplain, hshut.le_retryAt hplain h.plain hlast,
    fun t ht => ?_⟩
  rw [run_evaluate hp.not_misconfigured, hkey, hfind]
  exact ⟨_, rfl, Policy.allowed_iff_reopened hplain hshut.refuses ht hlast⟩

/-- **Who waits as long as told is let through, but for less than a millisecond.** Whenever a
login or a request under a rate limit is denied, and nothing happens to its key until the
seconds told have passed, the next evaluation allows it exactly where the time that was left
was whole seconds, or a millisecond or more beyond them. -/
theorem allowed_after_waiting_iff (p : Policy) (hp : p.WellConfigured) (hkind : p.kind ≠ .verify)
    (k : Key) (s : Memory) (e : Event × Instant) (d : Decision) (h : Denied p k s e d)
    (later : Memory) (hkey : later.find? k = ((counter p k).next e s).2.find? k) :
    ∃ r ∈ d.record, ∃ d',
      (later.run (evaluate p k (e.2.after (.seconds d.retryAfterSecs)))).1 = .ok d' ∧
        (d'.allowed = true ↔ ((p.retryAt r).since e.2).subsecond = 0 ∨
          1000000 ≤ ((p.retryAt r).since e.2).subsecond) := by
  obtain ⟨r, hr, hsecs, hmoment, hle, hdecides⟩ := h.allowed_iff hp hkey
  obtain ⟨d', hd', hallowed⟩ := hdecides _ (h.plain.after (.seconds d.retryAfterSecs))
  have hreopened : p.Reopened r (e.2.after (.seconds d.retryAfterSecs)) ↔
      p.retryAt r ≤ e.2.after (.seconds d.retryAfterSecs) := by
    cases p with
    | login p => exact Iff.rfl
    | verify p => exact absurd rfl hkind
    | rateLimit p => exact Iff.rfl
  refine ⟨r, hr, d', hd', hallowed.trans (hreopened.trans ?_)⟩
  rw [hsecs]
  exact le_after_secondsUntil_iff hmoment h.plain hle (h.ends r hr)

/-- A lock of a minute. Half a second into it the caller is told to wait a minute, and is let
through after it. -/
theorem allowed_after_waiting_for_a_lock :
    let p : Policy := .login ⟨1, .seconds 60, .seconds 600⟩
    let k : Key := ⟨.login, { reference := .domain "acme", subject := "alice" }⟩
    let s := (counter p k).after {} [(.failed, .epoch)]
    let d := p.decide (live p (s.find? k) (.ofMillis 500)) (.ofMillis 500)
    d.allowed = false ∧ d.retryAfterSecs = 60 ∧
      ∃ d', (s.run (evaluate p k (.ofMillis 60500))).1 = .ok d' ∧ d'.allowed = true := by
  intro p k s d
  have hdenied : Denied p k s (.evaluated, .ofMillis 500) d :=
    ⟨⟨[(.failed, .epoch)], by decide, rfl⟩, by decide, rfl, by decide +kernel, by decide +kernel⟩
  obtain ⟨r, hr, d', hd', hallowed⟩ :=
    allowed_after_waiting_iff p (by decide) (by decide) k s _ d hdenied s rfl
  have hrest : ∀ r ∈ d.record, 1000000 ≤ ((p.retryAt r).since (.ofMillis 500)).subsecond := by
    decide +kernel
  have hend : Instant.after (.ofMillis 500) (.seconds d.retryAfterSecs) = .ofMillis 60500 := by
    decide +kernel
  rw [hend] at hd'
  exact ⟨by decide +kernel, by decide +kernel, d', hd', hallowed.mpr (.inr (hrest r hr))⟩

/-- Of a lock of a minute one second and half a millisecond are left. The caller is told to
wait one second, and is denied again after it. -/
theorem denied_after_waiting_for_a_lock :
    let p : Policy := .login ⟨1, .seconds 60, .seconds 600⟩
    let k : Key := ⟨.login, { reference := .domain "acme", subject := "alice" }⟩
    let s := (counter p k).after {} [(.failed, .epoch)]
    let decided (t : Instant) :=
      (s.run (evaluate p k t)).1.toOption.map fun d => (d.allowed, d.retryAfterSecs)
    let now : Instant := ⟨58999500000, 0⟩
    p.WellConfigured ∧ decided now = some (false, 1) ∧
      decided (now.after (.seconds 1)) = some (false, 0) := by
  decide +kernel

/-- **Failed verifications are still remembered at the moment told.** Whenever a verification
is denied, and nothing happens to its key until the seconds told have passed, the next
evaluation allows it exactly where the time that was left was a millisecond or more beyond
whole seconds: only then is the wait, rounded up, longer than that time. -/
theorem forgotten_after_waiting_iff (p : VerifyPolicy) (hp : (Policy.verify p).WellConfigured)
    (k : Key) (s : Memory) (e : Event × Instant) (d : Decision) (h : Denied (.verify p) k s e d)
    (later : Memory) (hkey : later.find? k = ((counter (.verify p) k).next e s).2.find? k) :
    ∃ r ∈ d.record, ∃ d',
      (later.run (evaluate (.verify p) k (e.2.after (.seconds d.retryAfterSecs)))).1 = .ok d' ∧
        (d'.allowed = true ↔
          1000000 ≤ (((Policy.verify p).retryAt r).since e.2).subsecond) := by
  obtain ⟨r, hr, hsecs, hmoment, hle, hdecides⟩ := h.allowed_iff hp hkey
  obtain ⟨d', hd', hallowed⟩ := hdecides _ (h.plain.after (.seconds d.retryAfterSecs))
  have hreopened : (Policy.verify p).Reopened r (e.2.after (.seconds d.retryAfterSecs)) ↔
      (Policy.verify p).retryAt r < e.2.after (.seconds d.retryAfterSecs) := Iff.rfl
  refine ⟨r, hr, d', hd', hallowed.trans (hreopened.trans ?_)⟩
  rw [hsecs]
  exact lt_after_secondsUntil_iff hmoment h.plain hle (h.ends r hr)

/-- One verification fails half a second after 1970 began, and is remembered for a minute. At
the first second the caller is told to wait a minute, as half a second is rounded up. -/
theorem forgotten_after_waiting_for_a_minute :
    let p : Policy := .verify ⟨1, .seconds 60⟩
    let k : Key := ⟨.verify, { reference := .domain "acme", subject := "alice" }⟩
    let s := (counter p k).after {} [(.failed, .ofMillis 500)]
    let d := p.decide (live p (s.find? k) (.ofMillis 1000)) (.ofMillis 1000)
    d.allowed = false ∧ d.retryAfterSecs = 60 ∧
      ∃ d', (s.run (evaluate p k (.ofMillis 61000))).1 = .ok d' ∧ d'.allowed = true := by
  intro p k s d
  have hdenied : Denied p k s (.evaluated, .ofMillis 1000) d :=
    ⟨⟨[(.failed, .ofMillis 500)], by decide, rfl⟩, by decide, rfl, by decide +kernel,
      by decide +kernel⟩
  obtain ⟨r, hr, d', hd', hallowed⟩ :=
    forgotten_after_waiting_iff ⟨1, .seconds 60⟩ (by decide) k s _ d hdenied s rfl
  have hrest : ∀ r ∈ d.record, 1000000 ≤ ((p.retryAt r).since (.ofMillis 1000)).subsecond := by
    decide +kernel
  have hend : Instant.after (.ofMillis 1000) (.seconds d.retryAfterSecs) = .ofMillis 61000 := by
    decide +kernel
  rw [hend] at hd'
  exact ⟨by decide +kernel, by decide +kernel, d', hd', hallowed.mpr (hrest r hr)⟩

/-- A failure is remembered for a minute. The caller is told to wait a minute, is denied
again after it, and is told to wait no longer. -/
theorem remembered_after_waiting_for_a_minute :
    let p : Policy := .verify ⟨1, .seconds 60⟩
    let k : Key := ⟨.verify, { reference := .domain "acme", subject := "alice" }⟩
    let s := (counter p k).after {} [(.failed, .epoch)]
    let decided (t : Instant) :=
      (s.run (evaluate p k t)).1.toOption.map fun d => (d.allowed, d.retryAfterSecs)
    p.WellConfigured ∧ decided .epoch = some (false, 60) ∧
      decided (Instant.epoch.after (.seconds 60)) = some (false, 0) := by
  decide +kernel

end Engine

end Gatehouse.Counter
