import Gatehouse.Proofs.Counter.Login
import Gatehouse.Proofs.Counter.Refill
import Gatehouse.Proofs.Counter.Runs

/-! Records outlast the instant at which they are written.

What a failure leaves under a policy that makes sense is still live at that instant, and ends
after it (`lasts_nextRecord`): a lock or a window lies ahead, or a token is on its way. Where
tokens come back one by one this takes instants outside leap seconds, as the moment from
which the next token is counted may otherwise lie a second too far back. So after any run on
the counters of a store the engine decides in earnest, about a record that is there to be
found (`decides_after`). -/
namespace Gatehouse.Counter

namespace RatePolicy
variable {p : RatePolicy} {r r' : Record} {t : Instant}

/-- A record that a rate limit can go on from: a token is missing, and where tokens come back
one by one, the window began outside leap seconds. -/
structure Missing (p : RatePolicy) (r : Record) : Prop where
  tokens : r.tokensLeft < p.limit
  start : p.refill = .proportional → r.windowStart.Plain

/-- The window is not over or, where tokens come back one by one, the next of them is not
back yet. -/
def Awaits (p : RatePolicy) (start t : Instant) : Prop :=
  match p.refill with
  | .fixedWindow => t < start.after p.window
  | .proportional => start.Plain ∧ t.nanos < start.nanos + p.tokenInterval.nanos

theorem awaits_fixedWindow {start : Instant} (h : p.refill = .fixedWindow) :
    p.Awaits start t ↔ t < start.after p.window := by
  simp only [Awaits, h]

theorem awaits_proportional {start : Instant} (h : p.refill = .proportional) :
    p.Awaits start t ↔ start.Plain ∧ t.nanos < start.nanos + p.tokenInterval.nanos := by
  simp only [Awaits, h]

/-- A window that begins is not over. -/
theorem awaits_start (hp : 0 < p.window.nanos) (hlt : t < .latest)
    (ht : p.refill = .proportional → t.Plain) : p.Awaits t t := by
  cases hrefill : p.refill with
  | fixedWindow =>
    rw [awaits_fixedWindow hrefill]
    exact Instant.lt_after hlt hp
  | proportional =>
    have hinterval := p.tokenInterval_pos
    rw [awaits_proportional hrefill]
    exact ⟨ht hrefill, by omega⟩

/-- What is left of a record awaits its next token, and misses one. -/
theorem awaits_of_refresh (h : p.Missing r) (ht : p.refill = .proportional → t.Plain)
    (hlive : (Policy.rateLimit p).refresh r t = some r') :
    r'.tokensLeft < p.limit ∧ p.Awaits r'.windowStart t := by
  cases hrefill : p.refill with
  | fixedWindow =>
    rw [Policy.refresh_fixedWindow hrefill] at hlive
    split at hlive
    · next hopen =>
      cases hlive
      exact ⟨h.tokens, (awaits_fixedWindow hrefill).mpr hopen⟩
    · cases hlive
  | proportional =>
    rw [Policy.refresh_proportional hrefill] at hlive
    rw [awaits_proportional hrefill]
    have hstart := h.start hrefill
    have hplain := ht hrefill
    rcases Int.lt_or_le t.nanos r.windowStart.nanos with hearly | hbegun
    · -- The clock was set back to before the window began.
      rcases refilled_cases hlive with ⟨-, rfl⟩ | ⟨hsome, -⟩
      · have hinterval := p.tokenInterval_pos
        exact ⟨h.tokens, hstart, by omega⟩
      · exact absurd (tokensBack_early p hstart hplain hearly) hsome
    · obtain ⟨hflow, -, hrest⟩ := Flowing.refilled ⟨h.tokens, hstart, hbegun⟩ hplain hlive
      exact ⟨hflow.tokens, hflow.start, by omega⟩

/-- A record that awaits its next token is live as it is. -/
theorem Awaits.refresh (h : p.Awaits r.windowStart t) (ht : p.refill = .proportional → t.Plain) :
    (Policy.rateLimit p).refresh r t = some r := by
  cases hrefill : p.refill with
  | fixedWindow =>
    rw [Policy.refresh_fixedWindow hrefill, if_pos ((awaits_fixedWindow hrefill).mp h)]
  | proportional =>
    obtain ⟨hstart, hrest⟩ := (awaits_proportional hrefill).mp h
    have hnone : p.tokensBack r t = 0 := by
      rcases Int.lt_or_le t.nanos r.windowStart.nanos with hearly | hbegun
      · exact tokensBack_early p hstart (ht hrefill) hearly
      · rw [tokensBack_eq hstart (ht hrefill) hbegun]
        exact Int.ediv_eq_zero_of_lt (by omega) (by omega)
    rw [Policy.refresh_proportional hrefill]
    exact refilled_of_none hnone

/-- A record that awaits its next token, and misses one, ends later. -/
theorem Awaits.lt_windowEnd (h : p.Awaits r.windowStart t) (hlimit : 0 < p.limit)
    (htokens : r.tokensLeft < p.limit) (hlt : t < .latest) : t < p.windowEnd r := by
  cases hrefill : p.refill with
  | fixedWindow =>
    simp only [windowEnd, hrefill]
    exact (awaits_fixedWindow hrefill).mp h
  | proportional =>
    obtain ⟨hstart, hrest⟩ := (awaits_proportional hrefill).mp h
    have hinterval := p.tokenInterval_pos
    have hmissing : 1 ≤ p.missing r := by
      unfold missing maxMissing
      omega
    have hspan : p.tokenInterval.nanos ≤ (p.tokenSpan (p.missing r)).nanos := by
      have hone := Int.mul_le_mul_of_nonneg_right hmissing (Int.le_of_lt hinterval)
      rwa [Int.one_mul, ← tokenSpan_eq] at hone
    have hend := hstart.nanos_after_eq_min (d := p.tokenSpan (p.missing r)) (by omega)
    have hlast := Instant.nanos_lt_of_lt_latest hlt
    simp only [windowEnd, hrefill]
    exact Instant.lt_iff.mpr (.inl (by omega))

end RatePolicy

namespace Policy

/-- An instant before the end of the calendar, and outside leap seconds where time is
measured. -/
structure Serves (p : Policy) (t : Instant) : Prop where
  lt_latest : t < .latest
  plain : p.measuresTime = true → t.Plain

/-- A record that a policy can go on from. -/
def GoesOn (p : Policy) (r : Record) : Prop :=
  match p with
  | rateLimit p => p.Missing r
  | _ => True

/-- A record is live at an instant, and ends later. -/
structure Lasts (p : Policy) (r : Record) (t : Instant) : Prop where
  live : p.refresh r t = some r
  lt_expireAt : t < r.expireAt

variable {k : Key} {t : Instant} {stored : Option Record}

theorem Serves.plain_of_proportional {p : RatePolicy} (ht : (rateLimit p).Serves t)
    (hrefill : p.refill = .proportional) : t.Plain :=
  ht.plain (by simp [measuresTime, hrefill])

theorem lasts_login {p : LoginPolicy} (hp : (login p).WellConfigured) (ht : t < .latest) :
    (login p).Lasts (Engine.nextRecord (.login p) k t stored) t := by
  have hend : t < (Engine.nextRecord (.login p) k t stored).expireAt := by
    cases p.nextRecord_cases k t stored with
    | keeps r₀ hlive _ _ hend =>
      rw [hend]
      exact (LoginPolicy.live_eq_some p t hlive).2
    | locks _ _ hend =>
      rw [hend]
      exact Instant.lt_after ht hp.1
    | counts _ _ hend =>
      rw [hend]
      exact Instant.lt_after ht hp.2
  have hlive : (Engine.nextRecord (.login p) k t stored).isExpired t = false :=
    decide_eq_false (not_le.mpr hend)
  exact ⟨by simp [refresh, hlive], hend⟩

theorem lasts_verify {p : VerifyPolicy} (hp : (verify p).WellConfigured) (ht : t < .latest) :
    (verify p).Lasts (Engine.nextRecord (.verify p) k t stored) t where
  live := if_pos (le_of_lt (Instant.lt_after ht hp))
  lt_expireAt := Instant.lt_after ht hp

/-- A failure under a rate limit leaves a record that misses a token and awaits the next. -/
theorem awaits_nextRecord {p : RatePolicy} (hp : (rateLimit p).WellConfigured)
    (ht : (rateLimit p).Serves t) (hstored : ∀ r ∈ stored, p.Missing r) :
    (Engine.nextRecord (.rateLimit p) k t stored).tokensLeft < p.limit ∧
      p.Awaits (Engine.nextRecord (.rateLimit p) k t stored).windowStart t := by
  obtain ⟨hlimit, hwindow⟩ := hp
  unfold Engine.nextRecord
  cases hlive : Engine.live (.rateLimit p) stored t with
  | none =>
    refine ⟨?_, RatePolicy.awaits_start hwindow ht.lt_latest ht.plain_of_proportional⟩
    show p.limit - 1 < p.limit
    omega
  | some r =>
    obtain ⟨r₀, hfound, hrefresh⟩ := Option.bind_eq_some_iff.mp hlive
    obtain ⟨htokens, hawaits⟩ :=
      RatePolicy.awaits_of_refresh (hstored r₀ hfound) ht.plain_of_proportional hrefresh
    refine ⟨?_, hawaits⟩
    show max (r.tokensLeft - 1) (-1) < p.limit
    omega

variable {p : Policy}

/-- **What a failure leaves is live at its instant, and ends later.** -/
theorem lasts_nextRecord (hp : p.WellConfigured) (ht : p.Serves t)
    (hstored : ∀ r ∈ stored, p.GoesOn r) : p.Lasts (Engine.nextRecord p k t stored) t := by
  cases p with
  | login p => exact lasts_login hp ht.lt_latest
  | verify p => exact lasts_verify hp ht.lt_latest
  | rateLimit p =>
    obtain ⟨htokens, hawaits⟩ := awaits_nextRecord (k := k) hp ht hstored
    exact ⟨hawaits.refresh ht.plain_of_proportional,
      hawaits.lt_windowEnd hp.1 htokens ht.lt_latest⟩

/-- A failure leaves a record that the policy can go on from. -/
theorem goesOn_nextRecord (hp : p.WellConfigured) (ht : p.Serves t)
    (hstored : ∀ r ∈ stored, p.GoesOn r) : p.GoesOn (Engine.nextRecord p k t stored) := by
  cases p with
  | login p => trivial
  | verify p => trivial
  | rateLimit p =>
    obtain ⟨htokens, hawaits⟩ := awaits_nextRecord (k := k) hp ht hstored
    refine ⟨htokens, fun hrefill => ?_⟩
    exact ((RatePolicy.awaits_proportional hrefill).mp hawaits).1

end Policy

namespace Engine
variable {policy : Key → Policy}

/-- What an event ought to be answered: no refusal for a policy that makes no sense and, where
something is counted, the record of it, which is not over at once. -/
structure Decides (p : Policy) (e : Event × Instant)
    (answer : Option (Except Store.Error Decision)) : Prop where
  decided : ∀ x ∈ answer, ∃ d, x = .ok d ∧ d ≠ .misconfigured
  lasts : e.1 = .failed → ∃ d r, answer = some (.ok d) ∧ d.record = some r ∧ p.Lasts r e.2

theorem decide_ne_misconfigured (p : Policy) (live : Option Record) (now : Instant) :
    p.decide live now ≠ .misconfigured := by
  intro h
  cases live with
  | none =>
    have hallowed : p.decideFresh.allowed = false := congrArg Decision.allowed h
    cases p <;> cases hallowed
  | some r =>
    have hrecord : some r = none := congrArg Decision.record h
    cases hrecord

/-- An event under a policy that makes sense, at an instant that the policy covers. -/
def Sensible (policy : Key → Policy) (e : Key × Event × Instant) : Prop :=
  (policy e.1).WellConfigured ∧ (policy e.1).Serves e.2.2

/-- After any run of such events, the records can be gone on from. -/
theorem goesOn_after {es : List (Key × Event × Instant)} (hes : ∀ e ∈ es, Sensible policy e) :
    Stocked (fun r => (policy r.key).GoesOn r) ((counters policy).after {} es) := by
  refine (stocked_empty _).after (fun e he _ stored hstored => ?_) hes
  rw [nextRecord_key fun r hr => (hstored r hr).1]
  refine Policy.goesOn_nextRecord he.1 he.2 fun r hr => ?_
  obtain ⟨hkey, hr⟩ := hstored r hr
  rwa [hkey] at hr

/-- From records that can be gone on from, the engine decides in earnest. -/
theorem decides_next {s : Memory} (hs : Stocked (fun r => (policy r.key).GoesOn r) s)
    {e : Key × Event × Instant} (he : Sensible policy e) :
    Decides (policy e.1) e.2 ((counters policy).next e s).1 := by
  obtain ⟨k, event, now⟩ := e
  obtain ⟨hp, hnow⟩ := he
  have hok := hp.not_misconfigured
  cases event with
  | evaluated =>
    simp only [counters, counter, run_evaluate hok]
    exact ⟨fun x hx => ⟨_, (Option.mem_some_iff.mp hx).symm, decide_ne_misconfigured _ _ now⟩,
      fun hfailed => by cases hfailed⟩
  | failed =>
    simp only [counters, counter, run_recordFailure hok hs.keyed]
    refine ⟨fun x hx => ⟨_, (Option.mem_some_iff.mp hx).symm, decide_ne_misconfigured _ _ now⟩,
      fun _ => ⟨_, _, rfl, rfl, Policy.lasts_nextRecord hp hnow fun r hr => ?_⟩⟩
    obtain ⟨hkey, hr⟩ := hs.find? hr
    rwa [hkey] at hr
  | succeeded => exact ⟨fun _ hx => (Option.not_mem_none _ hx).elim, fun hfailed => by cases hfailed⟩
  | removed => exact ⟨fun _ hx => (Option.not_mem_none _ hx).elim, fun hfailed => by cases hfailed⟩
  | purged => exact ⟨fun _ hx => (Option.not_mem_none _ hx).elim, fun hfailed => by cases hfailed⟩

/-- **After any run the engine decides in earnest**, and what it counts is still counted. -/
theorem decides_after {es : List (Key × Event × Instant)} (hes : ∀ e ∈ es, Sensible policy e)
    {e : Key × Event × Instant} (he : Sensible policy e) :
    Decides (policy e.1) e.2 ((counters policy).next e ((counters policy).after {} es)).1 :=
  decides_next (goesOn_after hes) he

end Engine

end Gatehouse.Counter
