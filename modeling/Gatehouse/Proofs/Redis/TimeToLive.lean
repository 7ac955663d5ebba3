import Gatehouse.Proofs.Counter.Login
import Gatehouse.Proofs.Counter.Refill
import Gatehouse.Redis.Client

/-! Records that live as long on the server as they say.

The server is told how long a record lives, in whole milliseconds counted from the write; a
store in memory goes by the end that the record itself tells. The two agree at every
instant of whole milliseconds (`lt_goneAt_iff`) if the record ends on a whole millisecond,
or with the calendar, which cuts longer spans short. Where policies count in whole
milliseconds, failures leave no other records (`Policy.sharp_nextRecord`). -/
namespace Gatehouse

namespace Instant

/-- An instant of whole milliseconds, not the last of the calendar. -/
structure Tick (t : Instant) : Prop where
  plain : t.Plain
  whole : t.nanos % 1000000 = 0
  early : t.nanos + 1000000 ≤ latest.nanos

/-- An instant of whole milliseconds, or the end of the calendar. -/
structure Sharp (t : Instant) : Prop where
  plain : t.Plain
  whole : t.nanos % 1000000 = 0 ∨ t.nanos = latest.nanos

instance (t : Instant) : Decidable t.Tick :=
  decidable_of_iff (t.Plain ∧ t.nanos % 1000000 = 0 ∧ t.nanos + 1000000 ≤ latest.nanos)
    ⟨fun h => ⟨h.1, h.2.1, h.2.2⟩, fun h => ⟨h.plain, h.whole, h.early⟩⟩

variable {t now e : Instant}

theorem Tick.sharp (h : t.Tick) : t.Sharp := ⟨h.plain, .inl h.whole⟩

theorem Tick.lt_latest (h : t.Tick) : t < latest :=
  lt_iff.mpr (.inl (by have := h.early; omega))

/-- Whole milliseconds later, or as much as the calendar has left. -/
theorem Sharp.after (h : t.Sharp) {d : Duration} (hd : 0 ≤ d.nanos)
    (hwhole : d.nanos % 1000000 = 0) : (t.after d).Sharp := by
  have hmin := h.plain.nanos_after_eq_min hd
  have hin := h.plain.2.2
  refine ⟨h.plain.after d, ?_⟩
  rcases h.whole with h | h <;> omega

/-- The time to live of what is written at an instant ends when what is written does. -/
theorem lt_goneAt_iff (ht : t.Tick) (hnow : now.Tick) (he : e.Sharp) (hlt : t < e) :
    now.reading < t.reading + Redis.timeToLive e t * Duration.nanosPerMilli ↔ now < e := by
  have hend : latest.nanos = 8210266876799999999999 := rfl
  have hlater := (ht.plain.lt_iff he.plain).mp hlt
  have hmillis := he.plain.millis_since ht.plain (Int.le_of_lt hlater)
  obtain ⟨hplain, hwhole, -⟩ := ht
  obtain ⟨hplain', hwhole', hearly⟩ := hnow
  rw [hplain'.lt_iff he.plain, reading_of_regular hplain.1, reading_of_regular hplain'.1,
    Redis.timeToLive, hmillis, Duration.nanosPerMilli]
  -- An end on a whole millisecond is told in full; the end of the calendar lies beyond the
  -- last whole millisecond of the clock, and is told as that one.
  rcases he.whole with h | h <;> omega

end Instant

namespace Counter

/-- A record whose window begins and ends on a whole millisecond, or with the calendar. -/
structure Record.Sharp (r : Record) : Prop where
  windowStart : r.windowStart.Sharp
  expireAt : r.expireAt.Sharp

namespace RatePolicy
variable {p : RatePolicy} {start : Instant}

/-- Tokens come back on whole milliseconds. -/
theorem sharp_after_tokens (p : RatePolicy) (h : start.Sharp) {n : Int} (hn : 0 ≤ n) :
    (start.after (p.tokenSpan n)).Sharp := by
  have hspan : (p.tokenSpan n).nanos = 1000000 * (n * p.intervalMillis) := by
    rw [tokenSpan_eq, tokenInterval_nanos, Int.mul_left_comm]
  have hnonneg := Int.mul_nonneg hn (Int.le_of_lt p.intervalMillis_pos)
  exact h.after (by omega) (by omega)

end RatePolicy

namespace Policy

/-- The policy counts in whole milliseconds; the time of one token is always of that kind. -/
def InMillis : Policy → Prop
  | login p => p.lockout.nanos % 1000000 = 0 ∧ p.reset.nanos % 1000000 = 0
  | verify p => p.reset.nanos % 1000000 = 0
  | rateLimit p => p.refill = .fixedWindow → p.window.nanos % 1000000 = 0

variable {p : Policy} {k : Key} {t : Instant} {stored : Option Record}

theorem sharp_windowEnd {p : RatePolicy} {r : Record} (hp : (rateLimit p).WellConfigured)
    (hmillis : (rateLimit p).InMillis) (h : r.windowStart.Sharp) : (p.windowEnd r).Sharp := by
  unfold RatePolicy.windowEnd
  split
  · next hrefill => exact h.after (Int.le_of_lt hp.2) (hmillis hrefill)
  · exact p.sharp_after_tokens h (Int.le_max_left _ _)

theorem sharp_live (h : ∀ r ∈ stored, r.Sharp) :
    ∀ r ∈ Engine.live p stored t, r.windowStart.Sharp := by
  intro r hr
  obtain ⟨r₀, hfound, hlive⟩ := Option.bind_eq_some_iff.mp hr
  have hstart := (h r₀ hfound).windowStart
  rcases refresh_cases hlive with rfl | ⟨q, -, -, -, -, rfl⟩
  · exact hstart
  · exact q.sharp_after_tokens hstart (q.tokensBack_nonneg r₀ t)

/-- The window that a failure leaves. -/
theorem sharp_windowStart (ht : t.Sharp) (h : ∀ r ∈ stored, r.Sharp) :
    (Engine.nextRecord p k t stored).windowStart.Sharp := by
  rw [Engine.nextRecord, applyFailure_windowStart]
  cases hlive : Engine.live p stored t with
  | none => exact ht
  | some r => exact sharp_live h r hlive

theorem sharp_nextRecord (hp : p.WellConfigured) (hmillis : p.InMillis) (ht : t.Sharp)
    (h : ∀ r ∈ stored, r.Sharp) : (Engine.nextRecord p k t stored).Sharp := by
  refine ⟨sharp_windowStart ht h, ?_⟩
  cases p with
  | login p =>
    cases p.nextRecord_cases k t stored with
    | keeps r₀ hlive _ _ hend =>
      rw [hend]
      exact (h r₀ (p.live_eq_some t hlive).1).expireAt
    | locks _ _ hend =>
      rw [hend]
      exact ht.after (Int.le_of_lt hp.1) hmillis.1
    | counts _ _ hend =>
      rw [hend]
      exact ht.after (Int.le_of_lt hp.2) hmillis.2
  | verify p => exact ht.after (Int.le_of_lt hp) hmillis
  | rateLimit p =>
    show (p.windowEnd (Engine.nextRecord (.rateLimit p) k t stored)).Sharp
    exact sharp_windowEnd hp hmillis (sharp_windowStart ht h)

end Policy

end Counter

end Gatehouse
