import Gatehouse.Proofs.Time.Order
import Gatehouse.Settings.Guard

/-! Cutting off once.

From a setting to a deadline there are three places where something may be cut off, each with
limits of its own: the seconds are words, a span lies between two extremes, and a moment stays on
the calendar. No more is lost by three than by the last alone. Seconds that are not words are
longer than the longest span (`TimeUnit.span_eq_clamp`), and the longest span leads off the
calendar from anywhere (`Instant.Plain.after_clamp`). So a deadline is the moment asked for, held
between the ends of the calendar (`deadlines_clamped_once`), and whatever is asked for later ends
no earlier. -/
namespace Gatehouse

/-- A longer span is no shorter once both are held between the extremes. -/
theorem Duration.clamp_le_clamp {d e : Duration} (h : d ≤ e) : d.clamp ≤ e.clamp := by
  have hnanos : d.nanos ≤ e.nanos := h
  show max _ (min _ d.nanos) ≤ max _ (min _ e.nanos)
  omega

/-- More units are no shorter. -/
theorem TimeUnit.span_le_span (u : TimeUnit) {m n : Int} (h : m ≤ n) : u.span m ≤ u.span n := by
  have hlength : 0 ≤ u.length := Int.le_of_lt u.length_pos
  rw [u.span_eq_clamp, u.span_eq_clamp]
  refine Duration.clamp_le_clamp ?_
  show m * u.length * Duration.nanosPerSecond ≤ n * u.length * Duration.nanosPerSecond
  exact Int.mul_le_mul_of_nonneg_right (Int.mul_le_mul_of_nonneg_right h hlength) (by decide)

namespace Instant
variable {t : Instant}

/-- The moment of the calendar that is next to a count. -/
def clamp (n : Int) : Instant := ⟨max earliest.nanos (min latest.nanos n), 0⟩

/-- The moment a span after one outside leap seconds, if the calendar has it. -/
def add? (t : Instant) (d : Duration) : Option Instant :=
  if InRange ⟨t.nanos + d.nanos, 0⟩ then some ⟨t.nanos + d.nanos, 0⟩ else none

/-- The moment a span after one outside leap seconds; if the calendar has no such moment, the end
to which the span points. -/
def addUpTo (t : Instant) (d : Duration) : Instant :=
  (t.add? d).getD (if d < .zero then earliest else latest)

theorem held_eq_clamp (n : Int) : held n = clamp n := by
  have hends : earliest.nanos ≤ latest.nanos := by decide
  unfold held clamp
  split
  · have hfirst : max earliest.nanos (min latest.nanos n) = earliest.nanos := by omega
    rw [hfirst]
    rfl
  · split
    · have hlast : max earliest.nanos (min latest.nanos n) = latest.nanos := by omega
      rw [hlast]
      rfl
    · have hwithin : max earliest.nanos (min latest.nanos n) = n := by omega
      rw [hwithin]

theorem after_eq_clamp (h : t.IsRegular) (d : Duration) :
    t.after d = clamp (t.nanos + d.nanos) := by
  rw [after_of_regular h, held_eq_clamp]

/-- A span leads off the calendar only by the end to which it points. -/
theorem Plain.after_eq_addUpTo (h : t.Plain) (d : Duration) : t.after d = t.addUpTo d := by
  obtain ⟨hfirst, hlast⟩ := h.2
  rw [after_of_regular h.1, addUpTo, add?, held]
  by_cases hback : t.nanos + d.nanos < earliest.nanos
  · have hleaves : ¬InRange ⟨t.nanos + d.nanos, 0⟩ := fun hstays => Int.not_le.mpr hback hstays.1
    have hsign : d < .zero := show d.nanos < 0 by omega
    rw [if_pos hback, if_neg hleaves, Option.getD_none, if_pos hsign]
  · by_cases hforth : latest.nanos < t.nanos + d.nanos
    · have hleaves : ¬InRange ⟨t.nanos + d.nanos, 0⟩ :=
        fun hstays => Int.not_le.mpr hforth hstays.2
      have hsign : ¬d < .zero := show ¬d.nanos < 0 by omega
      rw [if_neg hback, if_pos hforth, if_neg hleaves, Option.getD_none, if_neg hsign]
    · have hstays : InRange ⟨t.nanos + d.nanos, 0⟩ := ⟨Int.not_lt.mp hback, Int.not_lt.mp hforth⟩
      rw [if_neg hback, if_neg hforth, if_pos hstays, Option.getD_some]

/-- A span that is cut off leads off the calendar, so it may as well not be cut off. -/
theorem Plain.after_clamp (h : t.Plain) (d : Duration) :
    t.after d.clamp = clamp (t.nanos + d.nanos) := by
  obtain ⟨hfirst, hlast⟩ := h.2
  have hearliest : earliest.nanos = -8334601228800000000000 := rfl
  have hlatest : latest.nanos = 8210266876799999999999 := rfl
  have hcut : d.clamp.nanos =
    max (-9223372036854775807000000) (min 9223372036854775807000000 d.nanos) := rfl
  rw [after_eq_clamp h.1]
  exact congrArg (mk · 0) (by omega)

end Instant

/-- **What is cut off on the way to a deadline is cut off once.** A span is held between
`2 ^ 63 - 1` milliseconds back and as many forth, and a moment between the first nanosecond of the
year -262143 and the last of the year 262142. So many seconds, minutes, hours or days, or the
seconds of a setting, are the span asked for, held between the extremes. From any moment of the
calendar outside leap seconds, any span leads to the moment asked for, held between the ends of the
calendar; by which end it would leave is told by the sign of the span alone. What was cut off of
the span does not show in the moment. And more units are no shorter, and a longer span from a later
moment leads no less far. -/
theorem deadlines_clamped_once :
    (∀ n : Int, Duration.clamp ⟨n⟩ =
      ⟨max (-9223372036854775807000000) (min 9223372036854775807000000 n)⟩) ∧
    (∀ n : Int, Instant.clamp n =
      ⟨max (-8334601228800000000000) (min 8210266876799999999999 n), 0⟩) ∧
    (∀ amount : Int,
      TimeUnit.seconds.span amount = .clamp ⟨amount * 1 * 1000000000⟩ ∧
      TimeUnit.minutes.span amount = .clamp ⟨amount * 60 * 1000000000⟩ ∧
      TimeUnit.hours.span amount = .clamp ⟨amount * 3600 * 1000000000⟩ ∧
      TimeUnit.days.span amount = .clamp ⟨amount * 86400 * 1000000000⟩) ∧
    (∀ secs : Nat, Duration.ofSetting secs = .clamp ⟨secs * 1000000000⟩) ∧
    (∀ (t : Instant) (d : Duration), t.Plain →
      t.after d = t.addUpTo d ∧ t.after d = .clamp (t.nanos + d.nanos)) ∧
    (∀ (t : Instant) (n : Int), t.Plain → t.after (.clamp ⟨n⟩) = .clamp (t.nanos + n)) ∧
    (∀ (u : TimeUnit) (m n : Int), m ≤ n → u.span m ≤ u.span n) ∧
    (∀ (t t' : Instant) (d e : Duration), t.Plain → t'.Plain → t ≤ t' → d ≤ e →
      t.after d ≤ t'.after e) := by
  refine ⟨fun _ => rfl, fun _ => rfl, fun amount => ⟨?_, ?_, ?_, ?_⟩, Duration.ofSetting_eq_clamp,
    fun t d ht => ?_, fun t n ht => ht.after_clamp ⟨n⟩, fun u _ _ h => u.span_le_span h,
    fun _ _ _ _ ht ht' hle hd => Instant.after_le_after ht.1 ht'.1 hle hd⟩
  · exact TimeUnit.seconds.span_eq_clamp amount
  · exact TimeUnit.minutes.span_eq_clamp amount
  · exact TimeUnit.hours.span_eq_clamp amount
  · exact TimeUnit.days.span_eq_clamp amount
  · exact ⟨ht.after_eq_addUpTo d, Instant.after_eq_clamp ht.1 d⟩

/-- Ordinary amounts of every unit, and a deadline a quarter of an hour ahead, are told in full. As
many days as there are words are the longest span, and lead from the last moment but one to the
last; as many days back are the shortest, and lead to the first. -/
theorem deadlines_clamped_once_within_and_at_the_ends :
    let almostLast : Instant := ⟨8210266876799999999998, 0⟩
    let forth : Duration := TimeUnit.days.span 9223372036854775807
    let back : Duration := TimeUnit.days.span (-9223372036854775808)
    TimeUnit.seconds.span 45 = ⟨45000000000⟩ ∧ TimeUnit.minutes.span 15 = ⟨900000000000⟩ ∧
      TimeUnit.hours.span 36 = ⟨129600000000000⟩ ∧ TimeUnit.days.span (-7) = ⟨-604800000000000⟩ ∧
      Duration.ofSetting 7200 = ⟨7200000000000⟩ ∧ Instant.epoch.Plain ∧
      Instant.epoch.after (TimeUnit.minutes.span 15) = ⟨900000000000, 0⟩ ∧
      almostLast.Plain ∧ forth = .longest ∧ back = .shortest ∧
      Duration.ofSetting 18446744073709551615 = .longest ∧
      almostLast.after ⟨1⟩ = .latest ∧ almostLast.after (.clamp forth) = .latest ∧
      almostLast.after (.clamp back) = .earliest ∧
      back ≤ forth ∧ almostLast.after back ≤ Instant.latest.after forth := by
  intro almostLast forth back
  have hepoch : Instant.epoch.Plain := by decide
  have hplain : almostLast.Plain := by decide
  obtain ⟨-, -, hspan, hsetting, hafter, hcut, hmono, hlater⟩ := deadlines_clamped_once
  have hback : back ≤ forth := hmono .days _ _ (by decide)
  exact ⟨(hspan 45).1.trans (by decide), (hspan 15).2.1.trans (by decide),
    (hspan 36).2.2.1.trans (by decide), (hspan (-7)).2.2.2.trans (by decide),
    (hsetting 7200).trans (by decide), hepoch, (hafter _ _ hepoch).2.trans (by decide), hplain,
    (hspan _).2.2.2.trans (by decide), (hspan _).2.2.2.trans (by decide),
    (hsetting _).trans (by decide), (hafter _ ⟨1⟩ hplain).2.trans (by decide),
    (hcut _ _ hplain).trans (by decide), (hcut _ _ hplain).trans (by decide), hback,
    hlater _ _ _ _ hplain (by decide) (by decide) hback⟩

end Gatehouse
