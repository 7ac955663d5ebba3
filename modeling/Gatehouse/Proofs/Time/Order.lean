import Gatehouse.Time.Instant
import Mathlib.Order.Defs.LinearOrder

/-! The order of instants.

Instants are linearly ordered, leap seconds included, and an instant that lies before
the end of the calendar comes before the moment any positive span after it
(`lt_after`): adding a span may be cut short by the end of the calendar, but never
down to nothing. -/
namespace Gatehouse

namespace Instant

theorem le_iff {a b : Instant} :
    a ≤ b ↔ a.nanos < b.nanos ∨ a.nanos = b.nanos ∧ a.leap ≤ b.leap := Iff.rfl

theorem lt_iff {a b : Instant} :
    a < b ↔ a.nanos < b.nanos ∨ a.nanos = b.nanos ∧ a.leap < b.leap := Iff.rfl

instance : LinearOrder Instant where
  le_refl a := by rw [le_iff]; omega
  le_trans a b c hab hbc := by rw [le_iff] at *; omega
  lt_iff_le_not_ge a b := by rw [lt_iff, le_iff, le_iff]; omega
  le_antisymm a b hab hba := by
    obtain ⟨n, l⟩ := a
    obtain ⟨m, k⟩ := b
    simp only [le_iff] at hab hba
    rw [mk.injEq]
    omega
  le_total a b := by rw [le_iff, le_iff]; omega
  toDecidableLE := inferInstance
  toDecidableEq := inferInstance
  toDecidableLT := inferInstance

theorem nanos_le_of_le {a b : Instant} (h : a ≤ b) : a.nanos ≤ b.nanos := by
  rcases le_iff.mp h with h | ⟨h, _⟩
  · exact Int.le_of_lt h
  · exact Int.le_of_eq h

theorem nanos_lt_of_lt_latest {t : Instant} (h : t < latest) : t.nanos < latest.nanos := by
  rw [lt_iff] at h
  rcases h with h | ⟨_, h⟩
  · exact h
  · exact absurd h (Nat.not_lt_zero _)

/-- Holding a later count between the ends of the calendar keeps it later. -/
theorem lt_held {t : Instant} {n : Int} (ht : t < latest) (hn : t.nanos < n) : t < held n := by
  have hl := nanos_lt_of_lt_latest ht
  rw [lt_iff]
  left
  unfold held
  split
  · omega
  · split
    · exact hl
    · exact hn

theorem lt_leapAfter {t : Instant} {d : Duration} (ht : t < latest) (hleap : t.leap ≠ 0)
    (hd : 0 < d.nanos) : t < t.leapAfter d := by
  have hsecond : perSecond = 1000000000 := rfl
  have hsplit : d.wholeSeconds * 1000000000 + d.subsecond = d.nanos :=
    Int.tdiv_mul_add_tmod d.nanos 1000000000
  have hwhole : 0 ≤ d.wholeSeconds := Int.tdiv_nonneg (by omega) (by decide)
  have hsub : 0 ≤ d.subsecond := Int.tmod_nonneg _ (by omega)
  simp only [leapAfter]
  split
  · exact lt_held ht (by simp only [reading]; omega)
  · -- Less than a second is added, so the moment stays within the leap second.
    rw [if_neg (by omega), if_neg (by omega), lt_iff]
    right
    show t.nanos = t.nanos ∧ t.leap < Int.toNat _
    omega

/-- A positive span after an instant before the end of the calendar is later than it. -/
theorem lt_after {t : Instant} {d : Duration} (ht : t < latest) (hd : 0 < d.nanos) :
    t < t.after d := by
  unfold after
  split
  · exact lt_held ht (by omega)
  · next hleap => exact lt_leapAfter ht hleap hd

/-! ### The end of the calendar -/

theorem held_le_latest (n : Int) : held n ≤ latest := by
  unfold held
  split
  · decide
  · split
    · exact le_refl _
    · next h =>
      rw [le_iff]
      show n < latest.nanos ∨ n = latest.nanos ∧ 0 ≤ latest.leap
      omega

/-- Before the end of the calendar, what a count is held to is not earlier than the count. -/
theorem le_nanos_of_held_le {t : Instant} {n : Int} (ht : t < latest) (h : held n ≤ t) :
    n ≤ t.nanos := by
  unfold held at h
  split at h
  · next hlow =>
    rcases le_iff.mp h with h | ⟨h, _⟩ <;> omega
  · split at h
    · exact absurd ht (not_lt.mpr h)
    · rcases le_iff.mp h with h | ⟨h, _⟩
      · exact Int.le_of_lt h
      · exact Int.le_of_eq h

/-- No span leads beyond the end of the calendar. -/
theorem after_le_latest {t : Instant} (ht : t ≤ latest) (d : Duration) : t.after d ≤ latest := by
  unfold after leapAfter
  split
  · exact held_le_latest _
  · next hleap =>
    -- The calendar does not end with a leap second, so one lies well before its end.
    have hnanos : t.nanos < latest.nanos := by
      rcases le_iff.mp ht with h | ⟨_, h⟩
      · exact h
      · exact absurd (Nat.le_zero.mp h) hleap
    simp only
    split
    · exact held_le_latest _
    · split
      · exact held_le_latest _
      · split
        · exact held_le_latest _
        · exact le_iff.mpr (.inl hnanos)

/-! ### Instants outside leap seconds -/

/-- An instant of the calendar, outside leap seconds. -/
def Plain (t : Instant) : Prop := t.IsRegular ∧ t.InRange

instance (t : Instant) : Decidable t.Plain := inferInstanceAs (Decidable (_ ∧ _))

section Plain
variable {a b t : Instant} {n : Int} {d : Duration}

theorem reading_of_regular (h : t.IsRegular) : t.reading = t.nanos := by
  have hleap : t.leap = 0 := h
  rw [reading, hleap]
  exact Int.add_zero _

theorem nanos_held (h : earliest.nanos ≤ n) (h' : n ≤ latest.nanos) : (held n).nanos = n := by
  simp only [held, if_neg (Int.not_lt.mpr h), if_neg (Int.not_lt.mpr h')]

theorem held_plain (n : Int) : (held n).Plain := by
  refine ⟨held_isRegular n, ?_⟩
  have hends : earliest.nanos ≤ latest.nanos := by decide
  unfold held InRange
  split
  · exact ⟨Int.le_refl _, hends⟩
  · next hlow =>
    split
    · exact ⟨hends, Int.le_refl _⟩
    · next hhigh => exact ⟨Int.not_lt.mp hlow, Int.not_lt.mp hhigh⟩

theorem Plain.after (h : t.Plain) (d : Duration) : (t.after d).Plain := by
  rw [after_of_regular h.1]
  exact held_plain _

theorem Plain.nanos_after (h : t.Plain) (hd : 0 ≤ d.nanos)
    (hlast : t.nanos + d.nanos ≤ latest.nanos) : (t.after d).nanos = t.nanos + d.nanos := by
  have hfirst := h.2.1
  rw [after_of_regular h.1, nanos_held (by omega) hlast]

/-- One span after another is both together, if the first stays in the calendar. -/
theorem Plain.after_after (h : t.Plain) (hd : 0 ≤ d.nanos)
    (hlast : t.nanos + d.nanos ≤ latest.nanos) (e : Duration) :
    (t.after d).after e = t.after ⟨d.nanos + e.nanos⟩ := by
  rw [after_of_regular (h.after d).1, h.nanos_after hd hlast, after_of_regular h.1, Int.add_assoc]

theorem Plain.le_iff (ha : a.Plain) (hb : b.Plain) : a ≤ b ↔ a.nanos ≤ b.nanos := by
  have hleap : a.leap = 0 := ha.1
  have hleap' : b.leap = 0 := hb.1
  rw [Instant.le_iff]
  omega

theorem held_le_held {m : Int} (h : n ≤ m) : held n ≤ held m := by
  have hends : earliest.nanos ≤ latest.nanos := by decide
  rw [(held_plain n).le_iff (held_plain m)]
  unfold held
  grind

/-- Outside leap seconds, a longer span leads from a later instant no less far. -/
theorem after_le_after {e : Duration} (ha : a.IsRegular) (hb : b.IsRegular) (h : a ≤ b)
    (hd : d ≤ e) : a.after d ≤ b.after e := by
  rw [after_of_regular ha, after_of_regular hb]
  exact held_le_held (Int.add_le_add (nanos_le_of_le h) hd)

/-- A span forwards is told in full, or reaches the end of the calendar. -/
theorem Plain.nanos_after_eq_min (h : t.Plain) (hd : 0 ≤ d.nanos) :
    (t.after d).nanos = min (t.nanos + d.nanos) latest.nanos := by
  by_cases hlast : t.nanos + d.nanos ≤ latest.nanos
  · rw [h.nanos_after hd hlast]
    omega
  · have hfirst := h.2.1
    have hend : held (t.nanos + d.nanos) = latest := by
      rw [held, if_neg (by omega), if_pos (by omega)]
    rw [after_of_regular h.1, hend]
    omega

theorem Plain.lt_iff (ha : a.Plain) (hb : b.Plain) : a < b ↔ a.nanos < b.nanos := by
  have hleap : a.leap = 0 := ha.1
  have hleap' : b.leap = 0 := hb.1
  rw [Instant.lt_iff]
  omega

theorem Plain.millis_since (ha : a.Plain) (hb : b.Plain) (hle : b.nanos ≤ a.nanos) :
    (a.since b).millis = (a.nanos - b.nanos) / 1000000 := by
  have hsince := since_of_regular ha.1 hb.1
  rw [Duration.millis, Int.tdiv_eq_ediv_of_nonneg (by omega), hsince]
  rfl

theorem Plain.subsecond_since (ha : a.Plain) (hb : b.Plain) (hle : b.nanos ≤ a.nanos) :
    (a.since b).subsecond = (a.nanos - b.nanos) % 1000000000 := by
  have hsince := since_of_regular ha.1 hb.1
  rw [Duration.subsecond, Int.tmod_eq_emod_of_nonneg (by omega), hsince]
  rfl

/-- An instant that a span leads to before the end of the calendar is as far as the span. -/
theorem Plain.nanos_after_of_lt_latest (h : t.Plain) (hd : 0 ≤ d.nanos) (hlast : t.after d < latest) :
    (t.after d).nanos = t.nanos + d.nanos := by
  have hmin := h.nanos_after_eq_min hd
  have hnanos := nanos_lt_of_lt_latest hlast
  omega

theorem Plain.lt_after (h : t.Plain) (hd : 0 < d.nanos) (hlast : t.after d < latest) :
    t < t.after d := by
  have hnanos := h.nanos_after_of_lt_latest (Int.le_of_lt hd) hlast
  exact Instant.lt_iff.mpr (.inl (by omega))

end Plain

end Instant

/-- A positive number of seconds is a positive span, however large it is. -/
theorem Duration.seconds_pos {n : Nat} (h : 0 < n) : 0 < (Duration.seconds n).nanos := by
  simp only [seconds_eq_clamp, clamp, shortest, longest, nanosPerSecond]
  omega

theorem Duration.ofSetting_pos {secs : Nat} (h : 0 < secs) :
    0 < (Duration.ofSetting secs).nanos := by
  rw [ofSetting_eq_seconds]
  exact seconds_pos h

/-- As many seconds as the calendar has are told in full. -/
theorem Duration.seconds_nanos {n : Int} (h : 0 ≤ n) (h' : n ≤ 20000000000000) :
    (Duration.seconds n).nanos = n * 1000000000 := by
  simp only [seconds_eq_clamp, clamp, shortest, longest, nanosPerSecond]
  omega

/-- A span has so many whole milliseconds as it is long. -/
theorem Duration.le_millis_iff {d : Duration} {n : Int} (hn : 0 < n) :
    n ≤ d.millis ↔ n * 1000000 ≤ d.nanos := by
  show n ≤ d.nanos.tdiv 1000000 ↔ _
  rcases Int.lt_or_le d.nanos 0 with hneg | hnonneg
  · have hless : 0 ≤ (-d.nanos).tdiv 1000000 := Int.tdiv_nonneg (by omega) (by decide)
    rw [Int.neg_tdiv] at hless
    omega
  · rw [Int.tdiv_eq_ediv_of_nonneg hnonneg]
    omega

end Gatehouse
