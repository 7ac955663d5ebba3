import Gatehouse.Proofs.Time.Order

/-! Spans that lead out of leap seconds.

A leap second has no count of its own, so a span that leads out of one has the second's length
taken off, and a span that is measured from one to a later second of the day has it put back. Both
go by the same count (`base`): outside leap seconds a moment told ahead lies a span after the base
(`after_eq_held`), and no more than that is ever measured (`since_le`). -/
namespace Gatehouse.Instant

variable {a b t deadline now : Instant} {d : Duration} {n : Int}

/-- The count that spans are added to which lead out of a leap second. -/
def base (t : Instant) : Int := if t.leap = 0 then t.nanos else t.reading - perSecond

theorem nanos_sub_perSecond_lt_base (t : Instant) : t.nanos - perSecond < t.base := by
  have hsecond : perSecond = 1000000000 := rfl
  unfold base reading
  split <;> omega

/-- A span forwards that leads out of leap seconds, or never was in one, is added to the base. -/
theorem after_eq_held (hd : 0 < d.nanos) (h : (t.after d).IsRegular) :
    t.after d = held (t.base + d.nanos) := by
  have hsub : 0 ≤ d.subsecond := Int.tmod_nonneg _ (by omega)
  have hwhole : 0 ≤ d.wholeSeconds := Int.tdiv_nonneg (by omega) (by decide)
  unfold after at h ⊢
  unfold base
  split
  · rfl
  · next hleap =>
    simp only [if_neg hleap, leapAfter] at h ⊢
    have hsecond : perSecond = 1000000000 := rfl
    split
    · rfl
    · next hwithin =>
      -- the span ends within the leap second
      rw [if_neg hwithin, if_neg (by omega), if_neg (by omega)] at h
      have hzero : Int.toNat _ = 0 := h
      omega

/-- No more is measured to a moment outside leap seconds than lies between it and the base. -/
theorem since_le (ha : a.IsRegular) : (a.since b).nanos ≤ a.nanos - b.base := by
  have hleap : a.leap = 0 := ha
  have hsecond : perSecond = 1000000000 := rfl
  simp only [since, base, reading_of_regular ha, hleap, ne_eq, not_true_eq_false, and_false,
    if_false]
  unfold reading
  split <;> split <;> omega

/-- What comes before a held count comes before the count. -/
theorem nanos_lt_of_lt_held (ht : t.InRange) (h : t < held n) : t.nanos < n := by
  obtain ⟨hfirst, hlast⟩ := ht
  unfold held at h
  split at h
  · next hlow =>
    rcases lt_iff.mp h with h | ⟨-, h⟩
    · omega
    · exact absurd h (Nat.not_lt_zero _)
  · split at h
    · omega
    · rcases lt_iff.mp h with h | ⟨-, h⟩
      · exact h
      · exact absurd h (Nat.not_lt_zero _)

theorem nanos_held_le (h : earliest.nanos ≤ n) : (held n).nanos ≤ n := by
  unfold held
  split
  · omega
  · split
    · exact Int.le_of_lt ‹_›
    · exact Int.le_refl n

/-- No time after a moment of the calendar is the moment. -/
theorem after_zero (ht : t.InRange) : t.after .zero = t := by
  obtain ⟨hfirst, hlast⟩ := ht
  unfold after
  split
  · next hleap =>
    show held (t.nanos + 0) = t
    rw [Int.add_zero, held, if_neg (by omega), if_neg (by omega), ← hleap]
  · next hleap =>
    have hsecond : perSecond = 1000000000 := rfl
    have hsub : Duration.zero.subsecond = 0 := rfl
    have hwhole : Duration.zero.wholeSeconds = 0 := rfl
    have hinto : (t.leap + 999999999 + 0 - 1000000000 + 1 : Int).toNat = t.leap := by omega
    simp only [leapAfter, hsub, hwhole, hsecond]
    rw [if_neg (by omega), if_neg (by omega), if_neg (by omega), hinto]

/-- A second or more leads out of a leap second. -/
theorem isRegular_after (h : perSecond ≤ d.nanos) (t : Instant) : (t.after d).IsRegular := by
  have hsecond : perSecond = 1000000000 := rfl
  have hwhole : 0 < d.wholeSeconds := by
    show 0 < d.nanos.tdiv 1000000000
    rw [Int.tdiv_eq_ediv_of_nonneg (by omega)]
    omega
  unfold after
  split
  · exact held_isRegular _
  · rw [leapAfter]
    simp only [hwhole, gt_iff_lt, true_or, if_true]
    exact held_isRegular _

/-- Whoever waits for a second or more, but for less than is measured to a deadline outside leap
seconds, waits until before it. -/
theorem nanos_after_lt (hdeadline : deadline.IsRegular) (hnow : now.InRange)
    (hd : perSecond ≤ d.nanos) (h : d.nanos < (deadline.since now).nanos) :
    (now.after d).nanos < deadline.nanos := by
  have hsecond : perSecond = 1000000000 := rfl
  have hbase := now.nanos_sub_perSecond_lt_base
  have hsince := since_le (b := now) hdeadline
  have hfirst : earliest.nanos ≤ now.nanos := hnow.1
  rw [after_eq_held (by omega) (isRegular_after hd now)]
  have hheld := nanos_held_le (n := now.base + d.nanos) (by omega)
  omega

end Gatehouse.Instant
