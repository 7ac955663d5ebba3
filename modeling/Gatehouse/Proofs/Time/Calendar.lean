import Gatehouse.Time.Calendar
import Mathlib.Algebra.GroupWithZero.Nat
import Mathlib.Algebra.Order.Group.Int

/-! Days and dates.

Every day has a date that exists, and the date tells which day it is (`toDays_ofDays`,
`ofDays_valid`). The year is the one whose days the day is among: the guess by the mean length
of a year lies at most one off, because the days before a year never stray by two from what
that length says. -/
namespace Gatehouse.Calendar

/-! ### Years -/

/-- The days before a year are, within two, as many as the mean length of a year makes them. -/
theorem daysBefore_bounds (year : Int) :
    146097 * year < 400 * daysBefore year + 400 ∧ 400 * daysBefore year < 146097 * year + 800 := by
  unfold daysBefore
  omega

/-- A day is one of the days of its year. -/
theorem yearOf_spec (day : Int) :
    daysBefore (yearOf day) ≤ day ∧ day < daysBefore (yearOf day + 1) := by
  have hbefore := daysBefore_bounds (400 * day / 146097 - 1)
  have hafter := daysBefore_bounds (400 * day / 146097 + 1 + 1)
  simp only [yearOf]
  split
  · next hlt =>
    rw [Int.sub_add_cancel]
    omega
  · split <;> omega

theorem sum_monthLengths (year : Int) :
    ((monthLengths year).sum : Int) = daysBefore (year + 1) - daysBefore year := by
  have hsum : (monthLengths year).sum = 365 + if isLeap year then 1 else 0 := by
    rw [monthLengths]
    split <;> rfl
  rw [hsum]
  unfold daysBefore isLeap
  by_cases h4 : year % 4 = 0 <;> by_cases h100 : year % 100 = 0 <;>
    by_cases h400 : year % 400 = 0 <;> simp [h4, h100, h400] <;> omega

theorem le_of_mem_monthLengths {year : Int} {n : Nat} (h : n ∈ monthLengths year) : n ≤ 31 := by
  have hall : ∀ february ≤ 29, ∀ n ∈ [31, february, 31, 30, 31, 30, 31, 31, 30, 31, 30, 31],
      n ≤ 31 := by decide
  refine hall _ ?_ n h
  split <;> decide

/-! ### Months -/

/-- A day that is left of a year lies in one of the months that are left. -/
theorem monthDay_spec (lengths : List Nat) (month : Nat) {n : Nat} (h : n < lengths.sum) :
    ∃ passed length, lengths[passed]? = some length ∧
      ∃ day < length, monthDay lengths month n = (month + passed, day + 1) ∧
        (lengths.take passed).sum + day = n := by
  induction lengths generalizing month n with
  | nil => exact absurd h (Nat.not_lt_zero n)
  | cons length rest ih =>
    rw [monthDay]
    split
    · next hlt => exact ⟨0, length, rfl, n, hlt, rfl, Nat.zero_add n⟩
    · next hge =>
      rw [List.sum_cons] at h
      obtain ⟨passed, l, hl, day, hday, hmonthDay, hsum⟩ := ih (month + 1)
        (n := n - length) (by omega)
      refine ⟨passed + 1, l, hl, day, hday, ?_, ?_⟩
      · rw [hmonthDay, Nat.add_assoc, Nat.add_comm 1]
      · rw [List.take_succ_cons, List.sum_cons]
        omega

end Gatehouse.Calendar

namespace Gatehouse.Date
open Calendar

/-- Where in its year a day falls. -/
theorem ofDays_spec (days : Int) :
    ∃ year passed length day, (monthLengths year)[passed]? = some length ∧ day < length ∧
      ofDays days = ⟨year, 1 + passed, day + 1⟩ ∧
        daysBefore year + ((monthLengths year).take passed).sum + day = days + epochDay := by
  obtain ⟨hfrom, hto⟩ := yearOf_spec (days + epochDay)
  have hlength := sum_monthLengths (yearOf (days + epochDay))
  obtain ⟨passed, length, hmonth, day, hday, heq, hsum⟩ := monthDay_spec
    (monthLengths (yearOf (days + epochDay))) 1
    (n := (days + epochDay - daysBefore (yearOf (days + epochDay))).toNat) (by omega)
  refine ⟨yearOf (days + epochDay), passed, length, day, hmonth, hday, ?_, by omega⟩
  simp only [ofDays, heq]

/-- The date of a day exists. -/
theorem ofDays_valid (days : Int) : (ofDays days).Valid := by
  obtain ⟨year, passed, length, day, hmonth, hday, heq, -⟩ := ofDays_spec days
  rw [heq]
  refine ⟨Nat.le_add_right 1 passed, Nat.le_add_left 1 day, length, ?_, hday⟩
  rwa [Nat.add_sub_cancel_left]

/-- The date of a day tells which day it is. -/
theorem toDays_ofDays (days : Int) : (ofDays days).toDays = days := by
  obtain ⟨year, passed, length, day, -, -, heq, hsum⟩ := ofDays_spec days
  rw [heq, toDays, Nat.add_sub_cancel_left]
  change daysBefore year + (((monthLengths year).take passed).sum : Nat) + ((day + 1 : Nat) - 1)
    - epochDay = days
  omega

/-- Months and days have two digits at most. -/
theorem Valid.bounds {d : Date} (h : d.Valid) : d.month < 100 ∧ d.day < 100 := by
  obtain ⟨-, -, n, hn, hday⟩ := h
  have hmonth : d.month - 1 < 12 := (List.getElem?_eq_some_iff.mp hn).1
  have hle := le_of_mem_monthLengths (List.mem_of_getElem? hn)
  omega

end Gatehouse.Date
