import Gatehouse.Proofs.Text.Digits
import Gatehouse.Proofs.Time.Calendar
import Gatehouse.Time.Timestamp

/-! Instants read back.

An instant's text is a date and a time of day, each number of which is written with the digits
that it is read with, and a time of day within a leap second goes on from second 59 to second
60. So the text of an instant that a clock can show (`Instant.OnClock`), from one end of the
calendar to the other, tells that instant to the nanosecond (`ofText?_toText`). -/
namespace Gatehouse

/-- Whether a clock can show an instant: a leap second ends a minute and lasts a second. -/
def Instant.OnClock (t : Instant) : Prop :=
  t.InRange ∧ (t.leap = 0 ∨ t.nanos % 60000000000 = 59999999999 ∧ t.leap ≤ 1000000000)

instance (t : Instant) : Decidable t.OnClock := inferInstanceAs (Decidable (_ ∧ (_ ∨ _ ∧ _)))

namespace Timestamp
open Text

/-! ### Numbers and what separates them -/

theorem number?_append {width : Option Nat} {s k : List Char} (hs : s.all isDigit = true)
    (hne : s ≠ []) (hwidth : ∀ w ∈ width, s.length ≤ w) (hk : k.head?.any isDigit = false) :
    number? width (s ++ k) = some (ofDecimal s, k) := by
  have hkept : number? width (s ++ k) = number? none (s ++ k) := by
    cases width with
    | none => rfl
    | some w =>
      simp only [number?, skipBlanks_append_of_isDigit hs hne, spanDigits_append hs hk,
        List.take_of_length_le (hwidth w rfl)]
  rw [hkept]
  simp only [number?, skipBlanks_append_of_isDigit hs hne, spanDigits_append hs hk]
  rw [if_neg (by simpa using hne), List.drop_left]

/-- A number of a fixed number of digits, before something else. -/
theorem number?_fixedDigits {width n : Nat} (hwidth : width ≠ 0) (hn : n < 10 ^ width)
    {k : List Char} (hk : k.head?.any isDigit = false) :
    number? (some width) (fixedDigits width n ++ k) = some (n, k) := by
  have hne : fixedDigits width n ≠ [] := fun h => hwidth (by simpa using congrArg List.length h)
  rw [number?_append (all_isDigit_fixedDigits width n) hne (by simp) hk,
    ofDecimal_fixedDigits_of_lt hn]

theorem separator?_cons {c : Char} (hc : isBlank c = false) (k : List Char) :
    separator? c (c :: k) = some k := by
  rw [separator?, skipBlanks, List.dropWhile_cons_of_neg (by simp [hc])]
  exact if_pos rfl

/-! ### Dates -/

/-- What begins with a digit is a year without a sign. -/
theorem year?_of_isDigit {c : Char} (hc : isDigit c = true) (k : List Char) :
    year? (c :: k) = (number? (some 4) (c :: k)).map fun (n, r) => (n, r) := by
  have hskip : skipBlanks (c :: k) = c :: k :=
    List.dropWhile_cons_of_neg (by simp [isBlank_of_isDigit hc])
  rw [year?, hskip]
  split
  · next heq => exact absurd (List.cons.inj heq).1 (ne_of_isDigit hc rfl)
  · next heq => exact absurd (List.cons.inj heq).1 (ne_of_isDigit hc rfl)
  · rfl

theorem year?_yearText (year : Int) {k : List Char} (hk : k.head?.any isDigit = false) :
    year? (yearText year ++ k) = some (year, k) := by
  rw [yearText]
  split
  · next hfour =>
    have hnumber : number? (some 4) (fixedDigits 4 year.toNat ++ k) = some (year.toNat, k) :=
      number?_fixedDigits (by decide) (by omega) hk
    cases hdigits : fixedDigits 4 year.toNat with
    | nil => simpa using congrArg List.length hdigits
    | cons c rest =>
      have hall := all_isDigit_fixedDigits 4 year.toNat
      rw [hdigits] at hnumber hall
      rw [List.cons_append, year?_of_isDigit (List.all_eq_true.mp hall c List.mem_cons_self)]
      rw [List.cons_append] at hnumber
      rw [hnumber]
      show some ((year.toNat : Int), k) = _
      rw [Int.toNat_of_nonneg hfour.1]
  · have hall := all_isDigit_paddedDecimal 4 year.natAbs
    have hne := paddedDecimal_ne_nil (by decide : 0 < 4) year.natAbs
    have hnumber : number? none (paddedDecimal 4 year.natAbs ++ k) = some (year.natAbs, k) := by
      rw [number?_append hall hne (by simp) hk, ofDecimal_paddedDecimal]
    -- A digit follows the sign.
    have hhead : (paddedDecimal 4 year.natAbs ++ k).head?.any isDigit = true := by
      obtain ⟨c, rest, heq⟩ := List.exists_cons_of_ne_nil hne
      rw [heq] at hall ⊢
      exact List.all_eq_true.mp hall c List.mem_cons_self
    split
    · next hneg =>
      refine (if_pos hhead).trans ((congrArg _ hnumber).trans ?_)
      show some (-(year.natAbs : Int), k) = _
      rw [Int.ofNat_natAbs_of_nonpos (Int.le_of_lt hneg), Int.neg_neg]
    · next hneg =>
      refine (if_pos hhead).trans ((congrArg _ hnumber).trans ?_)
      show some ((year.natAbs : Int), k) = _
      rw [Int.natAbs_of_nonneg (Int.not_lt.mp hneg)]

theorem date?_dateText {d : Date} (hmonth : d.month < 100) (hday : d.day < 100) {k : List Char}
    (hk : k.head?.any isDigit = false) : date? (dateText d ++ k) = some (d, k) := by
  rw [dateText, List.append_assoc, List.append_assoc, date?, year?_yearText _ rfl]
  simp only [Option.bind_eq_bind, Option.bind_some, List.cons_append,
    separator?_cons (c := '-') (by decide)]
  rw [number?_fixedDigits (by decide) hmonth rfl]
  simp only [Option.bind_some, separator?_cons (c := '-') (by decide)]
  rw [number?_fixedDigits (by decide) hday hk]
  rfl

/-! ### Times of day -/

/-- Fewer digits than nine stand for nanoseconds that end with zeros. -/
theorem fraction?_fixedDigits {width n nanos : Nat} (hwidth : 0 < width) (hnine : width ≤ 9)
    (hn : n < 10 ^ width) (hnanos : n * 10 ^ (9 - width) = nanos) {k : List Char}
    (hk : k.head?.any isDigit = false) :
    fraction? ('.' :: (fixedDigits width n ++ k)) = some (nanos, k) := by
  have hkept : (fixedDigits width n).take 9 = fixedDigits width n :=
    List.take_of_length_le (by rwa [length_fixedDigits])
  have hne : (fixedDigits width n).isEmpty = false := by
    rw [List.isEmpty_eq_false_iff]
    exact List.ne_nil_of_length_pos (by rwa [length_fixedDigits])
  have hdrop : (fixedDigits width n ++ k).drop width = k :=
    List.drop_left' (length_fixedDigits width n)
  simp only [fraction?, spanDigits_append (all_isDigit_fixedDigits width n) hk, hkept, hne,
    length_fixedDigits, ofDecimal_fixedDigits_of_lt hn]
  rw [if_neg (by decide), hdrop, ← hnanos]
  rfl

theorem fraction?_fractionText {nanos : Nat} (h : nanos < 1000000000) (k : List Char) :
    fraction? (fractionText nanos ++ 'Z' :: k) = some (nanos, 'Z' :: k) := by
  have hk : ('Z' :: k).head?.any isDigit = false := rfl
  rw [fractionText]
  split
  · next hzero => rw [hzero]; rfl
  split
  · exact fraction?_fixedDigits (by decide) (by decide) (by omega) (by omega) hk
  split
  · exact fraction?_fixedDigits (by decide) (by decide) (by omega) (by omega) hk
  · exact fraction?_fixedDigits (by decide) (by decide) (by omega) (by omega) hk

/-- A time of day of less than a second, or of the leap second that ends a minute. -/
theorem time?_timeText {t : Timestamp} (hsecond : t.second < 86400)
    (hnanos : t.nanos < 1000000000 ∨ t.nanos < 2000000000 ∧ t.second % 60 = 59)
    (k : List Char) : time? (timeText t ++ 'Z' :: k) = some (t.second, t.nanos, 'Z' :: k) := by
  have hleap : t.nanos / 1000000000 = (t.second % 60 + t.nanos / 1000000000) / 60 := by omega
  have hclock : t.second / 3600 ≤ 23 ∧ t.second / 60 % 60 ≤ 59 ∧
      t.second % 60 + t.nanos / 1000000000 ≤ 60 := by omega
  have hnodigit : (fractionText (t.nanos % 1000000000) ++ 'Z' :: k).head?.any isDigit = false := by
    rw [fractionText]
    split_ifs <;> rfl
  simp only [timeText, List.append_assoc, List.cons_append]
  rw [time?, number?_fixedDigits (by decide) (by omega) rfl]
  simp only [Option.bind_eq_bind, Option.bind_some, separator?_cons (c := ':') (by decide)]
  rw [number?_fixedDigits (by decide) (by omega) rfl]
  simp only [Option.bind_some, separator?_cons (c := ':') (by decide)]
  rw [number?_fixedDigits (by decide) (by omega) hnodigit]
  simp only [Option.bind_some, fraction?_fractionText (Nat.mod_lt t.nanos (by decide))]
  rw [if_pos hclock, ← hleap]
  simp only [Option.some.injEq, Prod.mk.injEq, and_true]
  omega

end Timestamp

/-! ### Instants -/

namespace Instant
open Timestamp Text

variable {t : Instant}

/-- An instant on a clock taken apart: the time of day, and the leap second at its place. -/
theorem OnClock.ofInstant_bounds (h : t.OnClock) :
    (ofInstant t).second < 86400 ∧
      ((ofInstant t).nanos < 1000000000 ∨
        (ofInstant t).nanos < 2000000000 ∧ (ofInstant t).second % 60 = 59) := by
  obtain ⟨-, hleap⟩ := h
  simp only [ofInstant, perSecond, daySeconds]
  omega

theorem OnClock.toInstant_ofInstant (h : t.OnClock) : (ofInstant t).toInstant = t := by
  obtain ⟨nanos, leap⟩ := t
  obtain ⟨-, hleap⟩ := h
  simp only [toInstant, ofInstant, Date.toDays_ofDays, perSecond, daySeconds] at hleap ⊢
  split <;> rw [mk.injEq] <;> omega

/-- **An instant that a clock can show is read back from its text.** -/
theorem OnClock.ofText?_toText (h : t.OnClock) : ofText? t.toText = some t := by
  obtain ⟨hsecond, hnanos⟩ := h.ofInstant_bounds
  have hvalid : (ofInstant t).date.Valid := Date.ofDays_valid _
  obtain ⟨hmonth, hday⟩ := hvalid.bounds
  rw [ofText?, toText, String.toList_ofList, List.append_assoc, instant?,
    date?_dateText hmonth hday rfl]
  simp only [Option.bind_eq_bind, Option.bind_some, List.cons_append]
  rw [time?_timeText hsecond hnanos]
  have hoffset : offset? (skipBlanks ['Z']) = some (0, []) := rfl
  have hback : (ofInstant t).toInstant = t := h.toInstant_ofInstant
  have hend : skipBlanks [] = [] := rfl
  simp [hoffset, hend, hvalid, hback, h.1]

end Instant

end Gatehouse
