import Gatehouse.Text.Digits
import Gatehouse.Word

/-! Spans of time.

A span is a whole number of nanoseconds. Spans that come from settings are at most
`2 ^ 63 - 1` milliseconds long either way, so an absurd setting stands for "as long as can
be told" and never wraps: whatever is cut off on the way, the span is the one asked for,
held between the two extremes (`Duration.seconds_eq_clamp`,
`Duration.ofSetting_eq_clamp`). -/
namespace Gatehouse

/-- A signed span of time. -/
structure Duration where
  nanos : Int
  deriving DecidableEq, Repr, Inhabited

namespace Duration

/-- Nanoseconds in a millisecond. -/
def nanosPerMilli : Nat := 1000000

/-- Nanoseconds in a second. -/
def nanosPerSecond : Nat := 1000000000

/-- The longest time that can be waited, in nanoseconds: just under `2 ^ 64` seconds. -/
def longestWait : Nat := 18446744073709551615999999999

/-- No time at all. -/
def zero : Duration := ⟨0⟩

/-- The longest span: `2 ^ 63 - 1` milliseconds. -/
def longest : Duration := ⟨9223372036854775807000000⟩

/-- The longest span backwards. -/
def shortest : Duration := ⟨-9223372036854775807000000⟩

instance : LE Duration := ⟨fun a b => a.nanos ≤ b.nanos⟩
instance : LT Duration := ⟨fun a b => a.nanos < b.nanos⟩
instance (a b : Duration) : Decidable (a ≤ b) := inferInstanceAs (Decidable (a.nanos ≤ b.nanos))
instance (a b : Duration) : Decidable (a < b) := inferInstanceAs (Decidable (a.nanos < b.nanos))

/-- Whether a span fits between the two extremes. -/
def InRange (d : Duration) : Prop := shortest ≤ d ∧ d ≤ longest

instance (d : Duration) : Decidable d.InRange := inferInstanceAs (Decidable (_ ∧ _))

/-- A span held between the two extremes. -/
def clamp (d : Duration) : Duration := ⟨max shortest.nanos (min longest.nanos d.nanos)⟩

/-- A span of whole milliseconds. -/
def ofMillis (n : Int) : Duration := ⟨n * nanosPerMilli⟩

/-- A span of whole seconds, if it fits between the extremes. -/
def seconds? (n : Int) : Option Duration :=
  if InRange ⟨n * nanosPerSecond⟩ then some ⟨n * nanosPerSecond⟩ else none

/-- A span of whole seconds; one that does not fit is the extreme of its sign. -/
def seconds (n : Int) : Duration := (seconds? n).getD (if n < 0 then shortest else longest)

/-- The seconds of a setting; more than a word has room for are as many as it has. -/
def ofSetting (secs : Nat) : Duration := seconds ((Word.ofNat? secs).getD Word.greatest)

/-- Whole milliseconds in a span, truncated toward zero. -/
def millis (d : Duration) : Int := d.nanos.tdiv nanosPerMilli

/-- Whole seconds in a span, truncated toward zero. -/
def wholeSeconds (d : Duration) : Int := d.nanos.tdiv nanosPerSecond

/-- The nanoseconds of a span beyond its whole seconds, with the span's sign. -/
def subsecond (d : Duration) : Int := d.nanos.tmod nanosPerSecond

/-- A number of units with the fraction that `rest` of `10 ^ places` is, without trailing
zeros. -/
def withFraction (whole rest places : Nat) : List Char :=
  let digits := ((Text.fixedDigits places rest).reverse.dropWhile (· == '0')).reverse
  Text.decimal whole ++ if digits.isEmpty then [] else '.' :: digits

/-- A span of `n` nanoseconds in the largest unit that it fills. -/
def brief (n : Nat) : String :=
  String.ofList <|
    if 1000000000 ≤ n then withFraction (n / 1000000000) (n % 1000000000) 9 ++ ['s']
    else if 1000000 ≤ n then withFraction (n / 1000000) (n % 1000000) 6 ++ ['m', 's']
    else if 1000 ≤ n then withFraction (n / 1000) (n % 1000) 3 ++ ['\u00b5', 's']
    else Text.decimal n ++ ['n', 's']

theorem clamp_of_inRange {d : Duration} (h : d.InRange) : clamp d = d := by
  obtain ⟨hlow, hhigh⟩ : shortest.nanos ≤ d.nanos ∧ d.nanos ≤ longest.nanos := h
  exact congrArg mk (by omega)

/-- What does not fit lies beyond the extreme of its sign. -/
theorem clamp_of_not_inRange {d : Duration} (h : ¬d.InRange) :
    clamp d = if d.nanos < 0 then shortest else longest := by
  have hbeyond : ¬(shortest.nanos ≤ d.nanos ∧ d.nanos ≤ longest.nanos) := h
  have hshortest : shortest.nanos = -9223372036854775807000000 := rfl
  have hlongest : longest.nanos = 9223372036854775807000000 := rfl
  unfold clamp
  split
  · exact congrArg mk (by omega)
  · exact congrArg mk (by omega)

theorem seconds_eq_clamp (n : Int) : seconds n = clamp ⟨n * nanosPerSecond⟩ := by
  unfold seconds seconds?
  by_cases hfits : InRange ⟨n * nanosPerSecond⟩
  · rw [if_pos hfits, clamp_of_inRange hfits]
    rfl
  · have hsecond : (nanosPerSecond : Int) = 1000000000 := rfl
    have hsign : n < 0 ↔ n * nanosPerSecond < 0 := by rw [hsecond]; omega
    rw [if_neg hfits, clamp_of_not_inRange hfits]
    simp only [Option.getD_none, hsign]

theorem ofSetting_eq_seconds (secs : Nat) : ofSetting secs = seconds secs := by
  unfold ofSetting Word.ofNat?
  split
  · rfl
  · -- both are longer than the longest span
    have hgreatest : Word.greatest = 9223372036854775807 := rfl
    have hlongest : longest.nanos = 9223372036854775807000000 := rfl
    have hsecond : (nanosPerSecond : Int) = 1000000000 := rfl
    simp only [seconds_eq_clamp, clamp, Option.getD_none, hgreatest, hsecond, mk.injEq]
    omega

theorem ofSetting_eq_clamp (secs : Nat) : ofSetting secs = clamp ⟨secs * nanosPerSecond⟩ := by
  rw [ofSetting_eq_seconds, seconds_eq_clamp]

end Duration

end Gatehouse
