import Gatehouse.Proofs.Time.Order

/-! Numbers of a width.

Counts and milliseconds are words of 64 bits, and a span lies between two extremes. Here an
operation on them tells when its result does not fit, or when it divides by zero (`Checked`); one
whose result fits comes to that result and nothing else. What is read off a calendar fits with
much to spare: two of its moments are less than `2 ^ 54` milliseconds apart
(`OnCalendar.checkedSince`), and no span leads off it (`OnCalendar.after`). -/
namespace Gatehouse

/-- Why an operation has no result. -/
inductive Overflow where
  | unfit
  | zeroDivisor
  deriving DecidableEq, Repr

/-- What operations on numbers of a width come to. -/
abbrev Checked (α : Type) : Type := Except Overflow α

/-! ### Words -/

namespace Word

/-- Whether a number fits into 64 bits with its sign. -/
def Fits (n : Int) : Prop := least ≤ n ∧ n ≤ greatest

instance (n : Int) : Decidable (Fits n) := inferInstanceAs (Decidable (_ ∧ _))

/-- A number, if it fits. -/
def check (n : Int) : Checked Int := if Fits n then .ok n else .error .unfit

def add (a b : Int) : Checked Int := check (a + b)

def sub (a b : Int) : Checked Int := check (a - b)

def mul (a b : Int) : Checked Int := check (a * b)

/-- Division, truncated toward zero. -/
def div (a b : Int) : Checked Int := if b = 0 then .error .zeroDivisor else check (a.tdiv b)

/-- Addition that stays at the last number that fits. -/
def addUpTo (a b : Int) : Int := max least (min greatest (a + b))

variable {a b n : Int}

theorem check_of_fits (h : Fits n) : check n = .ok n := if_pos h

theorem div_of_pos (ha : 0 ≤ a) (hfits : a ≤ greatest) (hb : 0 < b) : div a b = .ok (a / b) := by
  have hnonneg : 0 ≤ a / b := Int.ediv_nonneg ha (Int.le_of_lt hb)
  have hle : a / b ≤ a := Int.ediv_le_self b ha
  have hleast : least ≤ 0 := by decide
  rw [div, if_neg (by omega), Int.tdiv_eq_ediv_of_nonneg ha]
  exact check_of_fits ⟨by omega, by omega⟩

/-- Below a limit that fits, a sum is told in full. -/
theorem le_addUpTo_iff {limit : Int} (ha : 0 ≤ a) (hb : 0 ≤ b) (hlimit : limit ≤ greatest) :
    limit ≤ addUpTo a b ↔ limit ≤ a + b := by
  have hleast : least ≤ 0 := by decide
  unfold addUpTo
  omega

theorem addUpTo_of_lt (ha : 0 ≤ a) (hb : 0 ≤ b) (h : a + b ≤ greatest) : addUpTo a b = a + b := by
  have hleast : least ≤ 0 := by decide
  unfold addUpTo
  omega

end Word

/-! ### Spans -/

namespace Duration
variable {d : Duration} {n : Int}

/-- A span, if it fits. -/
def check (d : Duration) : Checked Duration := if d.InRange then .ok d else .error .unfit

/-- A span of whole milliseconds, if it fits. -/
def checkedOfMillis (n : Int) : Checked Duration := check (ofMillis n)

/-- The whole milliseconds in a span. -/
def checkedMillis (d : Duration) : Checked Int := Word.check d.millis

/-- A span so many times, where the number fits into 32 bits. -/
def checkedTimes (d : Duration) (n : Int) : Checked Duration :=
  if -2147483648 ≤ n ∧ n ≤ 2147483647 then check ⟨d.nanos * n⟩ else .error .unfit

theorem InRange.millis_fits (h : d.InRange) : Word.Fits d.millis := by
  obtain ⟨hlow, hhigh⟩ := h
  have hlow' : -9223372036854775807000000 ≤ d.nanos := hlow
  have hhigh' : d.nanos ≤ 9223372036854775807000000 := hhigh
  show -9223372036854775808 ≤ d.nanos.tdiv 1000000 ∧ d.nanos.tdiv 1000000 ≤ 9223372036854775807
  rcases Int.le_total 0 d.nanos with hforth | hback
  · rw [Int.tdiv_eq_ediv_of_nonneg hforth]
    omega
  · have hneg : d.nanos.tdiv 1000000 = -(-d.nanos / 1000000) := by
      rw [← Int.tdiv_eq_ediv_of_nonneg (by omega), Int.neg_tdiv, Int.neg_neg]
    rw [hneg]
    omega

theorem InRange.checkedMillis (h : d.InRange) : d.checkedMillis = .ok d.millis :=
  Word.check_of_fits h.millis_fits

theorem checkedOfMillis_of_fits (h : -Word.greatest ≤ n) (h' : n ≤ Word.greatest) :
    checkedOfMillis n = .ok (ofMillis n) := by
  have hlow : -9223372036854775807 ≤ n := h
  have hhigh : n ≤ 9223372036854775807 := h'
  refine if_pos ⟨?_, ?_⟩
  · show -9223372036854775807000000 ≤ n * 1000000
    omega
  · show n * 1000000 ≤ 9223372036854775807000000
    omega

theorem millis_ofMillis (n : Int) : (ofMillis n).millis = n :=
  Int.mul_tdiv_cancel n (by decide)

end Duration

/-! ### Moments of the calendar -/

namespace Instant
variable {a b t : Instant}

/-- Whether an instant lies on the calendar, perhaps within a leap second. -/
def OnCalendar (t : Instant) : Prop := t.InRange ∧ t.leap ≤ 1000000000

instance (t : Instant) : Decidable t.OnCalendar := inferInstanceAs (Decidable (_ ∧ _))

/-- The span from one moment to another, if it fits. -/
def checkedSince (a b : Instant) : Checked Duration := (a.since b).check

theorem Plain.onCalendar (h : t.Plain) : t.OnCalendar := by
  refine ⟨h.2, ?_⟩
  have hleap : t.leap = 0 := h.1
  omega

/-- A span that stays within a leap second stays within its length. -/
theorem OnCalendar.leapAfter (h : t.OnCalendar) (d : Duration) : (t.leapAfter d).OnCalendar := by
  obtain ⟨hrange, hleap⟩ := h
  have hsecond : perSecond = 1000000000 := rfl
  simp only [Instant.leapAfter]
  split
  · exact (held_plain _).onCalendar
  · split
    · exact (held_plain _).onCalendar
    · split
      · exact (held_plain _).onCalendar
      · refine ⟨hrange, ?_⟩
        show Int.toNat _ ≤ 1000000000
        omega

/-- No span leads off the calendar. -/
theorem OnCalendar.after (h : t.OnCalendar) (d : Duration) : (t.after d).OnCalendar := by
  unfold Instant.after
  split
  · exact (held_plain _).onCalendar
  · exact h.leapAfter d

/-- How far apart two moments of the calendar can be, in milliseconds. -/
def calendarMillis : Int := 16544868105602000

theorem OnCalendar.since_bounds (ha : a.OnCalendar) (hb : b.OnCalendar) :
    -(calendarMillis * 1000000) ≤ (a.since b).nanos ∧
      (a.since b).nanos ≤ calendarMillis * 1000000 := by
  obtain ⟨⟨hfirst, hlast⟩, hleap⟩ := ha
  obtain ⟨⟨hfirst', hlast'⟩, hleap'⟩ := hb
  have hsecond : perSecond = 1000000000 := rfl
  have hearliest : earliest.nanos = -8334601228800000000000 := rfl
  have hlatest : latest.nanos = 8210266876799999999999 := rfl
  have hmillis : calendarMillis = 16544868105602000 := rfl
  simp only [since, reading]
  split
  · omega
  · split <;> omega

theorem OnCalendar.since_inRange (ha : a.OnCalendar) (hb : b.OnCalendar) :
    (a.since b).InRange := by
  have hbounds := ha.since_bounds hb
  have hmillis : calendarMillis = 16544868105602000 := rfl
  refine ⟨?_, ?_⟩
  · show -9223372036854775807000000 ≤ (a.since b).nanos
    omega
  · show (a.since b).nanos ≤ 9223372036854775807000000
    omega

theorem OnCalendar.checkedSince (ha : a.OnCalendar) (hb : b.OnCalendar) :
    a.checkedSince b = .ok (a.since b) := if_pos (ha.since_inRange hb)

theorem OnCalendar.millis_since_le (ha : a.OnCalendar) (hb : b.OnCalendar) :
    (a.since b).millis ≤ calendarMillis := by
  have hbounds := ha.since_bounds hb
  refine Int.not_lt.mp fun hlt => ?_
  have := (Duration.le_millis_iff (n := calendarMillis + 1) (by decide)).mp hlt
  omega

end Instant

end Gatehouse
