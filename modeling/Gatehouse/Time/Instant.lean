import Gatehouse.Time.Duration

/-! Instants of universal time.

An instant is counted in nanoseconds since the first moment of 1970, and lies
between `Instant.earliest` and `Instant.latest`. A moment inside a leap second has
no count of its own: it is told by the last nanosecond of the second it follows
and how far into the leap second it is, so it stands after that second and before
the next. Adding a span that leaves the range gives the end it would leave by
(`Instant.after`). -/
namespace Gatehouse

/-- A moment of universal time; `leap` is 0 outside leap seconds. -/
structure Instant where
  /-- Nanoseconds since 1970 began. -/
  nanos : Int
  /-- One more than the nanoseconds elapsed of a leap second that follows `nanos`. -/
  leap : Nat := 0
  deriving DecidableEq, Repr, Inhabited

namespace Instant

/-- Nanoseconds in a second, as an integer. -/
def perSecond : Int := 1000000000

/-- The first moment of 1970. -/
def epoch : Instant := ⟨0, 0⟩

/-- The first moment of the calendar, the beginning of the year -262143. -/
def earliest : Instant := ⟨-8334601228800000000000, 0⟩

/-- The last moment of the calendar, the end of the year 262142. -/
def latest : Instant := ⟨8210266876799999999999, 0⟩

/-- Instants are ordered by count, and within one count by the time into a leap second. -/
instance : LE Instant := ⟨fun a b => a.nanos < b.nanos ∨ a.nanos = b.nanos ∧ a.leap ≤ b.leap⟩
instance : LT Instant := ⟨fun a b => a.nanos < b.nanos ∨ a.nanos = b.nanos ∧ a.leap < b.leap⟩
instance (a b : Instant) : Decidable (a ≤ b) := inferInstanceAs (Decidable (_ ∨ _))
instance (a b : Instant) : Decidable (a < b) := inferInstanceAs (Decidable (_ ∨ _))

/-- The instant a number of milliseconds after 1970 began. -/
def ofMillis (n : Int) : Instant := ⟨n * Duration.nanosPerMilli, 0⟩

/-- Whether an instant lies outside leap seconds. -/
def IsRegular (t : Instant) : Prop := t.leap = 0

instance (t : Instant) : Decidable t.IsRegular := inferInstanceAs (Decidable (_ = _))

/-- Whether an instant lies between the ends of the calendar. -/
def InRange (t : Instant) : Prop := earliest.nanos ≤ t.nanos ∧ t.nanos ≤ latest.nanos

instance (t : Instant) : Decidable t.InRange := inferInstanceAs (Decidable (_ ∧ _))

/-- The count with the time into a leap second added. -/
def reading (t : Instant) : Int := t.nanos + t.leap

/-- The second of the day that an instant falls in. -/
def secondOfDay (t : Instant) : Int := t.nanos / perSecond % 86400

/-- A count held between the ends of the calendar. -/
def held (nanos : Int) : Instant :=
  if nanos < earliest.nanos then earliest else if latest.nanos < nanos then latest else ⟨nanos, 0⟩

/-- The moment a span after a moment in a leap second. A span that stays within the
leap second moves in it, one that goes back before it is counted from the leap
second's own reading, and one that goes on beyond it has the leap second's length
taken off. -/
def leapAfter (t : Instant) (d : Duration) : Instant :=
  let within := t.leap + 999999999 + d.subsecond
  if d.wholeSeconds > 0 ∨ (d.subsecond > 0 ∧ within ≥ 2 * perSecond) then
    held (t.reading - perSecond + d.nanos)
  else if d.wholeSeconds < 0 then held (t.reading + d.nanos)
  else if within < perSecond then held (t.reading + d.nanos)
  else ⟨t.nanos, (within - perSecond + 1).toNat⟩

/-- The moment a span after another; at either end of the calendar it stays there. -/
def after (t : Instant) (d : Duration) : Instant :=
  if t.leap = 0 then held (t.nanos + d.nanos) else t.leapAfter d

/-- The span from `b` to `a`. A leap second counts where the two times of day stand
on its two sides. -/
def since (a b : Instant) : Duration :=
  let extra : Int :=
    if b.secondOfDay < a.secondOfDay ∧ b.leap ≠ 0 then perSecond
    else if a.secondOfDay < b.secondOfDay ∧ a.leap ≠ 0 then -perSecond
    else 0
  ⟨a.reading - b.reading + extra⟩

theorem after_of_regular {t : Instant} (h : t.IsRegular) (d : Duration) :
    t.after d = held (t.nanos + d.nanos) := if_pos h

theorem since_of_regular {a b : Instant} (ha : a.IsRegular) (hb : b.IsRegular) :
    (a.since b).nanos = a.nanos - b.nanos := by
  simp_all [IsRegular, since, reading]

theorem held_isRegular (n : Int) : (held n).IsRegular := by
  unfold held
  split
  · rfl
  · split <;> rfl

end Instant

end Gatehouse
