import Gatehouse.Text.Blank
import Gatehouse.Text.Digits
import Gatehouse.Time.Calendar

/-! Instants as text: date, time of day and offset from universal time.

What is written has one form, in universal time, with as many groups of three
fractional digits as are needed. What is read may be looser: blanks before each
number and around the separators, one-digit months, days and times, a space or a
small `t` between date and time, a fraction of any length, and any offset of whole
minutes within a day. -/
namespace Gatehouse

/-- An instant taken apart: the date, the second of the day, and the nanoseconds,
which reach a second or more inside a leap second. -/
structure Timestamp where
  date : Date
  second : Nat
  nanos : Nat
  deriving DecidableEq, Repr

namespace Timestamp
open Text

/-- Seconds in a day. -/
def daySeconds : Nat := 86400

/-- An instant's date and time of day. -/
def ofInstant (t : Instant) : Timestamp :=
  let seconds := t.nanos / Instant.perSecond
  { date := Date.ofDays (seconds / daySeconds)
    second := (seconds % daySeconds).toNat
    nanos := (t.nanos % Instant.perSecond).toNat + t.leap }

/-- The instant of a date and time of day. -/
def toInstant (t : Timestamp) : Instant :=
  let start := (t.date.toDays * daySeconds + t.second) * Instant.perSecond
  if t.nanos < 1000000000 then ⟨start + t.nanos, 0⟩
  else ⟨start + 999999999, t.nanos - 999999999⟩

/-! ### Writing -/

/-- Years of four digits stand alone; others have a sign. -/
def yearText (year : Int) : List Char :=
  if 0 ≤ year ∧ year ≤ 9999 then fixedDigits 4 year.toNat
  else (if year < 0 then '-' else '+') :: paddedDecimal 4 year.natAbs

/-- A fraction of a second in as few groups of three digits as are exact. -/
def fractionText (nanos : Nat) : List Char :=
  if nanos = 0 then []
  else if nanos % 1000000 = 0 then '.' :: fixedDigits 3 (nanos / 1000000)
  else if nanos % 1000 = 0 then '.' :: fixedDigits 6 (nanos / 1000)
  else '.' :: fixedDigits 9 nanos

/-- The date as year, month and day. -/
def dateText (d : Date) : List Char :=
  yearText d.year ++ '-' :: fixedDigits 2 d.month ++ '-' :: fixedDigits 2 d.day

/-- The time of day; the leap second is second 60. -/
def timeText (t : Timestamp) : List Char :=
  let leap := t.nanos / 1000000000
  fixedDigits 2 (t.second / 3600) ++ ':' :: fixedDigits 2 (t.second / 60 % 60)
    ++ ':' :: fixedDigits 2 (t.second % 60 + leap) ++ fractionText (t.nanos % 1000000000)

/-! ### Reading -/

/-- A number of one to `width` digits (of any length when there is no width) after
blanks, and what follows it. -/
def number? (width : Option Nat) (s : List Char) : Option (Nat × List Char) :=
  let s := skipBlanks s
  let digits := (spanDigits s).1
  let digits := match width with
    | some w => digits.take w
    | none => digits
  if digits.isEmpty then none else some (ofDecimal digits, s.drop digits.length)

/-- A year: at most four digits, or a sign and any number of them. -/
def year? (s : List Char) : Option (Int × List Char) :=
  match skipBlanks s with
  | '-' :: rest => if rest.head?.any isDigit then (number? none rest).map fun (n, r) => (-n, r) else none
  | '+' :: rest => if rest.head?.any isDigit then (number? none rest).map fun (n, r) => (n, r) else none
  | s => (number? (some 4) s).map fun (n, r) => (n, r)

/-- A separator after blanks, and what follows it. -/
def separator? (c : Char) (s : List Char) : Option (List Char) :=
  match skipBlanks s with
  | d :: rest => if d = c then some rest else none
  | [] => none

/-- The nanoseconds of a fraction: its first nine digits count. -/
def fraction? : List Char → Option (Nat × List Char)
  | '.' :: rest =>
    let digits := (spanDigits rest).1
    let kept := digits.take 9
    if kept.isEmpty then none
    else some (ofDecimal kept * Nat.pow 10 (9 - kept.length), rest.drop digits.length)
  | s => some (0, s)

/-- The minutes by which local time is ahead of universal time. -/
def offset? (s : List Char) : Option (Int × List Char) :=
  match s with
  | 'Z' :: rest => some (0, rest)
  | 'z' :: rest => some (0, rest)
  | u :: t :: c :: rest =>
    if (u == 'U' || u == 'u') && (t == 'T' || t == 't') && (c == 'C' || c == 'c') then some (0, rest)
    else if u == '+' then clock? (t :: c :: rest)
    else if u == '-' || u == '\u2212' then (clock? (t :: c :: rest)).map fun (n, r) => (-n, r)
    else none
  | _ => none
where
  /-- Two digits of hours, then, after colons and blanks, two of minutes. -/
  clock? : List Char → Option (Int × List Char)
    | h :: h' :: rest =>
      match rest.dropWhile fun c => c == ':' || isBlank c with
      | m :: m' :: rest =>
        if [h, h', m, m'].all isDigit && digitValue m < 6 then
          some ((ofDecimal [h, h'] * 60 + ofDecimal [m, m'] : Nat), rest)
        else none
      | _ => none
    | _ => none

/-- A date, which need not exist. -/
def date? (s : List Char) : Option (Date × List Char) := do
  let (year, s) ← year? s
  let (month, s) ← number? (some 2) (← separator? '-' s)
  let (day, s) ← number? (some 2) (← separator? '-' s)
  some (⟨year, month, day⟩, s)

/-- A time of day; second 60 is the leap second after second 59. -/
def time? (s : List Char) : Option (Nat × Nat × List Char) := do
  let (hour, s) ← number? (some 2) s
  let (minute, s) ← number? (some 2) (← separator? ':' s)
  let (second, s) ← number? (some 2) (← separator? ':' s)
  let (nanos, s) ← fraction? s
  if hour ≤ 23 ∧ minute ≤ 59 ∧ second ≤ 60 then
    let leap := second / 60
    some (hour * 3600 + minute * 60 + second - leap, nanos + leap * 1000000000, s)
  else none

/-- An instant written as a date, a time of day and an offset, and nothing else. -/
def instant? (s : List Char) : Option Instant := do
  let (date, s) ← date? s
  let s ← match s with
    | c :: rest => if c == 'T' || c == 't' || c == ' ' then some rest else none
    | [] => none
  let (second, nanos, s) ← time? s
  let (minutes, s) ← offset? (skipBlanks s)
  if !(skipBlanks s).isEmpty || minutes.natAbs ≥ 1440 then none
  else if !decide date.Valid then none
  else
    let here := toInstant ⟨date, second, nanos⟩
    let there : Instant := ⟨here.nanos - minutes * 60 * Instant.perSecond, here.leap⟩
    if here.InRange ∧ there.InRange then some there else none

end Timestamp

namespace Instant

/-- An instant with `T` before its time of day and `Z` after it. -/
def toText (t : Instant) : String :=
  let parts := Timestamp.ofInstant t
  String.ofList (Timestamp.dateText parts.date ++ 'T' :: parts.timeText ++ ['Z'])

/-- An instant with spaces around its time of day and `UTC` after it. -/
def toSentence (t : Instant) : String :=
  let parts := Timestamp.ofInstant t
  String.ofList (Timestamp.dateText parts.date ++ ' ' :: parts.timeText) ++ " UTC"

/-- The instant that a text tells. -/
def ofText? (s : String) : Option Instant := Timestamp.instant? s.toList

end Instant

end Gatehouse
