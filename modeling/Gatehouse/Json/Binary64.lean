import Gatehouse.Text.Digits

/-! Numbers with a fraction or an exponent, as 64-bit floating point.

A number is written with the fewest digits that read back as the same number, the
nearest such digits first; whole parts up to sixteen digits and down to five zeros
after the point are written without an exponent. A number is read by scaling its
leading digits by powers of ten that are themselves rounded. -/
namespace Gatehouse.Json.Binary64
open Text

/-! ### Taking a number apart -/

/-- A finite number other than zero as `mantissa * 2 ^ exponent`. -/
structure Parts where
  mantissa : Nat
  exponent : Int
  /-- Whether the next number below is only half as far away as the next above. -/
  atPower : Bool

/-- The parts of the bits of a positive finite number. -/
def parts (bits : Nat) : Parts :=
  let fraction : Nat := bits % Nat.pow 2 52
  let scale : Nat := bits / Nat.pow 2 52 % 2048
  if scale = 0 then ⟨fraction, -1074, false⟩
  else ⟨fraction + Nat.pow 2 52, (scale : Int) - 1075, fraction == 0 && scale > 1⟩

/-! ### Writing -/

/-- Where a multiple of `10 ^ place` reads back as the number: `some` multiple that is
nearest, if one does. -/
def onGrid (p : Parts) (place : Int) : Option Nat :=
  let up := Nat.pow 2 (p.exponent - 2).toNat * Nat.pow 10 (-place).toNat
  let down := Nat.pow 2 (2 - p.exponent).toNat * Nat.pow 10 place.toNat
  let value := 4 * p.mantissa * up
  let low := (4 * p.mantissa - if p.atPower then 1 else 2) * up
  let high := (4 * p.mantissa + 2) * up
  let fits (c : Nat) : Bool :=
    if p.mantissa % 2 = 0 then low ≤ c * down && c * down ≤ high
    else low < c * down && c * down < high
  let below := value / down
  let above := below + 1
  if fits below then
    if fits above && above * down - value < value - below * down then some above else some below
  else if fits above then some above
  else none

/-- The digits and the place of the coarsest grid that has the number. -/
def shortest (p : Parts) : Nat → Int → Nat × Int
  | 0, place => (p.mantissa, place)
  | fuel + 1, place =>
    match onGrid p place with
    | some digits => (digits, place)
    | none => shortest p fuel (place - 1)

/-- Digits whose last stands at the place `place`, with a point or an exponent. -/
def layout (digits : List Char) (place : Int) : List Char :=
  let point := digits.length + place
  if 0 ≤ place ∧ point ≤ 16 then digits ++ List.replicate place.toNat '0' ++ ['.', '0']
  else if 0 < point ∧ point ≤ 16 then digits.take point.toNat ++ '.' :: digits.drop point.toNat
  else if -5 < point ∧ point ≤ 0 then '0' :: '.' :: List.replicate (-point).toNat '0' ++ digits
  else
    let exponent := 'e' :: signedDecimal (point - 1)
    match digits with
    | [d] => d :: exponent
    | d :: rest => d :: '.' :: rest ++ exponent
    | [] => exponent

/-- A finite number in as few digits as read back as it. -/
def write (x : Float) : List Char :=
  let bits := x.toBits.toNat
  let sign := if bits / Nat.pow 2 63 = 1 then ['-'] else []
  let size := bits % Nat.pow 2 63
  if size = 0 then sign ++ ['0', '.', '0']
  else
    let p := parts size
    let start := (p.exponent + 53) * 30103 / 100000 + 1
    let (digits, place) := shortest p 400 start
    sign ++ layout (decimal digits) place

/-! ### Reading -/

/-- Scales by ten to the power of an exponent, by at most `10 ^ 308` at a time; `none`
where the number would be too large. -/
def scaled (x : Float) (exponent : Int) : Nat → Option Float
  | 0 => some 0
  | fuel + 1 =>
    if exponent.natAbs ≤ 308 then
      let power := Float.ofScientific 1 false exponent.natAbs
      if 0 ≤ exponent then
        let y := x * power
        if y.isInf then none else some y
      else some (x / power)
    else if x == 0 then some x
    else if 0 ≤ exponent then none
    else scaled (x / 1e308) (exponent + 308) fuel

/-- The largest number whose digits are all kept. -/
def significandLimit : Nat := Nat.pow 2 64

/-- Takes up digits as long as the number they make stays below the limit, and tells
how many were left. -/
def takeUp : Nat → List Nat → Nat × Nat
  | n, [] => (n, 0)
  | n, d :: rest => if n * 10 + d < significandLimit then takeUp (n * 10 + d) rest else (n, rest.length + 1)

/-- The number of the digits before and after the point and an exponent; `none` where
it would be too large. Four steps of scaling reach zero from any significand. -/
def ofDecimal (negative : Bool) (whole fraction : List Nat) (exponent : Int) : Option Float :=
  let (n, leftWhole) := takeUp 0 whole
  let (n, leftFraction) := takeUp n fraction
  let place := (leftWhole : Int) - (fraction.length - leftFraction : Nat)
  (scaled n.toUInt64.toFloat (place + exponent) 4).map fun y => if negative then -y else y

end Gatehouse.Json.Binary64
