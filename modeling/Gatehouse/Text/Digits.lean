/-! Numbers as digits: decimal and hexadecimal, written and read. -/
namespace Gatehouse.Text

/-- The digit of a number below sixteen. -/
def digitChar (n : Nat) : Char :=
  if n < 10 then Char.ofNat (48 + n) else Char.ofNat (87 + n)

/-- The decimal digits of a number, without leading zeros. -/
def decimal (n : Nat) : List Char :=
  if n < 10 then [digitChar n] else decimal (n / 10) ++ [digitChar (n % 10)]

/-- Exactly `width` decimal digits of a number, with leading zeros. -/
def fixedDigits : Nat → Nat → List Char
  | 0, _ => []
  | width + 1, n => fixedDigits width (n / 10) ++ [digitChar (n % 10)]

/-- Decimal digits, with leading zeros up to a least width. -/
def paddedDecimal (width n : Nat) : List Char :=
  if n < Nat.pow 10 width then fixedDigits width n else decimal n

/-- Whether a character is a decimal digit. -/
def isDigit (c : Char) : Bool := 48 ≤ c.toNat && c.toNat ≤ 57

/-- The value of a decimal digit. -/
def digitValue (c : Char) : Nat := c.toNat - 48

/-- The value of a hexadecimal digit of either case. -/
def hexValue? (c : Char) : Option Nat :=
  let n := c.toNat
  if 48 ≤ n && n ≤ 57 then some (n - 48)
  else if 97 ≤ n && n ≤ 102 then some (n - 87)
  else if 65 ≤ n && n ≤ 70 then some (n - 55)
  else none

/-- The number that digits of a base, most significant first, stand for. -/
def ofDigits (base : Nat) (digits : List Nat) : Nat := digits.foldl (fun n d => n * base + d) 0

/-- The number that decimal digits stand for. -/
def ofDecimal (s : List Char) : Nat := ofDigits 10 (s.map digitValue)

/-- The leading decimal digits and what follows them. -/
def spanDigits (s : List Char) : List Char × List Char := s.span isDigit

/-- A whole text of decimal digits as a number. -/
def decimal? (s : List Char) : Option Nat :=
  if s.isEmpty || !s.all isDigit then none else some (ofDecimal s)

/-- A decimal number with a minus sign where it is below zero. -/
def signedDecimal (n : Int) : List Char :=
  if n < 0 then '-' :: decimal n.natAbs else decimal n.natAbs

/-- A number's digits in a text. -/
def showNat (n : Nat) : String := String.ofList (decimal n)

end Gatehouse.Text
