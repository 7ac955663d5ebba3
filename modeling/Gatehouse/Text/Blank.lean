/-! White space: the characters of the Unicode property `White_Space`. -/
namespace Gatehouse.Text

/-- The blanks above the Latin letters. -/
def wideBlanks : List Nat :=
  [0x85, 0xA0, 0x1680, 0x2000, 0x2001, 0x2002, 0x2003, 0x2004, 0x2005, 0x2006, 0x2007, 0x2008,
   0x2009, 0x200A, 0x2028, 0x2029, 0x202F, 0x205F, 0x3000]

/-- White space: tab to carriage return, the space, and the wide blanks. -/
def isBlank (c : Char) : Bool :=
  (9 ≤ c.toNat && c.toNat ≤ 13) || c == ' ' || wideBlanks.contains c.toNat

/-- What is left after leading white space. -/
def skipBlanks (s : List Char) : List Char := s.dropWhile isBlank

/-- A text without white space at either end. -/
def trim (s : List Char) : List Char := (skipBlanks (skipBlanks s).reverse).reverse

end Gatehouse.Text
