/-! Words: whole numbers of 64 bits, with a sign.

What is worked out on words may lie beyond them. A product is then the last word on its side
(`Word.mulUpTo`), and a count that is too large has no word (`Word.ofNat?`). -/
namespace Gatehouse.Word

/-- The least word. -/
def least : Int := -9223372036854775808

/-- The greatest word. -/
def greatest : Int := 9223372036854775807

/-- Multiplication that stays at the last number that fits. -/
def mulUpTo (a b : Int) : Int := max least (min greatest (a * b))

/-- A count as a word, if it fits. -/
def ofNat? (n : Nat) : Option Int := if (n : Int) ≤ greatest then some n else none

end Gatehouse.Word
