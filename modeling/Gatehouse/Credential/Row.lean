/-! Rows of sixteen 64-bit words, and how they are stirred: the columns of the row as a
square of four by four, then its diagonals. -/
namespace Gatehouse.Credential

/-- Sixteen words. -/
structure Row where
  w0 : UInt64
  w1 : UInt64
  w2 : UInt64
  w3 : UInt64
  w4 : UInt64
  w5 : UInt64
  w6 : UInt64
  w7 : UInt64
  w8 : UInt64
  w9 : UInt64
  w10 : UInt64
  w11 : UInt64
  w12 : UInt64
  w13 : UInt64
  w14 : UInt64
  w15 : UInt64
  deriving Inhabited, DecidableEq

/-- A word with its bits moved down, the lowest coming in at the top. -/
@[inline] def rotateRight (x : UInt64) (n : UInt64) : UInt64 := (x >>> n) ||| (x <<< (64 - n))

namespace Row

/-- Sixteen zeros. -/
def zero : Row := ⟨0, 0, 0, 0, 0, 0, 0, 0, 0, 0, 0, 0, 0, 0, 0, 0⟩

/-- The words in order. -/
def toList (r : Row) : List UInt64 :=
  [r.w0, r.w1, r.w2, r.w3, r.w4, r.w5, r.w6, r.w7,
    r.w8, r.w9, r.w10, r.w11, r.w12, r.w13, r.w14, r.w15]

/-- Word by word. -/
@[inline] def xor (a b : Row) : Row :=
  ⟨a.w0 ^^^ b.w0, a.w1 ^^^ b.w1, a.w2 ^^^ b.w2, a.w3 ^^^ b.w3,
    a.w4 ^^^ b.w4, a.w5 ^^^ b.w5, a.w6 ^^^ b.w6, a.w7 ^^^ b.w7,
    a.w8 ^^^ b.w8, a.w9 ^^^ b.w9, a.w10 ^^^ b.w10, a.w11 ^^^ b.w11,
    a.w12 ^^^ b.w12, a.w13 ^^^ b.w13, a.w14 ^^^ b.w14, a.w15 ^^^ b.w15⟩

/-- Mixes four words at a time, given the number of the mix and what to do with the four
words it makes: first each column, then each diagonal. -/
@[inline] def stir
    (mix : Nat → UInt64 → UInt64 → UInt64 → UInt64 →
      (UInt64 → UInt64 → UInt64 → UInt64 → Row) → Row) (r : Row) : Row :=
  mix 0 r.w0 r.w4 r.w8 r.w12 fun a0 b0 c0 d0 =>
  mix 1 r.w1 r.w5 r.w9 r.w13 fun a1 b1 c1 d1 =>
  mix 2 r.w2 r.w6 r.w10 r.w14 fun a2 b2 c2 d2 =>
  mix 3 r.w3 r.w7 r.w11 r.w15 fun a3 b3 c3 d3 =>
  mix 4 a0 b1 c2 d3 fun a0 b1 c2 d3 =>
  mix 5 a1 b2 c3 d0 fun a1 b2 c3 d0 =>
  mix 6 a2 b3 c0 d1 fun a2 b3 c0 d1 =>
  mix 7 a3 b0 c1 d2 fun a3 b0 c1 d2 =>
  ⟨a0, a1, a2, a3, b0, b1, b2, b3, c0, c1, c2, c3, d0, d1, d2, d3⟩

end Row

/-- A number's lowest bytes, lowest first. -/
def littleEndian : Nat → Nat → List UInt8
  | 0, _ => []
  | count + 1, n => UInt8.ofNat (n % 256) :: littleEndian count (n / 256)

/-- The number of bytes, lowest first. -/
def ofLittleEndian (bytes : List UInt8) : Nat := bytes.foldr (fun b n => n * 256 + b.toNat) 0

end Gatehouse.Credential
