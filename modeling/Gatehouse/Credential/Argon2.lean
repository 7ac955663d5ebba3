import Gatehouse.Credential.Blake2b
import Gatehouse.Credential.Cost

/-! The password hash Argon2, in its three variants and two versions.

Memory is filled with blocks of 1024 bytes, each made of the one before it in its lane
and of one far back. Which one that is depends on the password, or in the variant `i`
only on the position; the variant `id` begins like `i` and goes on like `d`. Lanes are
filled one after the other, a quarter at a time; at the end their last blocks together
give the hash. -/
namespace Gatehouse.Credential.Argon2

/-! ### Blocks -/

/-- A block of 128 words. -/
structure Block where
  r0 : Row
  r1 : Row
  r2 : Row
  r3 : Row
  r4 : Row
  r5 : Row
  r6 : Row
  r7 : Row
  deriving Inhabited, DecidableEq

/-- A sum that also multiplies the lower halves. -/
@[inline] def blend (a b : UInt64) : UInt64 :=
  a + b + 2 * ((a &&& 0xffffffff) * (b &&& 0xffffffff))

/-- Stirs a row. -/
def permute (r : Row) : Row :=
  r.stir fun _ a b c d next =>
    let a := blend a b
    let d := rotateRight (d ^^^ a) 32
    let c := blend c d
    let b := rotateRight (b ^^^ c) 24
    let a := blend a b
    let d := rotateRight (d ^^^ a) 16
    let c := blend c d
    let b := rotateRight (b ^^^ c) 63
    next a b c d

namespace Block

/-- A block of zeros. -/
def zero : Block := ⟨.zero, .zero, .zero, .zero, .zero, .zero, .zero, .zero⟩

/-- Word by word. -/
def xor (a b : Block) : Block :=
  ⟨a.r0.xor b.r0, a.r1.xor b.r1, a.r2.xor b.r2, a.r3.xor b.r3,
    a.r4.xor b.r4, a.r5.xor b.r5, a.r6.xor b.r6, a.r7.xor b.r7⟩

/-- Two words of every row, as a row. -/
@[inline] def column (b : Block) (f g : Row → UInt64) : Row :=
  ⟨f b.r0, g b.r0, f b.r1, g b.r1, f b.r2, g b.r2, f b.r3, g b.r3,
    f b.r4, g b.r4, f b.r5, g b.r5, f b.r6, g b.r6, f b.r7, g b.r7⟩

/-- Rows as columns: pairs of words change places. -/
def transpose (b : Block) : Block where
  r0 := b.column (·.w0) (·.w1)
  r1 := b.column (·.w2) (·.w3)
  r2 := b.column (·.w4) (·.w5)
  r3 := b.column (·.w6) (·.w7)
  r4 := b.column (·.w8) (·.w9)
  r5 := b.column (·.w10) (·.w11)
  r6 := b.column (·.w12) (·.w13)
  r7 := b.column (·.w14) (·.w15)

/-- Stirs every row. -/
def permuteRows (b : Block) : Block :=
  ⟨permute b.r0, permute b.r1, permute b.r2, permute b.r3,
    permute b.r4, permute b.r5, permute b.r6, permute b.r7⟩

/-- One block made of two. -/
def compress (a b : Block) : Block :=
  let both := a.xor b
  (both.permuteRows.transpose.permuteRows.transpose).xor both

/-- The rows in order. -/
def rows (b : Block) : List Row := [b.r0, b.r1, b.r2, b.r3, b.r4, b.r5, b.r6, b.r7]

/-- The words in order. -/
def words (b : Block) : List UInt64 := b.rows.flatMap Row.toList

/-- The row of the next sixteen words, with zeros for what is missing. -/
def rowOf : List UInt64 → Row
  | [w0, w1, w2, w3, w4, w5, w6, w7, w8, w9, w10, w11, w12, w13, w14, w15] =>
    ⟨w0, w1, w2, w3, w4, w5, w6, w7, w8, w9, w10, w11, w12, w13, w14, w15⟩
  | _ => .zero

/-- The block of 1024 bytes. -/
def ofBytes (bytes : List UInt8) : Block :=
  let ws := Blake2b.words 128 bytes
  let row (n : Nat) : Row := rowOf ((ws.drop (16 * n)).take 16)
  ⟨row 0, row 1, row 2, row 3, row 4, row 5, row 6, row 7⟩

end Block

/-! ### Parameters -/

/-- How the block far back is chosen. -/
inductive Variant where
  | d
  | i
  | id
  deriving DecidableEq, Repr, Inhabited

namespace Variant

/-- The name of a variant. -/
def name : Variant → String
  | d => "argon2d"
  | i => "argon2i"
  | id => "argon2id"

/-- The number of a variant. -/
def number : Variant → Nat
  | d => 0
  | i => 1
  | id => 2

/-- All variants. -/
def all : List Variant := [d, i, id]

end Variant

/-- The newer version, in which later passes add to what is there. -/
def latestVersion : Nat := 19

/-- The older version, in which later passes replace what is there. -/
def oldVersion : Nat := 16

/-- All that a hash depends on but the password and the salt. -/
structure Params where
  variant : Variant
  version : Nat
  cost : Cost
  /-- Further data that the hash is bound to. -/
  data : List UInt8 := []
  /-- The number of bytes of the hash. -/
  size : Nat
  deriving Inhabited

namespace Params

/-- The blocks of a quarter of a lane. -/
def quarter (p : Params) : Nat := p.cost.memory / (4 * p.cost.lanes)

/-- The blocks of a lane. -/
def lane (p : Params) : Nat := 4 * p.quarter

/-- All blocks. -/
def blocks (p : Params) : Nat := p.lane * p.cost.lanes

end Params

/-! ### Filling the memory -/

/-- A length and the bytes it counts. -/
def counted (bytes : List UInt8) : List UInt8 := littleEndian 4 bytes.length ++ bytes

/-- The hash of everything that goes in. -/
def seed (p : Params) (password salt : List UInt8) : List UInt8 :=
  let n := littleEndian 4
  Blake2b.hash 64 <|
    n p.cost.lanes ++ n p.size ++ n p.cost.memory ++ n p.cost.passes ++ n p.version
      ++ n p.variant.number ++ counted password ++ counted salt ++ counted [] ++ counted p.data

/-- The first two blocks of every lane. -/
def start (p : Params) (seed : List UInt8) : Array Block :=
  (List.range p.cost.lanes).foldl (fun memory lane =>
    let first (n : Nat) : Block :=
      .ofBytes (Blake2b.longHash 1024 (seed ++ littleEndian 4 n ++ littleEndian 4 lane))
    (memory.setIfInBounds (lane * p.lane) (first 0)).setIfInBounds (lane * p.lane + 1) (first 1))
    (Array.replicate p.blocks .zero)

/-- Where the memory is being filled: the pass, the quarter and the lane. -/
structure Place where
  pass : Nat
  slice : Nat
  lane : Nat

/-- Whether the block far back is chosen by position alone. -/
def Place.byPosition (v : Variant) (at' : Place) : Bool :=
  match v with
  | .d => false
  | .i => true
  | .id => at'.pass = 0 && at'.slice < 2

/-- The words that choose the blocks far back of a quarter, 128 at a time. -/
def choices (p : Params) (at' : Place) : Array UInt64 :=
  let batch (n : Nat) : List UInt64 :=
    let row : Row := { Row.zero with
      w0 := UInt64.ofNat at'.pass
      w1 := UInt64.ofNat at'.lane
      w2 := UInt64.ofNat at'.slice
      w3 := UInt64.ofNat p.blocks
      w4 := UInt64.ofNat p.cost.passes
      w5 := UInt64.ofNat p.variant.number
      w6 := UInt64.ofNat (n + 1) }
    (Block.zero.compress (Block.zero.compress { Block.zero with r0 := row })).words
  ((List.range ((p.quarter + 127) / 128)).flatMap batch).toArray

/-- The block far back that a word chooses for the `index`th block of a quarter, as a place
in the memory. -/
def farBack (p : Params) (at' : Place) (index : Nat) (word : UInt64) : Nat :=
  let low := word.toNat % Nat.pow 2 32
  let lane :=
    if at'.pass = 0 ∧ at'.slice = 0 then at'.lane else word.toNat / Nat.pow 2 32 % p.cost.lanes
  let filled := if at'.pass = 0 then at'.slice * p.quarter else p.lane - p.quarter
  let area :=
    if lane = at'.lane then filled + index - 1 else if index = 0 then filled - 1 else filled
  let back := area * (low * low / Nat.pow 2 32) / Nat.pow 2 32
  let from' := if at'.pass = 0 ∨ at'.slice = 3 then 0 else (at'.slice + 1) * p.quarter
  lane * p.lane + (from' + (area - 1 - back)) % p.lane

/-- The first word of a block. -/
@[inline] def Block.head (b : Block) : UInt64 := b.r0.w0

/-- Fills blocks of a quarter from the `index`th on, `left` of them. -/
def fillBlocks (p : Params) (at' : Place) (chosen : Option (Array UInt64)) :
    Nat → Nat → Array Block → Array Block
  | 0, _, memory => memory
  | left + 1, index, memory =>
    let column := at'.slice * p.quarter + index
    let here := at'.lane * p.lane + column
    let before := at'.lane * p.lane + (if column = 0 then p.lane - 1 else column - 1)
    let previous := memory.getD before .zero
    let word := match chosen with
      | some words => words.getD index 0
      | none => previous.head
    let made := previous.compress (memory.getD (farBack p at' index word) .zero)
    let made :=
      if at'.pass = 0 ∨ p.version = oldVersion then made else made.xor (memory.getD here .zero)
    fillBlocks p at' chosen left (index + 1) (memory.setIfInBounds here made)

/-- Fills a quarter of a lane. -/
def fillQuarter (p : Params) (memory : Array Block) (at' : Place) : Array Block :=
  let skip := if at'.pass = 0 ∧ at'.slice = 0 then 2 else 0
  let chosen := if at'.byPosition p.variant then some (choices p at') else none
  fillBlocks p at' chosen (p.quarter - skip) skip memory

/-- All quarters in the order in which they are filled. -/
def places (p : Params) : List Place :=
  (List.range p.cost.passes).flatMap fun pass => (List.range 4).flatMap fun slice =>
    (List.range p.cost.lanes).map fun lane => ⟨pass, slice, lane⟩

/-- The hash of a password with a salt. -/
def hash (p : Params) (password salt : List UInt8) : List UInt8 :=
  let memory := (places p).foldl (fillQuarter p) (start p (seed p password salt))
  let last := (List.range p.cost.lanes).foldl
    (fun b lane => b.xor (memory.getD (lane * p.lane + p.lane - 1) .zero)) Block.zero
  Blake2b.longHash p.size (Blake2b.bytesOf last.words)

end Gatehouse.Credential.Argon2
