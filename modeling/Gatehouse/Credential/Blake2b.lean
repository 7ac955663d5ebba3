import Gatehouse.Credential.Row

/-! The hash function BLAKE2b without a key: up to 64 bytes from a text of any length. -/
namespace Gatehouse.Credential.Blake2b

/-- The first words: the fractions of the square roots of the first eight primes. -/
def iv : List UInt64 :=
  [0x6a09e667f3bcc908, 0xbb67ae8584caa73b, 0x3c6ef372fe94f82b, 0xa54ff53a5f1d36f1,
    0x510e527fade682d1, 0x9b05688c2b3e6c1f, 0x1f83d9abfb41bd6b, 0x5be0cd19137e2179]

/-- The order in which a round takes up the words of a message. -/
def schedule : List (Array Nat) := [
  #[0, 1, 2, 3, 4, 5, 6, 7, 8, 9, 10, 11, 12, 13, 14, 15],
  #[14, 10, 4, 8, 9, 15, 13, 6, 1, 12, 0, 2, 11, 7, 5, 3],
  #[11, 8, 12, 0, 5, 2, 15, 13, 10, 14, 3, 6, 7, 1, 9, 4],
  #[7, 9, 3, 1, 13, 12, 11, 14, 2, 6, 5, 10, 4, 0, 15, 8],
  #[9, 0, 5, 7, 2, 4, 10, 15, 14, 1, 11, 12, 6, 8, 3, 13],
  #[2, 12, 6, 10, 0, 11, 8, 3, 4, 13, 7, 5, 15, 14, 1, 9],
  #[12, 5, 1, 15, 14, 13, 4, 10, 0, 7, 6, 3, 9, 2, 8, 11],
  #[13, 11, 7, 14, 12, 1, 3, 9, 5, 0, 15, 4, 8, 6, 2, 10],
  #[6, 15, 14, 9, 11, 3, 0, 8, 12, 2, 13, 7, 1, 4, 10, 5],
  #[10, 2, 8, 4, 7, 6, 1, 5, 15, 11, 9, 14, 3, 12, 13, 0],
  #[0, 1, 2, 3, 4, 5, 6, 7, 8, 9, 10, 11, 12, 13, 14, 15],
  #[14, 10, 4, 8, 9, 15, 13, 6, 1, 12, 0, 2, 11, 7, 5, 3]]

/-- One round over a row, with the words of a message. -/
def round (message : Array UInt64) (row : Row) (order : Array Nat) : Row :=
  row.stir fun n a b c d next =>
    let a := a + b + message.getD (order.getD (2 * n) 0) 0
    let d := rotateRight (d ^^^ a) 32
    let c := c + d
    let b := rotateRight (b ^^^ c) 24
    let a := a + b + message.getD (order.getD (2 * n + 1) 0) 0
    let d := rotateRight (d ^^^ a) 16
    let c := c + d
    let b := rotateRight (b ^^^ c) 63
    next a b c d

/-- The words of 128 bytes, with zeros for what is missing. -/
def words : Nat → List UInt8 → List UInt64
  | 0, _ => []
  | count + 1, bytes => UInt64.ofNat (ofLittleEndian (bytes.take 8)) :: words count (bytes.drop 8)

/-- Takes up one block of at most 128 bytes; `length` is the number of bytes taken up
with it, and `last` is set for the last block. -/
def compress (state : List UInt64) (block : List UInt8) (length : Nat) (last : Bool) : List UInt64 :=
  match state, iv with
  | [h0, h1, h2, h3, h4, h5, h6, h7], [i0, i1, i2, i3, i4, i5, i6, i7] =>
    let message := (words 16 block).toArray
    let row : Row := ⟨h0, h1, h2, h3, h4, h5, h6, h7, i0, i1, i2, i3,
      i4 ^^^ UInt64.ofNat length, i5, if last then ~~~i6 else i6, i7⟩
    let r := schedule.foldl (round message) row
    [h0 ^^^ r.w0 ^^^ r.w8, h1 ^^^ r.w1 ^^^ r.w9, h2 ^^^ r.w2 ^^^ r.w10, h3 ^^^ r.w3 ^^^ r.w11,
      h4 ^^^ r.w4 ^^^ r.w12, h5 ^^^ r.w5 ^^^ r.w13, h6 ^^^ r.w6 ^^^ r.w14, h7 ^^^ r.w7 ^^^ r.w15]
  | state, _ => state

/-- Takes up a text block by block; the fuel counts its blocks. -/
def absorb : Nat → List UInt64 → List UInt8 → Nat → List UInt64
  | 0, state, _, _ => state
  | fuel + 1, state, bytes, before =>
    if bytes.length ≤ 128 then compress state bytes (before + bytes.length) true
    else absorb fuel (compress state (bytes.take 128) (before + 128) false) (bytes.drop 128) (before + 128)

/-- The bytes of words, lowest first. -/
def bytesOf (words : List UInt64) : List UInt8 := words.flatMap fun w => littleEndian 8 w.toNat

/-- The hash of a text, of up to 64 bytes. -/
def hash (size : Nat) (text : List UInt8) : List UInt8 :=
  match iv with
  | h0 :: rest =>
    let start := (h0 ^^^ 0x01010000 ^^^ UInt64.ofNat size) :: rest
    (bytesOf (absorb (text.length / 128 + 1) start text 0)).take size
  | [] => []

/-- Further hashes, each of the one before, of which all but the last give 32 bytes. -/
def chain : Nat → Nat → List UInt8 → List UInt8
  | 0, _, _ => []
  | fuel + 1, left, previous =>
    if left ≤ 64 then hash left previous
    else
      let next := hash 64 previous
      next.take 32 ++ chain fuel (left - 32) next

/-- A hash of any length. -/
def longHash (size : Nat) (text : List UInt8) : List UInt8 :=
  let text := littleEndian 4 size ++ text
  if size ≤ 64 then hash size text
  else
    let first := hash 64 text
    first.take 32 ++ chain (size / 32 + 1) (size - 32) first

end Gatehouse.Credential.Blake2b
