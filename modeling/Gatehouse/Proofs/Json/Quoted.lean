import Gatehouse.Json.Quoted
import Gatehouse.Proofs.Text.Digits

/-! Quoted texts read back.

A character between quotes is one piece, however it is written: itself, a letter after a
backslash, or a numbered unit (`piece`). None of the units is half of a pair, since only
control characters are written so; hence every text, whatever its characters, is read back from
between its quotes (`read_write`). -/
namespace Gatehouse.Json.Quoted
open Text

/-! ### The pieces of what is written -/

/-- Whether a character is written by its number. -/
def Numbered (c : Char) : Prop :=
  c.toNat < 32 ∧ c.toNat ≠ 8 ∧ c.toNat ≠ 9 ∧ c.toNat ≠ 10 ∧ c.toNat ≠ 12 ∧ c.toNat ≠ 13

instance (c : Char) : Decidable (Numbered c) := inferInstanceAs (Decidable (_ ∧ _))

/-- The piece that a character between quotes is. -/
def piece (c : Char) : Piece := if Numbered c then .unit c.toNat else .scalar c

theorem unit?_digitChar {n : Nat} (h : n < 32) :
    unit? '0' '0' (digitChar (n / 16)) (digitChar (n % 16)) = some n := by
  have hzero : hexValue? '0' = some 0 := rfl
  have hhigh : hexValue? (digitChar (n / 16)) = some (n / 16) := hexValue?_digitChar (by omega)
  have hlow : hexValue? (digitChar (n % 16)) = some (n % 16) :=
    hexValue?_digitChar (Nat.mod_lt n (by decide))
  simp only [unit?, hzero, hhigh, hlow, Option.bind_eq_bind, Option.bind_some, Option.some.injEq]
  simp only [ofDigits, List.foldl_cons, List.foldl_nil]
  omega

/-- What is written with a letter after a backslash is that letter's character. -/
theorem pieces_letter {c l : Char} (h : letter? c = some l) (hu : c ≠ 'u') (k : List Char) :
    pieces ('\\' :: c :: k) = (.scalar l :: (pieces k).1, (pieces k).2) := by
  rw [pieces]
  · simp [h]
  · exact fun _ _ _ _ _ heq _ => hu heq
  · exact hu

/-- A character that needs no backslash is itself. -/
theorem pieces_plain {c : Char} (hquote : c ≠ '"') (hslash : c ≠ '\\') (hcontrol : ¬ c.toNat < 32)
    (k : List Char) : pieces (c :: k) = (.scalar c :: (pieces k).1, (pieces k).2) := by
  rw [pieces]
  · simp [hcontrol]
  all_goals simp_all

/-- Each character is one piece. -/
theorem pieces_escape (c : Char) (k : List Char) :
    pieces (escape c ++ k) = (piece c :: (pieces k).1, (pieces k).2) := by
  have hchar {n : Nat} (hn : c.toNat = n) (hvalid : n.isValidChar) : c = Char.ofNat n := by
    rw [← hn, Char.ofNat_toNat]
  unfold escape
  split
  · next h => subst h; exact pieces_letter rfl (by decide) k
  split
  · next h => subst h; exact pieces_letter rfl (by decide) k
  split
  · next h => cases hchar h (by decide); exact pieces_letter rfl (by decide) k
  split
  · next h => cases hchar h (by decide); exact pieces_letter rfl (by decide) k
  split
  · next h => cases hchar h (by decide); exact pieces_letter rfl (by decide) k
  split
  · next h => cases hchar h (by decide); exact pieces_letter rfl (by decide) k
  split
  · next h => cases hchar h (by decide); exact pieces_letter rfl (by decide) k
  split
  · next h8 h9 h10 h12 h13 hcontrol =>
    have hnumbered : Numbered c := ⟨hcontrol, h8, h9, h10, h12, h13⟩
    simp only [List.cons_append, List.nil_append, pieces, unit?_digitChar hcontrol]
    rw [piece, if_pos hnumbered]
  · next hquote hslash _ _ _ _ _ hcontrol =>
    rw [List.singleton_append, pieces_plain hquote hslash hcontrol, piece,
      if_neg fun h => hcontrol h.1]

theorem pieces_write (s k : List Char) :
    pieces (s.flatMap escape ++ '"' :: k) = (s.map piece, .closed k) := by
  induction s with
  | nil => rw [List.flatMap_nil, List.nil_append, pieces, List.map_nil]
  | cons c rest ih =>
    rw [List.flatMap_cons, List.append_assoc, pieces_escape, ih, List.map_cons]

/-! ### The characters of the pieces -/

/-- A unit that is no half of a pair stands for the character of its number. -/
theorem characters_unit {n : Nat} (h : n < 0xD800) (last : Fault) (ps : List Piece) :
    characters last (.unit n :: ps) = (characters last ps).map (Char.ofNat n :: ·) := by
  have hhigh : isHigh n = false := by
    rw [isHigh, decide_eq_false (Nat.not_le.mpr h), Bool.false_and]
  have hlow : isLow n = false := by
    rw [isLow, decide_eq_false (by omega), Bool.false_and]
  match ps with
  | [] => simp [characters, hhigh, hlow, Except.map]
  | .unit m :: rest => simp [characters, hhigh, hlow]
  | .scalar c :: rest => simp [characters, hhigh, hlow]

theorem characters_map_piece (last : Fault) (s : List Char) :
    characters last (s.map piece) = .ok s := by
  induction s with
  | nil => rfl
  | cons c rest ih =>
    rw [List.map_cons, piece]
    split
    · next h =>
      rw [characters_unit (Nat.lt_trans h.1 (by decide)), ih, Char.ofNat_toNat]
      rfl
    · rw [characters, ih]
      rfl

/-- A text is read back from between its quotes. -/
theorem read_write (s : String) (k : List Char) :
    read (s.toList.flatMap escape ++ '"' :: k) = (.ok s, .closed k) := by
  rw [read, pieces_write]
  simp [characters_map_piece, Except.map]

end Gatehouse.Json.Quoted
