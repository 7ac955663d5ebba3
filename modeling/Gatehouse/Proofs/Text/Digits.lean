import Gatehouse.Text.Blank
import Gatehouse.Text.Digits
import Mathlib.Algebra.Group.Nat.Defs
import Mathlib.Data.List.TakeDrop
import Mathlib.Data.List.TakeWhile

/-! Digits say the number they were written for.

Each way of writing a number ends with the digit of its remainder by ten, so what the digits
stand for is found by following how they were written (`ofDecimal_decimal`,
`ofDecimal_fixedDigits`). Digits are told from what stands behind them if that is no digit
(`spanDigits_append`). -/
namespace Gatehouse.Text

/-! ### One digit -/

/-- What a digit of a number below ten is. -/
theorem toNat_digitChar {d : Nat} (h : d < 10) : (digitChar d).toNat = 48 + d := by
  have hall : ∀ d : Fin 10, (digitChar d).toNat = 48 + d.val := by decide
  exact hall ⟨d, h⟩

theorem isDigit_digitChar {d : Nat} (h : d < 10) : isDigit (digitChar d) = true := by
  rw [isDigit, toNat_digitChar h, Bool.and_eq_true, decide_eq_true_eq, decide_eq_true_eq]
  omega

theorem digitValue_digitChar {d : Nat} (h : d < 10) : digitValue (digitChar d) = d := by
  rw [digitValue, toNat_digitChar h, Nat.add_sub_cancel_left]

theorem hexValue?_digitChar {d : Nat} (h : d < 16) : hexValue? (digitChar d) = some d := by
  have hall : ∀ d : Fin 16, hexValue? (digitChar d) = some d.val := by decide
  exact hall ⟨d, h⟩

/-- A digit is none of the characters that lie outside the digits. -/
theorem ne_of_isDigit {c d : Char} (hc : isDigit c = true) (hd : isDigit d = false) : c ≠ d :=
  fun h => Bool.false_ne_true (hd.symm.trans (h ▸ hc))

theorem isBlank_of_isDigit {c : Char} (h : isDigit c = true) : isBlank c = false := by
  rw [isDigit, Bool.and_eq_true, decide_eq_true_eq, decide_eq_true_eq] at h
  have hspace : (c == ' ') = false := by
    refine beq_eq_false_iff_ne.mpr fun heq => ?_
    subst heq
    exact absurd h.1 (by decide)
  have hwide : wideBlanks.contains c.toNat = false := by
    have hall : ∀ n ∈ wideBlanks, 57 < n := by decide
    rw [List.contains_eq_mem, decide_eq_false_iff_not]
    intro hmem
    exact absurd h.2 (Nat.not_le.mpr (hall _ hmem))
  have htab : decide (c.toNat ≤ 13) = false := decide_eq_false (by omega)
  rw [isBlank, hspace, hwide, htab, Bool.and_false]
  rfl

/-! ### Digits of a number -/

theorem ofDecimal_concat (s : List Char) {d : Nat} (h : d < 10) :
    ofDecimal (s ++ [digitChar d]) = ofDecimal s * 10 + d := by
  rw [ofDecimal, ofDecimal, ofDigits, List.map_append, List.foldl_append, List.map_singleton,
    digitValue_digitChar h]
  rfl

theorem ofDecimal_decimal (n : Nat) : ofDecimal (decimal n) = n := by
  fun_induction decimal n with
  | case1 n h => exact (ofDecimal_concat [] h).trans (Nat.zero_add n)
  | case2 n h ih =>
    rw [ofDecimal_concat _ (Nat.mod_lt n (by decide)), ih]
    omega

theorem all_isDigit_decimal (n : Nat) : (decimal n).all isDigit = true := by
  fun_induction decimal n with
  | case1 n h => simp [isDigit_digitChar h]
  | case2 n h ih => simp [ih, isDigit_digitChar (Nat.mod_lt n (by decide : 0 < 10))]

theorem decimal_ne_nil (n : Nat) : decimal n ≠ [] := by
  rw [decimal]
  split
  · exact List.cons_ne_nil _ _
  · exact List.concat_ne_nil _ _

/-- No digit follows a leading zero. -/
theorem eq_nil_of_decimal_eq_zero_cons {n : Nat} {s : List Char} (h : decimal n = '0' :: s) :
    s = [] := by
  fun_induction decimal n generalizing s with
  | case1 n hn => exact (List.cons.inj h).2.symm
  | case2 n hn ih =>
    -- The digits before the last are those of a number that is not zero.
    have hzero : decimal (n / 10) ≠ ['0'] := by
      intro heq
      have hvalue := ofDecimal_decimal (n / 10)
      rw [heq, show ofDecimal ['0'] = 0 from rfl] at hvalue
      omega
    cases hfirst : decimal (n / 10) with
    | nil => exact absurd hfirst (decimal_ne_nil _)
    | cons c rest =>
      rw [hfirst, List.cons_append] at h
      obtain ⟨rfl, rfl⟩ := List.cons.inj h
      exact absurd (hfirst.trans (congrArg _ (ih hfirst))) hzero

theorem ofDecimal_fixedDigits (width n : Nat) :
    ofDecimal (fixedDigits width n) = n % 10 ^ width := by
  induction width generalizing n with
  | zero => exact (Nat.mod_one n).symm
  | succ width ih =>
    rw [fixedDigits, ofDecimal_concat _ (Nat.mod_lt n (by decide)), ih, pow_succ', Nat.mod_mul]
    omega

theorem ofDecimal_fixedDigits_of_lt {width n : Nat} (h : n < 10 ^ width) :
    ofDecimal (fixedDigits width n) = n := by
  rw [ofDecimal_fixedDigits, Nat.mod_eq_of_lt h]

@[simp]
theorem length_fixedDigits (width n : Nat) : (fixedDigits width n).length = width := by
  induction width generalizing n with
  | zero => rfl
  | succ width ih => rw [fixedDigits, List.length_append, ih, List.length_singleton]

theorem all_isDigit_fixedDigits (width n : Nat) : (fixedDigits width n).all isDigit = true := by
  induction width generalizing n with
  | zero => rfl
  | succ width ih =>
    simp [fixedDigits, ih, isDigit_digitChar (Nat.mod_lt n (by decide : 0 < 10))]

theorem ofDecimal_paddedDecimal (width n : Nat) : ofDecimal (paddedDecimal width n) = n := by
  rw [paddedDecimal]
  split
  · next h => exact ofDecimal_fixedDigits_of_lt h
  · exact ofDecimal_decimal n

theorem all_isDigit_paddedDecimal (width n : Nat) :
    (paddedDecimal width n).all isDigit = true := by
  rw [paddedDecimal]
  split
  · exact all_isDigit_fixedDigits width n
  · exact all_isDigit_decimal n

theorem paddedDecimal_ne_nil {width : Nat} (h : 0 < width) (n : Nat) :
    paddedDecimal width n ≠ [] := by
  rw [paddedDecimal]
  split
  · exact List.ne_nil_of_length_pos (by rwa [length_fixedDigits])
  · exact decimal_ne_nil n

/-! ### Digits before other characters -/

/-- Digits end where what follows does not begin with one. -/
theorem spanDigits_append {s k : List Char} (hs : s.all isDigit = true)
    (hk : k.head?.any isDigit = false) : spanDigits (s ++ k) = (s, k) := by
  have hpos : ∀ c ∈ s, isDigit c = true := List.all_eq_true.mp hs
  rw [spanDigits, List.span_eq_takeWhile_dropWhile, List.takeWhile_append_of_pos hpos,
    List.dropWhile_append_of_pos hpos]
  cases k with
  | nil => simp
  | cons c rest =>
    have hc : isDigit c = false := hk
    rw [List.takeWhile_cons_of_neg (by simp [hc]), List.dropWhile_cons_of_neg (by simp [hc]),
      List.append_nil]

/-- Digits are not skipped as blanks are. -/
theorem skipBlanks_append_of_isDigit {s : List Char} (hs : s.all isDigit = true) (hne : s ≠ [])
    (k : List Char) : skipBlanks (s ++ k) = s ++ k := by
  obtain ⟨c, rest, rfl⟩ := List.exists_cons_of_ne_nil hne
  have hc : isBlank c = false := isBlank_of_isDigit (List.all_eq_true.mp hs c List.mem_cons_self)
  rw [skipBlanks, List.cons_append, List.dropWhile_cons_of_neg (by simp [hc])]

end Gatehouse.Text
