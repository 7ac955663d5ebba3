import Gatehouse.Uuid

/-! Identifiers are told apart by their texts.

An identifier of 128 bits has 32 digits, and the hyphens among them are no digits: the
digits are what is left when they are taken out (`filter_hyphenate`). So two identifiers
with one text are one (`toText_inj`). -/
namespace Gatehouse.Uuid

open Text

theorem digitChar_inj {a b : Nat} (ha : a < 16) (hb : b < 16) (h : digitChar a = digitChar b) :
    a = b := by
  have hall : ∀ a b : Fin 16, digitChar a = digitChar b → a = b := by decide
  exact congrArg Fin.val (hall ⟨a, ha⟩ ⟨b, hb⟩ h)

theorem digitChar_ne_hyphen {n : Nat} (h : n < 16) : digitChar n ≠ '-' := by
  have hall : ∀ n : Fin 16, digitChar n ≠ '-' := by decide
  exact hall ⟨n, h⟩

/-- Numbers of so many digits are told apart by them. -/
theorem hexDigits_inj {width a b : Nat} (ha : a < Nat.pow 16 width) (hb : b < Nat.pow 16 width)
    (h : hexDigits width a = hexDigits width b) : a = b := by
  induction width generalizing a b with
  | zero => exact (Nat.lt_one_iff.mp ha).trans (Nat.lt_one_iff.mp hb).symm
  | succ width ih =>
    obtain ⟨hhigh, hlow⟩ := List.append_inj' h rfl
    have hpow : Nat.pow 16 (width + 1) = 16 * Nat.pow 16 width := Nat.mul_comm _ _
    rw [hpow] at ha hb
    have hdiv := ih (Nat.div_lt_of_lt_mul ha) (Nat.div_lt_of_lt_mul hb) hhigh
    have hmod := digitChar_inj (Nat.mod_lt a (by decide)) (Nat.mod_lt b (by decide))
      (List.singleton_inj.mp hlow)
    omega

theorem length_hexDigits (width n : Nat) : (hexDigits width n).length = width := by
  induction width generalizing n with
  | zero => rfl
  | succ width ih => rw [hexDigits, List.length_append, ih, List.length_singleton]

theorem hyphen_notMem_hexDigits (width n : Nat) : '-' ∉ hexDigits width n := by
  induction width generalizing n with
  | zero => exact List.not_mem_nil
  | succ width ih =>
    rw [hexDigits, List.mem_append, not_or, List.mem_singleton]
    exact ⟨ih _, (digitChar_ne_hyphen (Nat.mod_lt n (by decide))).symm⟩

/-- What is left of a text in groups, when the hyphens are taken out. -/
theorem filter_hyphenate {s : List Char} (hs : '-' ∉ s) (groups : List Nat) :
    (hyphenate groups s).filter (· != '-') = s.take (groups.foldr (· + ·) 0) := by
  have hplain {s : List Char} (hs : '-' ∉ s) (n : Nat) : (s.take n).filter (· != '-') = s.take n :=
    List.filter_eq_self.mpr fun c hc =>
      bne_iff_ne.mpr fun h => hs (h ▸ List.mem_of_mem_take hc)
  induction groups generalizing s with
  | nil => rfl
  | cons n rest ih =>
    cases rest with
    | nil => exact hplain hs n
    | cons m rest =>
      have hdrop : '-' ∉ s.drop n := fun h => hs (List.mem_of_mem_drop h)
      show _ = s.take (n + (m :: rest).foldr (· + ·) 0)
      rw [hyphenate, List.filter_append, hplain hs, List.filter_cons, if_neg (by decide), ih hdrop,
        List.take_add]
      exact fun h => nomatch h

/-- Identifiers of 128 bits with one text are one. -/
theorem toText_inj {a b : Uuid} (ha : a.value < Nat.pow 2 128) (hb : b.value < Nat.pow 2 128)
    (h : a.toText = b.toText) : a = b := by
  have hdigits (n : Nat) :
      (hyphenate groups (hexDigits 32 n)).filter (· != '-') = hexDigits 32 n := by
    rw [filter_hyphenate (hyphen_notMem_hexDigits 32 n), List.take_of_length_le]
    exact Nat.le_of_eq (length_hexDigits 32 n)
  have hgroups := String.ofList_inj.mp h
  have hbits : Nat.pow 2 128 = Nat.pow 16 32 := by decide
  rw [hbits] at ha hb
  have hvalue : a.value = b.value := by
    apply hexDigits_inj ha hb
    rw [← hdigits a.value, hgroups, hdigits]
  cases a
  exact congrArg mk hvalue

end Gatehouse.Uuid
