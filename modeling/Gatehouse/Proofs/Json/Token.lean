import Gatehouse.Json.Printer
import Gatehouse.Json.Token
import Gatehouse.Proofs.Json.Quoted

/-! The tokens of a written value.

A value whose numbers are whole and fit 64 bits (`Json.Exact`) is written as the tokens that
its brackets, keys and leaves are (`Json.tokens`), and the text of a value is cut into just
these, whatever follows it that does not go on with its last number (`Json.lexes_write`). -/
namespace Gatehouse.Json
open Text

/-- Values that hold whole numbers of 64 bits alone. -/
inductive Exact : Json → Prop where
  | null : Exact null
  | bool (b : Bool) : Exact (bool b)
  | int {n : Int} (hlow : -Nat.pow 2 63 ≤ n) (hhigh : n < Nat.pow 2 64) : Exact (int n)
  | str (s : String) : Exact (str s)
  | arr {items : List Json} (h : ∀ v ∈ items, Exact v) : Exact (arr items)
  | obj {members : List (String × Json)} (h : ∀ e ∈ members, Exact e.2) : Exact (obj members)

mutual

/-- The tokens of a value. -/
def tokens : Json → List Token
  | .null => [.null]
  | .bool b => [.bool b]
  | .int n => [.int n]
  | .float x => [.float x]
  | .str s => [.str (.ok s)]
  | .arr [] => [.openArray, .closeArray]
  | .arr (v :: rest) => .openArray :: (v.tokens ++ itemTokens rest)
  | .obj [] => [.openObject, .closeObject]
  | .obj ((key, v) :: rest) =>
    .openObject :: .str (.ok key) :: .colon :: (v.tokens ++ memberTokens rest)

/-- The tokens of the further elements of an array and its end. -/
def itemTokens : List Json → List Token
  | [] => [.closeArray]
  | v :: rest => .comma :: (v.tokens ++ itemTokens rest)

/-- The tokens of the further members of an object and its end. -/
def memberTokens : List (String × Json) → List Token
  | [] => [.closeObject]
  | (key, v) :: rest => .comma :: .str (.ok key) :: .colon :: (v.tokens ++ memberTokens rest)

end

/-- A text that does not go on with a value: another element or member, a bracket, or the end. -/
def Ends (k : List Char) : Prop := ∀ c ∈ k.head?, c = ',' ∨ c = ']' ∨ c = '\x7d'

theorem Ends.nil : Ends [] := fun _ h => nomatch h

theorem Ends.writeItems (items : List Json) (k : List Char) : Ends (writeItems items k) := by
  cases items with
  | nil => simp [Json.writeItems, Ends]
  | cons v rest => simp [Json.writeItems, Ends]

theorem Ends.writeMembers (members : List (String × Json)) (k : List Char) :
    Ends (writeMembers members k) := by
  cases members with
  | nil => simp [Json.writeMembers, Ends]
  | cons e rest => simp [Json.writeMembers, Ends]

namespace Token

/-- A text begins with tokens, and goes on with those of another. -/
def Lexes (s : List Char) (ts : List Token) (k : List Char) : Prop :=
  ∀ fuel ≥ s.length, ∃ fuel' ≥ k.length, scan fuel s = ts ++ scan fuel' k

theorem Lexes.trans {s k k' : List Char} {ts ts' : List Token} (h : Lexes s ts k)
    (h' : Lexes k ts' k') : Lexes s (ts ++ ts') k' := by
  intro fuel hfuel
  obtain ⟨fuel', hfuel', heq⟩ := h fuel hfuel
  obtain ⟨fuel'', hfuel'', heq'⟩ := h' fuel' hfuel'
  exact ⟨fuel'', hfuel'', by rw [heq, heq', List.append_assoc]⟩

/-- A text that ends with its tokens. -/
theorem Lexes.ofText_eq {s : List Char} {ts : List Token} (h : Lexes s ts []) : ofText s = ts := by
  obtain ⟨fuel, -, heq⟩ := h s.length (Nat.le_refl _)
  have hend : scan fuel [] = [] := by cases fuel <;> rfl
  rw [ofText, heq, hend, List.append_nil]

theorem lexes_next {c : Char} {rest k : List Char} {t : Token} (hspace : isSpace c = false)
    (ht : ∀ strict lenient, t ≠ .junk strict lenient) (hnext : next c rest = (t, k))
    (hk : k.length ≤ rest.length) : Lexes (c :: rest) [t] k := by
  intro fuel hfuel
  cases fuel with
  | zero => exact absurd hfuel (Nat.not_succ_le_zero _)
  | succ fuel =>
    refine ⟨fuel, hk.trans (Nat.le_of_succ_le_succ hfuel), ?_⟩
    rw [scan, if_neg (by simp [hspace]), hnext]
    cases t <;> first | rfl | exact absurd rfl (ht _ _)

/-! ### Punctuation and words -/

theorem lexes_openArray (k : List Char) : Lexes ('[' :: k) [.openArray] k :=
  lexes_next rfl (fun _ _ => Token.noConfusion) rfl (Nat.le_refl _)

theorem lexes_closeArray (k : List Char) : Lexes (']' :: k) [.closeArray] k :=
  lexes_next rfl (fun _ _ => Token.noConfusion) rfl (Nat.le_refl _)

theorem lexes_openObject (k : List Char) : Lexes ('\x7b' :: k) [.openObject] k :=
  lexes_next rfl (fun _ _ => Token.noConfusion) rfl (Nat.le_refl _)

theorem lexes_closeObject (k : List Char) : Lexes ('\x7d' :: k) [.closeObject] k :=
  lexes_next rfl (fun _ _ => Token.noConfusion) rfl (Nat.le_refl _)

theorem lexes_comma (k : List Char) : Lexes (',' :: k) [.comma] k :=
  lexes_next rfl (fun _ _ => Token.noConfusion) rfl (Nat.le_refl _)

theorem lexes_colon (k : List Char) : Lexes (':' :: k) [.colon] k :=
  lexes_next rfl (fun _ _ => Token.noConfusion) rfl (Nat.le_refl _)

theorem lexes_null (k : List Char) : Lexes ('n' :: 'u' :: 'l' :: 'l' :: k) [.null] k :=
  lexes_next rfl (fun _ _ => Token.noConfusion) rfl (Nat.le_add_right k.length 3)

theorem lexes_true (k : List Char) : Lexes ('t' :: 'r' :: 'u' :: 'e' :: k) [.bool true] k :=
  lexes_next rfl (fun _ _ => Token.noConfusion) rfl (Nat.le_add_right k.length 3)

theorem lexes_false (k : List Char) :
    Lexes ('f' :: 'a' :: 'l' :: 's' :: 'e' :: k) [.bool false] k :=
  lexes_next rfl (fun _ _ => Token.noConfusion) rfl (Nat.le_add_right k.length 4)

/-! ### Texts and numbers -/

theorem lexes_quoted (s : String) (k : List Char) :
    Lexes (Quoted.write s.toList ++ k) [.str (.ok s)] k := by
  rw [Quoted.write, List.cons_append, List.cons_append, List.append_assoc]
  refine lexes_next rfl (fun _ _ => Token.noConfusion) ?_ ?_
  · simp only [next, List.singleton_append, Quoted.read_write]
    rfl
  · rw [List.length_append, List.length_append]
    omega

theorem numeral_decimal (negative : Bool) (n : Nat) {k : List Char} (hk : Ends k) :
    numeral negative (decimal n ++ k) = .ok (⟨negative, decimal n, [], none⟩, k) := by
  have hdigits : spanDigits (decimal n ++ k) = (decimal n, k) := by
    refine spanDigits_append (all_isDigit_decimal n) ?_
    cases k with
    | nil => rfl
    | cons c rest => rcases hk c rfl with rfl | rfl | rfl <;> rfl
  have hfraction : fraction k = .ok ([], k) := by
    cases k with
    | nil => rfl
    | cons c rest => rcases hk c rfl with rfl | rfl | rfl <;> rfl
  have hexponent : exponent k = .ok (none, k) := by
    cases k with
    | nil => rfl
    | cons c rest => rcases hk c rfl with rfl | rfl | rfl <;> rfl
  simp only [numeral, hdigits]
  split
  · next h => exact absurd h (decimal_ne_nil n)
  · next h => exact absurd (eq_nil_of_decimal_eq_zero_cons h) (List.cons_ne_nil _ _)
  · rw [hfraction]
    simp only [bind, Except.bind, hexponent]
    rfl

theorem lexes_int {n : Int} (hlow : -Nat.pow 2 63 ≤ n) (hhigh : n < Nat.pow 2 64) {k : List Char}
    (hk : Ends k) : Lexes (signedDecimal n ++ k) [.int n] k := by
  rw [signedDecimal]
  split
  · next hneg =>
    refine lexes_next rfl (fun _ _ => Token.noConfusion) ?_ ?_
    · show number true (decimal n.natAbs ++ k) = _
      rw [number, numeral_decimal true _ hk]
      have hsize : 0 < n.natAbs ∧ n.natAbs ≤ Nat.pow 2 63 := by omega
      simp only [ofNumeral, ofDecimal_decimal, List.isEmpty_nil, Option.isNone_none, Bool.and_true,
        Bool.not_true, Bool.and_false, Bool.false_and, hsize.1, hsize.2, decide_true, if_true]
      rw [if_neg Bool.false_ne_true, Int.ofNat_natAbs_of_nonpos (Int.le_of_lt hneg), Int.neg_neg]
    · show k.length ≤ (decimal n.natAbs ++ k).length
      rw [List.length_append]
      omega
  · next hneg =>
    obtain ⟨c, rest, hdigits⟩ := List.exists_cons_of_ne_nil (decimal_ne_nil n.natAbs)
    have hc : isDigit c = true := by
      have hall := all_isDigit_decimal n.natAbs
      rw [hdigits] at hall
      exact List.all_eq_true.mp hall c List.mem_cons_self
    have hnext : next c (rest ++ k) = number false (c :: (rest ++ k)) := by
      simp only [next, hc, if_true]
      repeat rw [if_neg (ne_of_isDigit hc rfl)]
    have hspace : isSpace c = false := by
      simp [isSpace, ne_of_isDigit hc (d := ' ') rfl, ne_of_isDigit hc (d := '\n') rfl,
        ne_of_isDigit hc (d := '\t') rfl, ne_of_isDigit hc (d := '\r') rfl]
    rw [hdigits, List.cons_append]
    refine lexes_next hspace (fun _ _ => Token.noConfusion) ?_ ?_
    · rw [hnext, ← List.cons_append, ← hdigits, number, numeral_decimal false _ hk]
      have hsize : n.natAbs < Nat.pow 2 64 := by omega
      simp only [ofNumeral, ofDecimal_decimal, List.isEmpty_nil, Option.isNone_none, Bool.and_true,
        Bool.not_false, hsize, decide_true, if_true]
      rw [Int.natAbs_of_nonneg (Int.not_lt.mp hneg)]
    · rw [List.length_append]
      omega

end Token

/-! ### Whole values -/

open Token

/-- The further elements of an array, if the elements are cut as they should be. -/
theorem lexes_writeItems {items : List Json}
    (h : ∀ v ∈ items, ∀ k, Ends k → Lexes (v.write k) v.tokens k) (k : List Char) :
    Lexes (writeItems items k) (itemTokens items) k := by
  induction items with
  | nil => exact lexes_closeArray k
  | cons v rest ih =>
    obtain ⟨hv, hrest⟩ := List.forall_mem_cons.mp h
    have hitem := (hv _ (Ends.writeItems rest k)).trans (ih hrest)
    exact (lexes_comma _).trans hitem

/-- A member, before what follows it. -/
theorem lexes_member {v : Json} {k : List Char} (h : Lexes (v.write k) v.tokens k)
    (key : String) :
    Lexes (Quoted.write key.toList ++ ':' :: v.write k) (.str (.ok key) :: .colon :: v.tokens) k :=
  (lexes_quoted key _).trans ((lexes_colon _).trans h)

/-- The further members of an object, if their values are cut as they should be. -/
theorem lexes_writeMembers {members : List (String × Json)}
    (h : ∀ e ∈ members, ∀ k, Ends k → Lexes (e.2.write k) e.2.tokens k) (k : List Char) :
    Lexes (writeMembers members k) (memberTokens members) k := by
  induction members with
  | nil => exact lexes_closeObject k
  | cons e rest ih =>
    obtain ⟨hv, hrest⟩ := List.forall_mem_cons.mp h
    have hmember := (lexes_member (hv _ (Ends.writeMembers rest k)) e.1).trans (ih hrest)
    exact (lexes_comma _).trans hmember

/-- A value is written as its tokens. -/
theorem lexes_write {v : Json} (hv : Exact v) {k : List Char} (hk : Ends k) :
    Lexes (v.write k) v.tokens k := by
  induction hv generalizing k with
  | null => exact lexes_null k
  | bool b =>
    cases b with
    | true => exact lexes_true k
    | false => exact lexes_false k
  | int hlow hhigh => exact lexes_int hlow hhigh hk
  | str s => exact lexes_quoted s k
  | @arr items h ih =>
    cases items with
    | nil => exact (lexes_openArray _).trans (lexes_closeArray k)
    | cons v rest =>
      obtain ⟨hv, hrest⟩ := List.forall_mem_cons.mp ih
      have hitems := lexes_writeItems (fun w hw k hk => hrest w hw hk) k
      exact (lexes_openArray _).trans ((hv (Ends.writeItems rest k)).trans hitems)
  | @obj members h ih =>
    cases members with
    | nil => exact (lexes_openObject _).trans (lexes_closeObject k)
    | cons e rest =>
      obtain ⟨hv, hrest⟩ := List.forall_mem_cons.mp ih
      have hmembers := lexes_writeMembers (fun w hw k hk => hrest w hw hk) k
      have hmember := lexes_member (hv (Ends.writeMembers rest k)) e.1
      exact (lexes_openObject _).trans (hmember.trans hmembers)

/-- The tokens of a value's text. -/
theorem ofText_toText {v : Json} (hv : Exact v) : Token.ofText v.toText.toList = v.tokens := by
  rw [toText, String.toList_ofList]
  exact (lexes_write hv Ends.nil).ofText_eq

end Gatehouse.Json
