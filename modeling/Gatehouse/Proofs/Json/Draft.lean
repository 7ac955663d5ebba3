import Gatehouse.Json.Codec
import Gatehouse.Proofs.Json.Token

/-! Values read back from their tokens.

The draft of a value's tokens is the value, whatever tokens follow (`Draft.value_tokens`): each
step down takes at least one token, so the fuel lasts. Hence a codec reads from the text of a
value what it reads from the value itself (`Codec.ofText_toText`), and a text adds no way to
fail but the way it was written. -/
namespace Gatehouse.Json

/-- What holds of leaves, and of arrays and objects whose elements and members it holds of,
holds of every value. -/
@[elab_as_elim]
theorem induction {P : Json → Prop} (null : P null) (bool : ∀ b, P (bool b)) (int : ∀ n, P (int n))
    (float : ∀ x, P (float x)) (str : ∀ s, P (str s))
    (arr : ∀ items, (∀ v ∈ items, P v) → P (arr items))
    (obj : ∀ members, (∀ e ∈ members, P e.2) → P (obj members)) (v : Json) : P v :=
  @Json.rec P (fun items => ∀ v ∈ items, P v) (fun members => ∀ e ∈ members, P e.2)
    (fun e => P e.2) null bool int float str arr obj (fun _ h => nomatch h)
    (fun _ _ hv hrest => List.forall_mem_cons.mpr ⟨hv, hrest⟩) (fun _ h => nomatch h)
    (fun _ _ hv hrest => List.forall_mem_cons.mpr ⟨hv, hrest⟩) (fun _ _ hv => hv) v

/-- A value begins with a token of its own, which closes nothing. -/
theorem exists_tokens_eq_cons (v : Json) :
    ∃ t ts, v.tokens = t :: ts ∧ t ≠ .closeArray := by
  cases v with
  | arr items => cases items <;> exact ⟨_, _, rfl, Token.noConfusion⟩
  | obj members => cases members <;> exact ⟨_, _, rfl, Token.noConfusion⟩
  | _ => exact ⟨_, _, rfl, Token.noConfusion⟩

theorem length_tokens_pos (v : Json) : 0 < v.tokens.length := by
  obtain ⟨t, ts, heq, -⟩ := exists_tokens_eq_cons v
  rw [heq]
  exact Nat.succ_pos _

theorem length_itemTokens_pos (items : List Json) : 0 < (itemTokens items).length := by
  cases items <;> exact Nat.succ_pos _

namespace Draft

@[simp]
theorem breaksOff_ofJson (v : Json) : (ofJson v).breaksOff = false := by
  cases v <;> rfl

/-! ### From tokens -/

/-- What is to be shown of a value: its tokens are read back, if there is fuel for each. -/
def ReadsBack (v : Json) : Prop :=
  ∀ fuel ts, 2 * v.tokens.length ≤ fuel + 1 → value fuel (v.tokens ++ ts) = (ofJson v, ts)

/-- The elements of an array from one on. -/
theorem elements_tokens {v : Json} {rest : List Json} (h : ∀ w ∈ v :: rest, ReadsBack w)
    (fuel : Nat) (ts : List Token)
    (hfuel : 2 * (v.tokens.length + (itemTokens rest).length) ≤ fuel) :
    elements fuel (v.tokens ++ (itemTokens rest ++ ts)) = (ofItems (v :: rest), .closed, ts) := by
  induction rest generalizing v fuel with
  | nil =>
    obtain ⟨fuel, rfl⟩ : ∃ f, fuel = f + 1 := ⟨fuel - 1, by
      have := length_itemTokens_pos []
      omega⟩
    have hvalue := h v List.mem_cons_self fuel (itemTokens [] ++ ts) (by
      have := length_itemTokens_pos []
      omega)
    rw [elements, hvalue]
    simp only [breaksOff_ofJson, Bool.false_eq_true, if_false]
    rfl
  | cons w rest ih =>
    simp only [itemTokens, List.length_cons, List.length_append] at hfuel
    obtain ⟨fuel, rfl⟩ : ∃ f, fuel = f + 1 := ⟨fuel - 1, by omega⟩
    have hvalue := h v List.mem_cons_self fuel (itemTokens (w :: rest) ++ ts) (by omega)
    have hrest := ih (v := w) (fun x hx => h x (List.mem_cons_of_mem v hx)) fuel
      (by omega)
    -- The comma is followed by an element, not by the end.
    obtain ⟨t, ts', heq, hne⟩ := exists_tokens_eq_cons w
    rw [elements, hvalue]
    simp only [breaksOff_ofJson, Bool.false_eq_true, if_false, itemTokens, List.cons_append,
      List.append_assoc]
    rw [heq, List.cons_append] at hrest ⊢
    split
    · next h => cases h
    · next h => cases h
    · next h => exact absurd (List.cons.inj (List.cons.inj h).2).1 hne
    · next h =>
      cases h
      rw [hrest]
      rfl
    · next hcomma => exact absurd rfl (hcomma _)

/-- The members of an object from one on, of which the key has been read. -/
theorem fields_tokens (key : String) (v : Json) {rest : List (String × Json)}
    (h : ∀ e ∈ (key, v) :: rest, ReadsBack e.2) (fuel : Nat) (ts : List Token)
    (hfuel : 2 * (v.tokens.length + (memberTokens rest).length) + 1 ≤ fuel) :
    fields fuel (.ok key) (.colon :: (v.tokens ++ (memberTokens rest ++ ts))) =
      (ofMembers ((key, v) :: rest), .closed, ts) := by
  induction rest generalizing key v fuel with
  | nil =>
    obtain ⟨fuel, rfl⟩ : ∃ f, fuel = f + 1 := ⟨fuel - 1, by omega⟩
    have hvalue := h (key, v) List.mem_cons_self fuel (memberTokens [] ++ ts) (by
      show 2 * v.tokens.length ≤ fuel + 1
      omega)
    rw [fields]
    simp only [hvalue, breaksOff_ofJson, Bool.false_eq_true, if_false]
    rfl
  | cons e rest ih =>
    obtain ⟨key', w⟩ := e
    simp only [memberTokens, List.length_cons, List.length_append] at hfuel
    obtain ⟨fuel, rfl⟩ : ∃ f, fuel = f + 1 := ⟨fuel - 1, by omega⟩
    have hvalue := h (key, v) List.mem_cons_self fuel (memberTokens ((key', w) :: rest) ++ ts) (by
      show 2 * v.tokens.length ≤ fuel + 1
      omega)
    simp only [memberTokens, List.cons_append, List.append_assoc] at hvalue
    have hrest := ih key' w (fun x hx => h x (List.mem_cons_of_mem _ hx)) fuel
      (by omega)
    rw [fields]
    simp only [hvalue, breaksOff_ofJson, Bool.false_eq_true, if_false, memberTokens,
      List.cons_append, List.append_assoc, hrest]
    rfl

/-- The draft of a value's tokens is the value. -/
theorem value_tokens (v : Json) : ReadsBack v := by
  induction v using Json.induction with
  | arr items ih =>
    intro fuel ts hfuel
    obtain ⟨fuel, rfl⟩ : ∃ f, fuel = f + 1 := ⟨fuel - 1, by
      have := length_tokens_pos (.arr items)
      omega⟩
    cases items with
    | nil => rfl
    | cons v rest =>
      simp only [tokens, List.length_cons, List.length_append] at hfuel
      have hitems := elements_tokens ih fuel ts (by omega)
      obtain ⟨t, ts', heq, hne⟩ := exists_tokens_eq_cons v
      simp only [tokens, List.cons_append, List.append_assoc]
      rw [heq, List.cons_append] at hitems ⊢
      rw [value]
      · rw [hitems]
        rfl
      · intro rest' h
        exact hne (List.cons.inj h).1
  | obj members ih =>
    intro fuel ts hfuel
    obtain ⟨fuel, rfl⟩ : ∃ f, fuel = f + 1 := ⟨fuel - 1, by
      have := length_tokens_pos (.obj members)
      omega⟩
    cases members with
    | nil => rfl
    | cons e rest =>
      obtain ⟨key, v⟩ := e
      simp only [tokens, List.length_cons, List.length_append] at hfuel
      have hfields := fields_tokens key v ih fuel ts (by omega)
      simp only [tokens, List.cons_append, List.append_assoc, value, hfields]
      rfl
  | _ =>
    intro fuel ts hfuel
    cases fuel with
    | zero => exact absurd (show 2 * 1 ≤ 0 + 1 from hfuel) (by decide)
    | succ fuel => rfl

theorem ofTokens_tokens (v : Json) : ofTokens v.tokens = (ofJson v, []) := by
  have h := value_tokens v (2 * v.tokens.length + 1) [] (by omega)
  rwa [List.append_nil] at h

end Draft

/-- A codec reads from the text of a value what it reads from the value. -/
theorem Codec.ofText_toText {α : Type} (c : Codec α) {v : Json} (hv : Exact v) :
    c.ofText v.toText = c.ofJson v := by
  rw [Codec.ofText, Json.ofText_toText hv, Draft.ofTokens_tokens, Codec.ofJson]
  simp only [List.isEmpty_nil, if_true]
  cases c.read .text levels (Draft.ofJson v) <;> rfl

end Gatehouse.Json
