import Gatehouse.Table

/-! Tables in order.

A table that was built by putting entries has them in ascending order of their keys
(`Ordered`), hence one at most under each key. So a key answers, after entries were sorted
out, with what it had, if that passes the test (`find?_keep`). The values of a table,
taken together, are one more after one is put under a new key (`values_insert`). -/
namespace Gatehouse.Table
variable {α : Type}

/-- Entries stand in ascending order of their keys. -/
def Ordered (t : Table α) : Prop := t.toList.Pairwise (·.1 < ·.1)

theorem ordered_empty : (empty : Table α).Ordered := List.Pairwise.nil

theorem place_pairwise {key : String} {value : α} {l : List (String × α)}
    (h : l.Pairwise (·.1 < ·.1)) : (place key value l).Pairwise (·.1 < ·.1) := by
  induction l with
  | nil => exact List.pairwise_singleton _ _
  | cons e rest ih =>
    obtain ⟨k, v⟩ := e
    obtain ⟨hhead, hrest⟩ := List.pairwise_cons.mp h
    simp only [place]
    split
    · next hk =>
      subst hk
      exact List.pairwise_cons.mpr ⟨hhead, hrest⟩
    · next hk =>
      split
      · next hlt =>
        refine List.pairwise_cons.mpr ⟨fun e he => ?_, h⟩
        rcases List.mem_cons.mp he with rfl | he
        · exact hlt
        · exact String.lt_trans hlt (hhead e he)
      · next hlt =>
        have hgt : k < key := by
          apply Decidable.byContradiction
          intro hnot
          exact hk (String.le_antisymm (String.not_lt.mp hlt) (String.not_lt.mp hnot))
        refine List.pairwise_cons.mpr ⟨fun e he => ?_, ih hrest⟩
        rcases mem_place he with rfl | he
        · exact hgt
        · exact hhead e he

/-- An entry whose key comes after all others is put at the end. -/
theorem place_of_forall_lt {key : String} (value : α) {l : List (String × α)}
    (h : ∀ e ∈ l, e.1 < key) : place key value l = l ++ [(key, value)] := by
  induction l with
  | nil => rfl
  | cons e rest ih =>
    obtain ⟨hhead, hrest⟩ := List.forall_mem_cons.mp h
    rw [place, if_neg (String.ne_of_lt hhead), if_neg (String.lt_asymm hhead), ih hrest,
      List.cons_append]

theorem Ordered.insert {t : Table α} (h : t.Ordered) (key : String) (value : α) :
    (t.insert key value).Ordered := place_pairwise h

theorem Ordered.erase {t : Table α} (h : t.Ordered) (key : String) : (t.erase key).Ordered :=
  h.sublist List.filter_sublist

theorem Ordered.keep {t : Table α} (h : t.Ordered) (test : α → Bool) : (t.keep test).Ordered :=
  h.sublist List.filter_sublist

/-- A key answers with what it had, if that is kept. -/
theorem Ordered.find?_keep {t : Table α} (h : t.Ordered) (test : α → Bool) (key : String) :
    (t.keep test).find? key = (t.find? key).filter test := by
  obtain ⟨l⟩ := t
  have hl : l.Pairwise (·.1 < ·.1) := h
  clear h
  show ((l.filter fun e => test e.2).find? (·.1 == key)).map (·.2) =
    ((l.find? (·.1 == key)).map (·.2)).filter test
  induction l with
  | nil => rfl
  | cons e rest ih =>
    obtain ⟨k, v⟩ := e
    obtain ⟨hhead, hrest⟩ := List.pairwise_cons.mp hl
    by_cases hk : k = key
    · subst hk
      cases hv : test v with
      | true => simp [hv, Option.filter]
      | false =>
        -- No entry further on has the key again.
        have hnone : rest.find? (·.1 == k) = none := by
          rw [List.find?_eq_none]
          intro e he heq
          have hlt := hhead e he
          rw [eq_of_beq heq] at hlt
          exact String.lt_irrefl _ hlt
        have hkept : (rest.filter fun e => test e.2).find? (·.1 == k) = none := by
          rw [List.find?_eq_none] at hnone ⊢
          exact fun e he => hnone e (List.mem_filter.mp he).1
        simp [hv, hkept, Option.filter]
    · have hk' : (k == key) = false := beq_eq_false_iff_ne.mpr hk
      cases hv : test v with
      | true => simpa [hv, hk'] using ih hrest
      | false => simpa [hv, hk'] using ih hrest

/-- Entries in order whose values have a property. -/
structure Each (P : α → Prop) (t : Table α) : Prop where
  ordered : t.Ordered
  values : ∀ e ∈ t.toList, P e.2

theorem each_empty (P : α → Prop) : (empty : Table α).Each P :=
  ⟨ordered_empty, fun _ h => nomatch h⟩

theorem Each.insert {P : α → Prop} {t : Table α} (h : t.Each P) (key : String) {value : α}
    (hvalue : P value) : (t.insert key value).Each P where
  ordered := h.ordered.insert key value
  values e he := by
    rcases mem_place he with rfl | he
    · exact hvalue
    · exact h.values e he

/-- What a key answers with is one of the entries. -/
theorem mem_of_find? {t : Table α} {key : String} {value : α} (h : t.find? key = some value) :
    (key, value) ∈ t.toList := by
  obtain ⟨⟨k, v⟩, he, rfl⟩ := Option.map_eq_some_iff.mp h
  have hkey : k = key := by simpa using List.find?_some he
  subst hkey
  exact List.mem_of_find?_eq_some he

/-! ### A function of every value -/

theorem find?_mapValues {β : Type} (t : Table α) (f : α → β) (key : String) :
    (t.mapValues f).find? key = (t.find? key).map f := by
  simp only [find?, mapValues, List.find?_map, Option.map_map, Function.comp_def]

theorem Ordered.mapValues {β : Type} {t : Table α} (h : t.Ordered) (f : α → β) :
    (t.mapValues f).Ordered := List.Pairwise.map _ (fun _ _ hlt => hlt) h

/-! ### Values taken together -/

theorem contains_eq_false {t : Table α} {key : String} (h : ∀ e ∈ t.toList, e.1 ≠ key) :
    t.contains key = false := by
  have hnone : t.toList.find? (·.1 == key) = none :=
    List.find?_eq_none.mpr fun e he => by simpa using h e he
  rw [contains, find?, hnone]
  rfl

theorem ne_of_contains_eq_false {t : Table α} {key : String} (h : t.contains key = false) :
    ∀ e ∈ t.toList, e.1 ≠ key := by
  simpa [contains, find?] using h

theorem place_perm {key : String} (value : α) {l : List (String × α)} (h : ∀ e ∈ l, e.1 ≠ key) :
    (place key value l).Perm ((key, value) :: l) := by
  induction l with
  | nil => exact List.Perm.refl _
  | cons e rest ih =>
    obtain ⟨k, v⟩ := e
    obtain ⟨hk, hrest⟩ := List.forall_mem_cons.mp h
    rw [place, if_neg hk]
    split
    · exact List.Perm.refl _
    · exact ((ih hrest).cons _).trans (List.Perm.swap _ _ _)

theorem values_insert {t : Table α} {key : String} (h : t.contains key = false) (value : α) :
    (t.insert key value).values.Perm (value :: t.values) :=
  (place_perm value (ne_of_contains_eq_false h)).map _

end Gatehouse.Table
