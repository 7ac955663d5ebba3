import Gatehouse.Counter.Key
import Mathlib.Logic.Function.Basic

/-! Storage keys tell counters apart.

A part of a storage key has no colon in it (`colon_not_mem_parts`), so the text splits at
its colons into the very parts it was joined from. Each part then reads back: a percent
sign in it always begins an escape, so that undoing the escapes gives the text that was
written (`unescape_escape`), and no text at all is written as a dash, which is left to
stand for an absent part (`escape_ne_dash`). So two keys with one storage key are one key
(`storageKey_inj`), whatever their parts are. -/
namespace Gatehouse

theorem ReferenceType.name_injective : Function.Injective ReferenceType.name := by
  intro a b h
  cases a <;> cases b <;> simp [name] at h ⊢

namespace Counter

theorem Kind.name_injective : Function.Injective Kind.name := by
  intro a b h
  cases a <;> cases b <;> simp [name] at h ⊢

namespace Key

/-! ### Reading a part back -/

/-- Undoes the escapes of a part. -/
def unescape : List Char → List Char
  | '%' :: '2' :: '5' :: rest => '%' :: unescape rest
  | '%' :: '3' :: 'A' :: rest => ':' :: unescape rest
  | '%' :: '2' :: 'D' :: rest => '-' :: unescape rest
  | c :: rest => c :: unescape rest
  | [] => []

theorem unescape_cons {c : Char} (hc : c ≠ '%') (rest : List Char) :
    unescape (c :: rest) = c :: unescape rest := by
  rw [unescape]
  all_goals
    intro _ h
    exact absurd h hc

/-- The escape of one character is undone, whatever comes after it. -/
theorem unescape_escapeChar (c : Char) (rest : List Char) :
    unescape (escapeChar c ++ rest) = c :: unescape rest := by
  unfold escapeChar
  split
  · next h => subst h; rfl
  · next hpercent =>
    split
    · next h => subst h; rfl
    · exact unescape_cons hpercent rest

theorem unescape_flatMap (s : List Char) : unescape (s.flatMap escapeChar) = s := by
  induction s with
  | nil => rfl
  | cons c rest ih => rw [List.flatMap_cons, unescape_escapeChar, ih]

theorem unescape_escape (s : List Char) : unescape (escape s) = s := by
  unfold escape
  split
  · next h => subst h; rfl
  · exact unescape_flatMap s

theorem escape_injective : Function.Injective escape :=
  Function.LeftInverse.injective unescape_escape

/-- No text is written as a dash: one that were would read back as a dash, and a dash is
written as an escape. -/
theorem escape_ne_dash (s : List Char) : escape s ≠ ['-'] := by
  intro h
  have hs : s = ['-'] := by
    rw [← unescape_escape s, h]
    rfl
  subst hs
  exact absurd h (by decide)

theorem escapeOption_injective : Function.Injective escapeOption := by
  intro a b h
  cases a with
  | none =>
    cases b with
    | none => rfl
    | some t => exact absurd h.symm (escape_ne_dash t.toList)
  | some s =>
    cases b with
    | none => exact absurd h (escape_ne_dash s.toList)
    | some t => exact congrArg some (String.toList_injective (escape_injective h))

/-! ### Parting the text -/

theorem colon_not_mem_escape (s : List Char) : ':' ∉ escape s := by
  unfold escape
  split
  · decide
  · rw [List.mem_flatMap]
    rintro ⟨c, _, hc⟩
    unfold escapeChar at hc
    split at hc
    · exact absurd hc (by decide)
    · split at hc
      · exact absurd hc (by decide)
      · next hcolon => exact hcolon (List.mem_singleton.mp hc).symm

theorem colon_not_mem_escapeOption (o : Option String) : ':' ∉ escapeOption o := by
  cases o with
  | none => decide
  | some s => exact colon_not_mem_escape s.toList

/-- No part of a storage key has a colon in it. -/
theorem colon_not_mem_parts (k : Key) : ∀ part ∈ k.parts, ':' ∉ part := by
  have hkind : ':' ∉ k.kind.name.toList := by cases k.kind <;> decide
  have htype : ':' ∉ k.criteria.reference.type.name.toList := by
    cases k.criteria.reference.type <;> decide
  simp only [parts, List.forall_mem_cons, List.not_mem_nil, false_imp_iff, implies_true, and_true]
  exact ⟨hkind, htype, colon_not_mem_escape _, colon_not_mem_escapeOption _,
    colon_not_mem_escapeOption _, colon_not_mem_escapeOption _, colon_not_mem_escape _⟩

/-- The parts are what lies between the colons of the storage key. -/
theorem splitOn_storageKey (k : Key) : k.storageKey.toList.splitOn ':' = k.parts := by
  rw [storageKey, String.toList_ofList]
  exact List.splitOn_intercalate ':' k.colon_not_mem_parts (List.cons_ne_nil _ _)

theorem parts_injective : Function.Injective parts := by
  intro a b h
  obtain ⟨akind, ⟨⟨atype, aid⟩, aclient, aprovider, afactor, asubject⟩⟩ := a
  obtain ⟨bkind, ⟨⟨btype, bid⟩, bclient, bprovider, bfactor, bsubject⟩⟩ := b
  simp only [parts, List.cons.injEq, and_true] at h
  obtain ⟨hkind, htype, hid, hclient, hprovider, hfactor, hsubject⟩ := h
  rw [Kind.name_injective (String.toList_injective hkind),
    ReferenceType.name_injective (String.toList_injective htype),
    String.toList_injective (escape_injective hid), escapeOption_injective hclient,
    escapeOption_injective hprovider, escapeOption_injective hfactor,
    String.toList_injective (escape_injective hsubject)]

/-- **Distinct keys never collide.** Two keys have one storage key only if they are the
same key: kind, owner, client, identity provider, factor and subject, each with its very
text, and absent where it is absent in the other. -/
theorem storageKey_inj {a b : Key} : a.storageKey = b.storageKey ↔ a = b := by
  refine ⟨fun h => parts_injective ?_, congrArg storageKey⟩
  rw [← splitOn_storageKey a, ← splitOn_storageKey b, h]

end Key

end Counter

end Gatehouse
