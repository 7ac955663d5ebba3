import Gatehouse.History.Guard
import Gatehouse.History.Scripted
import Gatehouse.Proofs.Table
import Gatehouse.Proofs.Time.Order
import Mathlib.Data.List.Basic

/-! Histories in memory: what a store answers where nothing goes wrong, and what it holds.

Chance decides what is drawn for a new entry, and the order in which a user's entries are
listed (`Chance`); the rest of an answer is the store's (`answer`). Every entry stands
under its own identifier (`Keyed`). So of what a user has, a new entry is one more
(`held_put`), and an erased one is one less, and no other (`held_eraseAll`). However entries
are listed, they are sorted alike, if no two of them are of one age
(`oldestFirst_eq_of_perm`). -/
namespace Gatehouse.History

/-! ### The order of entries -/

namespace Entry
variable {a b : Entry}

/-- An entry was made before another: earlier, or at the same time with a smaller
identifier. -/
def Before (a b : Entry) : Prop :=
  a.createdAt < b.createdAt ∨ a.createdAt = b.createdAt ∧ a.id.value < b.id.value

instance (a b : Entry) : Decidable (a.Before b) := inferInstanceAs (Decidable (_ ∨ _))

theorem Before.asymm (h : a.Before b) : ¬b.Before a := by
  rintro (hba | ⟨hba, hid⟩) <;> rcases h with hab | ⟨hab, hid'⟩
  · exact lt_asymm hab hba
  · exact absurd hab (ne_of_gt hba)
  · exact absurd hba (ne_of_gt hab)
  · exact Nat.lt_asymm hid hid'

theorem notNewer_iff : a.notNewer b = true ↔
    a.createdAt < b.createdAt ∨ a.createdAt = b.createdAt ∧ a.id.value ≤ b.id.value := by
  simp [notNewer]

theorem notNewer_total (a b : Entry) : (a.notNewer b || b.notNewer a) = true := by
  rw [Bool.or_eq_true, notNewer_iff, notNewer_iff]
  rcases lt_trichotomy a.createdAt b.createdAt with h | h | h
  · exact .inl (.inl h)
  · exact (Nat.le_total a.id.value b.id.value).imp (.inr ⟨h, ·⟩) (.inr ⟨h.symm, ·⟩)
  · exact .inr (.inl h)

theorem notNewer_trans (a b c : Entry) (hab : a.notNewer b = true) (hbc : b.notNewer c = true) :
    a.notNewer c = true := by
  rw [notNewer_iff] at *
  rcases hab with hab | ⟨hab, hid⟩ <;> rcases hbc with hbc | ⟨hbc, hid'⟩
  · exact .inl (lt_trans hab hbc)
  · exact .inl (hbc ▸ hab)
  · exact .inl (hab ▸ hbc)
  · exact .inr ⟨hab.trans hbc, Nat.le_trans hid hid'⟩

/-- Of two entries of different age, one that is not newer was made before. -/
theorem before_of_notNewer (h : a.notNewer b = true) (hne : a.Before b ∨ b.Before a) :
    a.Before b := by
  rcases hne with hab | hba
  · exact hab
  · rw [notNewer_iff] at h
    rcases h with hlt | ⟨heq, hid⟩ <;> rcases hba with hlt' | ⟨heq', hid'⟩
    · exact .inl hlt
    · exact .inl hlt
    · exact absurd heq (ne_of_gt hlt')
    · exact absurd hid (Nat.not_le.mpr hid')

theorem oldestFirst_perm (l : List Entry) : (oldestFirst l).Perm l := List.mergeSort_perm l notNewer

theorem length_oldestFirst (l : List Entry) : (oldestFirst l).length = l.length :=
  (oldestFirst_perm l).length_eq

/-- However entries are listed, sorting finds the one order in which they were made. -/
theorem oldestFirst_eq_of_perm {l l' : List Entry} (h : l.Perm l') (hmade : l'.Pairwise Before) :
    oldestFirst l = l' := by
  have hperm : (oldestFirst l).Perm l' := (oldestFirst_perm l).trans h
  have hsorted : (oldestFirst l).Pairwise fun a b => a.notNewer b = true :=
    List.pairwise_mergeSort notNewer_trans notNewer_total l
  -- No two are of one age, in whatever order they stand.
  have hages : (oldestFirst l).Pairwise fun a b => a.Before b ∨ b.Before a :=
    (hperm.pairwise_iff Or.symm).mpr (hmade.imp .inl)
  refine hperm.eq_of_pairwise (fun a b _ _ hab hba => absurd hba hab.asymm) ?_ hmade
  exact (hsorted.and hages).imp fun h => before_of_notNewer h.1 h.2

end Entry

/-! ### Owners -/

/-- Whose a history is. -/
structure Owner where
  reference : Reference
  userId : String
  deriving DecidableEq, Repr

/-- Whose entry this is. -/
def Entry.owner (e : Entry) : Owner := ⟨e.reference, e.userId⟩

/-! ### Answers -/

/-- What chance decides: what is drawn for a new entry, and in which order a user's entries
are listed. -/
structure Chance where
  draw : Draw
  order : List Entry → List Entry
  order_perm : ∀ entries, (order entries).Perm entries

namespace Memory
variable {s : Memory} {x : Chance} {o : Owner} {e : Entry} {id : Uuid}

/-- Answers a request, where nothing goes wrong. -/
def answer (x : Chance) : (r : Request) → StateM Memory r.Answer
  | .list reference userId, s => (.ok (x.order (s.ofUser reference userId)), s)
  | .create e, s => s.create e
  | .delete id, s => (.ok (s.contains id), s.erase id)
  | .draw, s => (x.draw, s)

/-- Runs calls over a store in memory, where nothing goes wrong. -/
def run {α : Type} (s : Memory) (x : Chance) (calls : Calls α) : α × Memory :=
  Store.Program.run (answer x) calls s

theorem run_ask {α : Type} (s : Memory) (x : Chance) (r : Request) (next : r.Answer → Calls α) :
    s.run x (.ask r next) = (answer x r s).2.run x (next (answer x r s).1) := rfl

theorem run_bind {α β : Type} (s : Memory) (x : Chance) (calls : Calls α) (f : α → Calls β) :
    s.run x (calls.bind f) = (s.run x calls).2.run x (f (s.run x calls).1) := by
  show Store.Program.run (answer x) (calls.bind f) s = _
  rw [Store.Program.run_bind]
  rfl

/-! ### What a store holds -/

/-- Every entry stands under its own identifier. -/
def Keyed (s : Memory) : Prop := ∀ e ∈ s.entries.toList, e.2.id.toText = e.1

/-- The entries of a user. -/
def held (s : Memory) (o : Owner) : List Entry := s.entries.values.filter fun e => e.owner = o

theorem ofUser_eq (s : Memory) (o : Owner) :
    s.ofUser o.reference o.userId = Entry.oldestFirst (s.held o) := by
  refine congrArg Entry.oldestFirst (List.filter_congr fun e _ => ?_)
  obtain ⟨reference, userId⟩ := o
  simp only [Entry.owner, Owner.mk.injEq, Bool.decide_and]

theorem ofUser_perm (s : Memory) (o : Owner) : (s.ofUser o.reference o.userId).Perm (s.held o) := by
  rw [ofUser_eq]
  exact List.mergeSort_perm _ _

/-- A list of a user's entries has them all, in whatever order. -/
theorem listed_perm (s : Memory) (x : Chance) (o : Owner) :
    (x.order (s.ofUser o.reference o.userId)).Perm (s.held o) :=
  (x.order_perm _).trans (s.ofUser_perm o)

theorem sorted_perm (s : Memory) (x : Chance) (o : Owner) :
    (Entry.oldestFirst (x.order (s.ofUser o.reference o.userId))).Perm (s.held o) :=
  (List.mergeSort_perm _ Entry.notNewer).trans (s.listed_perm x o)

theorem keyed_empty : Keyed {} := fun _ h => by cases h

theorem Keyed.put (hs : s.Keyed) (e : Entry) : (s.put e).Keyed := by
  intro e' he
  rcases Table.mem_place he with rfl | he
  · rfl
  · exact hs e' he

theorem Keyed.erase (hs : s.Keyed) (id : Uuid) : (s.erase id).Keyed :=
  fun e he => hs e (List.mem_filter.mp he).1

/-- There is no entry of an identifier that none of those held has. -/
theorem Keyed.contains_eq_false (hs : s.Keyed)
    (h : ∀ o, ∀ e ∈ s.held o, e.id.toText ≠ id.toText) : s.contains id = false := by
  refine Table.contains_eq_false fun e he => ?_
  rw [← hs e he]
  refine h e.2.owner e.2 (List.mem_filter.mpr ⟨?_, decide_eq_true rfl⟩)
  exact List.mem_map.mpr ⟨e, he, rfl⟩

/-- A new entry is one more for its user, and nothing for others. -/
theorem held_put (h : s.contains e.id = false) (o : Owner) :
    ((s.put e).held o).Perm (if e.owner = o then e :: s.held o else s.held o) := by
  refine ((Table.values_insert h e).filter _).trans (List.Perm.of_eq ?_)
  rw [List.filter_cons]
  simp only [decide_eq_true_eq, held]

theorem Keyed.held_erase (hs : s.Keyed) (id : Uuid) (o : Owner) :
    (s.erase id).held o = (s.held o).filter fun e => e.id.toText != id.toText := by
  have hvalues : (s.erase id).entries.values =
      s.entries.values.filter fun e => e.id.toText != id.toText := by
    simp only [Table.values, List.filter_map]
    refine congrArg _ (List.filter_congr fun e he => ?_)
    rw [Function.comp_apply, hs e he]
  rw [held, hvalues, List.filter_comm]
  rfl

/-- Removes several entries. -/
def eraseAll (s : Memory) (ids : List Uuid) : Memory := ids.foldl erase s

theorem Keyed.eraseAll (hs : s.Keyed) (ids : List Uuid) : (s.eraseAll ids).Keyed := by
  induction ids generalizing s with
  | nil => exact hs
  | cons id rest ih => exact ih (hs.erase id)

/-- Removing entries takes them from their users, and nothing else. -/
theorem Keyed.held_eraseAll (hs : s.Keyed) (ids : List Uuid) (o : Owner) :
    (s.eraseAll ids).held o = (s.held o).filter fun e => e.id.toText ∉ ids.map Uuid.toText := by
  induction ids generalizing s with
  | nil => simp [Memory.eraseAll]
  | cons id rest ih =>
    show ((s.erase id).eraseAll rest).held o = _
    rw [ih (hs.erase id), hs.held_erase, List.filter_filter]
    refine List.filter_congr fun e _ => ?_
    simp only [List.map_cons, List.mem_cons, not_or, Bool.decide_and, bne, Bool.and_comm,
      decide_not, beq_eq_decide]

theorem run_deleteAll (s : Memory) (x : Chance) (ids : List Uuid) :
    s.run x (Guard.deleteAll ids) = (.ok (), s.eraseAll ids) := by
  induction ids generalizing s with
  | nil => rfl
  | cons id rest ih => exact ih (s.erase id)

end Memory

/-! ### The store under a script -/

namespace Scripted

/-- What chance decides under a script. -/
def chance (w : Scripted) : Chance where
  draw := drawOf w.next
  order := if w.newestFirst then List.reverse else id
  order_perm entries := by
    split
    · exact List.reverse_perm entries
    · exact List.Perm.refl entries

/-- Under a script without turns, every answer is that of a store where nothing goes wrong. -/
theorem answer_eq (w : Scripted) (h : w.script = .empty) (r : Request) :
    ∃ w', Scripted.answer r w = some ((Memory.answer w.chance r w.store).1, w') ∧
      w'.store = (Memory.answer w.chance r w.store).2 ∧ w'.script = .empty := by
  have hserve {α : Type} (w : Scripted) (h : w.script = .empty) (operation : Store.Operation)
      (id : Option Uuid) (call : StateM Memory (Except Store.Error α)) :
      ∃ w', serve operation id call w = some ((call w.store).1, w') ∧
        w'.store = (call w.store).2 ∧ w'.script = .empty := by
    simp only [serve, h]
    exact ⟨_, rfl, rfl, rfl⟩
  cases r with
  | list reference userId =>
    exact hserve w h .list none fun s => (.ok (w.chance.order (s.ofUser reference userId)), s)
  | create e =>
    exact hserve { w with created := e.id :: w.created } h .create none fun s => s.create e
  | delete id =>
    exact hserve w h .delete (some id) fun s => (.ok (s.contains id), s.erase id)
  | draw => exact ⟨_, rfl, rfl, h⟩

end Scripted

end Gatehouse.History
