import Gatehouse.Proofs.History.FailedChange
import Gatehouse.Proofs.History.LastPasswords

/-! What makes room for an accepted password.

A user may have any number of entries, also more than are to be remembered, where that number
was lowered. `add_keeps_newest` says what is left when one more password is accepted: its entry,
and of the older ones the newest, one fewer than are remembered (`Newest`). In which order the
store lists entries does not matter, nor what other users have, and theirs stay as they are. -/
namespace Gatehouse.History

open Credential (Comparator)

/-- Of some entries, `kept` are the newest, and `n` of them if there are so many. -/
structure Newest (n : Nat) (entries kept : List Entry) : Prop where
  length_eq : kept.length = min entries.length n
  /-- Each of the others was made before each of those kept. -/
  others : ∃ gone, entries.Perm (kept ++ gone) ∧ ∀ g ∈ gone, ∀ k ∈ kept, g.Before k

/-- Of entries in order the last are the newest. -/
theorem newest_drop {l : List Entry} {n : Nat} (hn : 1 ≤ n) (h : l.Pairwise Entry.Before) :
    Newest (n - 1) l (l.drop (l.length + 1 - n)) where
  length_eq := by
    rw [List.length_drop]
    omega
  others := by
    refine ⟨l.take (l.length + 1 - n), ?_, ?_⟩
    · rw [← List.perm_append_comm.congr_right, List.take_append_drop]
    · rw [← List.take_append_drop (l.length + 1 - n) l, List.pairwise_append] at h
      exact h.2.2

theorem Newest.perm {n : Nat} {entries entries' kept : List Entry} (h : Newest n entries kept)
    (hperm : entries.Perm entries') : Newest n entries' kept where
  length_eq := by rw [h.length_eq, hperm.length_eq]
  others := by
    obtain ⟨gone, hgone, hbefore⟩ := h.others
    exact ⟨gone, hperm.symm.trans hgone, hbefore⟩

section Added
variable {s : PasswordHistorySettings} {c : Comparator} {o : Owner} {password : String}
  {now : Instant} {x : Chance} {store store' : Memory} {e : Entry}

/-- The entry that is made of a password. -/
def MadeOf (c : Comparator) (o : Owner) (password : String) (now : Instant) (draw : Draw)
    (e : Entry) : Prop :=
  ∃ encoded, c.encode draw.salt password = .ok encoded ∧
    e = ⟨draw.id, o.reference, o.userId, encoded, now⟩

theorem MadeOf.owner_eq {draw : Draw} (h : MadeOf c o password now draw e) : e.owner = o := by
  obtain ⟨encoded, -, rfl⟩ := h
  rfl

/-- The identifiers of a user's oldest entries, which make room for one more. -/
def makingRoom (s : PasswordHistorySettings) (store : Memory) (o : Owner) : List Uuid :=
  ((Entry.oldestFirst (store.held o)).take (Guard.excess s (store.held o).length)).map (·.id)

theorem run_store_ok
    (h : store.run x (Guard.store c o.reference o.userId password now) = (.ok e, store')) :
    MadeOf c o password now x.draw e ∧ store.contains e.id = false ∧ store' = store.put e := by
  rw [run_store] at h
  cases hencode : c.encode x.draw.salt password with
  | error f =>
    rw [hencode] at h
    cases h
  | ok encoded =>
    simp only [hencode, Memory.create] at h
    split at h
    · cases h
    · next hfree =>
      cases h
      exact ⟨⟨encoded, hencode, rfl⟩, Bool.eq_false_iff.mpr hfree, rfl⟩

/-- A password is accepted once the user's oldest entries have made room for its own. -/
theorem run_record_ok (hkeyed : store.Keyed) (hordered : store.entries.Ordered)
    (h : store.run x (Guard.record s c o.reference o.userId password now) = (.ok e, store')) :
    MadeOf c o password now x.draw e ∧
      (store.eraseAll (makingRoom s store o)).contains e.id = false ∧
      store' = (store.eraseAll (makingRoom s store o)).put e := by
  have hsorted : Entry.oldestFirst (x.order (store.ofUser o.reference o.userId)) =
      Entry.oldestFirst (store.held o) :=
    Entry.oldestFirst_congr (store.listed_perm x o) (hkeyed.held_distinct hordered o)
  rw [run_record, hsorted, Entry.length_oldestFirst] at h
  split at h
  · cases h
  · cases h
  · exact run_store_ok h

/-- A password is added where it is accepted. -/
theorem run_add_ok {r : Audit.Reported (Option Entry)}
    (h : store.run x (Guard.add s c o.reference o.userId password now) = (r, store'))
    (hadded : r.result = .ok (some e)) :
    store.run x (Guard.record s c o.reference o.userId password now) = (.ok e, store') := by
  rw [Guard.add] at h
  split at h
  · rw [Memory.run_bind] at h
    cases h
    generalize store.run x (Guard.record s c o.reference o.userId password now) = recorded at hadded
    obtain ⟨result, store''⟩ := recorded
    cases result with
    | error f => cases hadded
    | ok e' =>
      cases hadded
      rfl
  · cases h
    cases hadded

end Added

/-- **An accepted password leaves the newest entries.** Whatever a store has, however many entries
a user has and in whatever order they are listed: after a password was accepted, the user has its
entry, and of the entries before it the newest, one fewer than are remembered or all of them if
they are no more than that; and every other user has the entries of before. -/
theorem add_keeps_newest (s : PasswordHistorySettings) (c : Comparator) (o : Owner)
    (password : String) (now : Instant) (x : Chance) (store store' : Memory)
    (r : Audit.Reported (Option Entry)) (e : Entry) (hn : 1 ≤ s.oldPasswords)
    (hkeyed : store.Keyed) (hordered : store.entries.Ordered)
    (hrun : store.run x (Guard.add s c o.reference o.userId password now) = (r, store'))
    (hadded : r.result = .ok (some e)) :
    MadeOf c o password now x.draw e ∧
      (∃ kept, Newest (s.oldPasswords - 1) (store.held o) kept ∧
        (store'.held o).Perm (e :: kept)) ∧
      ∀ o' ≠ o, (store'.held o').Perm (store.held o') := by
  obtain ⟨hmade, hfree, rfl⟩ := run_record_ok hkeyed hordered (run_add_ok hrun hadded)
  have hperm := Entry.oldestFirst_perm (store.held o)
  have hmadeInOrder : (Entry.oldestFirst (store.held o)).Pairwise Entry.Before :=
    Entry.oldestFirst_pairwise (hkeyed.held_distinct hordered o)
  have hnewest := (newest_drop hn hmadeInOrder).perm hperm
  rw [hperm.length_eq] at hnewest
  refine ⟨hmade, ⟨_, hnewest, ?_⟩, fun o' hne => ?_⟩
  · refine (Memory.held_put hfree o).trans ?_
    rw [if_pos hmade.owner_eq]
    exact (hkeyed.held_eraseAll_oldest hordered _).cons e
  · refine (Memory.held_put hfree o').trans (.of_eq ?_)
    rw [if_neg (hmade.owner_eq.symm ▸ hne.symm)]
    exact hkeyed.held_eraseAll_other hordered
      (fun e he => hperm.subset (List.mem_of_mem_take he)) hne

/-- Two passwords are remembered, and four entries are left from when there were more: two of them
of one time, listed newest first. Bob keeps his one. -/
theorem add_keeps_newest_of_four :
    let s : PasswordHistorySettings := { enabled := true, oldPasswords := 2 }
    let plain : Comparator := ⟨fun _ p => .ok p, fun p e => .ok (decide (p = e))⟩
    let alice : Owner := ⟨.domain "acme", "alice"⟩
    let bob : Owner := ⟨.domain "acme", "bob"⟩
    let entry (o : Owner) (id : Nat) (millis : Int) : Entry :=
      ⟨⟨id⟩, o.reference, o.userId, "", .ofMillis millis⟩
    let store := ((((({} : Memory).put (entry alice 1 7)).put (entry alice 5 9)).put
      (entry alice 4 9)).put (entry alice 2 8)).put (entry bob 3 1)
    let x : Chance := ⟨⟨⟨6⟩, []⟩, List.reverse, List.reverse_perm⟩
    let new : Entry := ⟨⟨6⟩, alice.reference, alice.userId, "new", .ofMillis 10⟩
    let (r, store') := store.run x
      (Guard.add s plain alice.reference alice.userId "new" (.ofMillis 10))
    r.result = .ok (some new) ∧ store'.held alice = [entry alice 5 9, new] ∧
      (∃ kept, Newest 1 (store.held alice) kept ∧ (store'.held alice).Perm (new :: kept)) ∧
      (store'.held bob).Perm [entry bob 3 1] := by
  intro s plain alice bob entry store x new
  have hkeyed : store.Keyed := ((((Memory.keyed_empty.put _).put _).put _).put _).put _
  have hordered : store.entries.Ordered :=
    ((((Table.ordered_empty.insert _ _).insert _ _).insert _ _).insert _ _).insert _ _
  have hsorted : Entry.oldestFirst (x.order (store.ofUser alice.reference alice.userId)) =
      [entry alice 1 7, entry alice 2 8, entry alice 4 9, entry alice 5 9] :=
    Entry.oldestFirst_eq_of_perm ((store.listed_perm x alice).trans (by decide +kernel))
      (by decide +kernel)
  have hrun : (store.run x (Guard.add s plain alice.reference alice.userId "new"
      (.ofMillis 10))).map (·.result) (·.held alice) = (.ok (some new), [entry alice 5 9, new]) := by
    rw [Guard.add, if_pos rfl, Memory.run_bind, run_record, hsorted]
    decide +kernel
  obtain ⟨hadded, hheld⟩ := Prod.mk.inj hrun
  obtain ⟨-, hkept, hothers⟩ := add_keeps_newest s plain alice "new" (.ofMillis 10) x store _ _ new
    (by decide) hkeyed hordered rfl hadded
  exact ⟨hadded, hheld, hkept, (hothers bob (by decide)).trans (.of_eq (by decide +kernel))⟩

end Gatehouse.History
