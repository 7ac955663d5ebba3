import Gatehouse.Proofs.History.Memory
import Gatehouse.Proofs.Machine
import Gatehouse.Proofs.Uuid
import Mathlib.Data.List.Pairwise

/-! The last passwords.

What a history is for is said without a store: of all passwords that a user had accepted,
one of the last `n` may not be used again (`lastPasswords`). The guard keeps no list of
them, only entries among those of all other users, in no order, with an encoded password
in each; it sorts a user's entries, compares, and removes the oldest where there would be
too many. `keeper_answers_eq` says that this comes to the same, over every run of additions,
questions and counts, if the comparator is right about passwords (`Comparator.Ideal`) and
the entries are made in order (`InOrder`).

The invariant is `Holds`: of every user the store has the entries of the last `n` accepted
passwords, and nothing else. An accepted password takes it on in two steps, the removal
of what would be too many (`Holds.held_evicted`) and the new entry (`Holds.accept`). -/
namespace Gatehouse

namespace Credential.Comparator
variable {c : Comparator} {candidate : String}

/-- A comparator that is right about passwords: it encodes each, and a candidate matches
what a password was encoded as just if it is that password. -/
def Ideal (c : Comparator) : Prop :=
  ∀ salt password, ∃ encoded, c.encode salt password = .ok encoded ∧
    ∀ candidate, c.matchesEncoded candidate encoded = .ok (decide (candidate = password))

/-- What a password is encoded as. -/
def encoded (c : Comparator) (salt : List UInt8) (password : String) : String :=
  (c.encode salt password).toOption.getD ""

theorem Ideal.encode_eq (hc : c.Ideal) (salt : List UInt8) (password : String) :
    c.encode salt password = .ok (c.encoded salt password) := by
  obtain ⟨e, he, -⟩ := hc salt password
  rw [encoded, he]
  rfl

theorem Ideal.matchesEncoded_eq (hc : c.Ideal) (salt : List UInt8) (password : String) :
    c.matchesEncoded candidate (c.encoded salt password) = .ok (decide (candidate = password)) := by
  obtain ⟨e, he, hmatch⟩ := hc salt password
  rw [encoded, he]
  exact hmatch candidate

/-- Where no comparison fails, the result is whether any of them holds. -/
theorem matchesAny_eq (test : String → Bool) {l : List String}
    (h : ∀ e ∈ l, c.matchesEncoded candidate e = .ok (test e)) :
    c.matchesAny candidate l = .ok (l.any test) := by
  induction l with
  | nil => rfl
  | cons e rest ih =>
    obtain ⟨he, hrest⟩ := List.forall_mem_cons.mp h
    rw [matchesAny, he, List.any_cons, ih hrest]
    cases test e <;> rfl

end Credential.Comparator

namespace History

open Credential (Comparator)

/-! ### What the last passwords are -/

/-- A password that was accepted. -/
structure Accepted where
  owner : Owner
  password : String
  time : Instant
  draw : Draw
  deriving DecidableEq, Repr

/-- Of all accepted passwords, the last first, the last `n` of a user. -/
def recent (n : Nat) (o : Owner) (past : List Accepted) : List Accepted :=
  (past.filter fun a => a.owner = o).take n

/-- What reaches a history. -/
inductive Event where
  /-- A password is to be remembered. -/
  | added (o : Owner) (password : String) (now : Instant) (x : Chance)
  /-- It is asked whether a password was used. -/
  | asked (o : Owner) (password : String) (x : Chance)
  /-- A user's entries are counted. -/
  | counted (o : Owner)

/-- What is told of an event. -/
inductive Answer where
  /-- Whether the password is remembered now. -/
  | added (result : Except Failure Bool)
  /-- Whether the password was used. -/
  | asked (result : Except Failure Bool)
  | counted (n : Nat)
  deriving DecidableEq

/-- The last `n` passwords of every user: what a history ought to remember. -/
def lastPasswords (n : Nat) : Machine Event (List Accepted) Answer where
  next e past :=
    match e with
    | .added o password now x =>
      if password ∈ (recent n o past).map (·.password) then
        (.added (.error (.passwordInHistory n)), past)
      else (.added (.ok true), ⟨o, password, now, x.draw⟩ :: past)
    | .asked o password _ =>
      (.asked (.ok (decide (password ∈ (recent n o past).map (·.password)))), past)
    | .counted o => (.counted (min n (past.filter fun a => a.owner = o).length), past)

/-- The guard of histories, over a store in memory where nothing goes wrong. -/
def keeper (s : PasswordHistorySettings) (c : Comparator) : Machine Event Memory Answer where
  next e store :=
    match e with
    | .added o password now x =>
      let (r, store') := store.run x (Guard.add s c o.reference o.userId password now)
      (.added (r.result.map (·.isSome)), store')
    | .asked o password x =>
      let (r, store') := store.run x (Guard.isUsed s c o.reference o.userId (some password))
      (.asked r, store')
    | .counted o => (.counted (store.ofUser o.reference o.userId).length, store)

theorem recent_sublist (n : Nat) (o : Owner) (past : List Accepted) :
    (recent n o past).Sublist past := (List.take_sublist _ _).trans List.filter_sublist

theorem length_recent_le (n : Nat) (o : Owner) (past : List Accepted) :
    (recent n o past).length ≤ n := List.length_take_le _ _

theorem owner_of_mem_recent {n : Nat} {o : Owner} {past : List Accepted} {a : Accepted}
    (h : a ∈ recent n o past) : a.owner = o :=
  of_decide_eq_true (List.mem_filter.mp (List.mem_of_mem_take h)).2

/-- A user's last passwords after one more was accepted. -/
theorem recent_cons {n : Nat} (hn : 1 ≤ n) (o : Owner) (a : Accepted) (past : List Accepted) :
    recent n o (a :: past) =
      if a.owner = o then a :: (recent n o past).take (n - 1) else recent n o past := by
  obtain ⟨n, rfl⟩ := Nat.exists_eq_add_of_le' hn
  by_cases ho : a.owner = o
  · rw [if_pos ho, recent, List.filter_cons, if_pos (decide_eq_true ho), List.take_succ_cons,
      recent, List.take_take, Nat.add_sub_cancel, Nat.min_eq_left (Nat.le_succ n)]
  · rw [if_neg ho, recent, List.filter_cons, if_neg (by simpa using ho), recent]

/-! ### Entries made in order -/

/-- Entries are made in order, the last first: each is newer than those before, by its time
and then by its identifier. An identifier is one of 128 bits, and no two entries that are
remembered at one time have the same. -/
structure InOrder (n : Nat) (past : List Accepted) : Prop where
  later : past.Pairwise fun a b =>
    b.time < a.time ∨ b.time = a.time ∧ b.draw.id.value < a.draw.id.value
  distinct : ∀ past', past' <:+ past → ∀ o o', ∀ a ∈ recent n o past', ∀ b ∈ recent n o' past',
    a.draw.id = b.draw.id → a = b
  fits : ∀ a ∈ past, a.draw.id.value < Nat.pow 2 128

namespace InOrder
variable {n : Nat} {past past' : List Accepted} {o o' : Owner} {a b : Accepted}

/-- It is enough that no two entries have one identifier. -/
theorem of_pairwise
    (hlater : past.Pairwise fun a b =>
      b.time < a.time ∨ b.time = a.time ∧ b.draw.id.value < a.draw.id.value)
    (hdistinct : past.Pairwise fun a b => a.draw.id ≠ b.draw.id)
    (hfits : ∀ a ∈ past, a.draw.id.value < Nat.pow 2 128) : InOrder n past where
  later := hlater
  fits := hfits
  distinct past' hsuffix o o' a ha b hb hid := by
    have : Std.Symm fun a b : Accepted => a.draw.id ≠ b.draw.id := ⟨fun _ _ => Ne.symm⟩
    have hmem {o : Owner} {a : Accepted} (ha : a ∈ recent n o past') : a ∈ past :=
      hsuffix.subset ((recent_sublist n o past').subset ha)
    by_contra hne
    exact hdistinct.forall (hmem ha) (hmem hb) hne hid

theorem of_suffix (h : InOrder n past) (hsuffix : past' <:+ past) : InOrder n past' where
  later := h.later.sublist hsuffix.sublist
  distinct past'' hsuffix' := h.distinct past'' (hsuffix'.trans hsuffix)
  fits a ha := h.fits a (hsuffix.subset ha)

theorem nodup (h : InOrder n past) : past.Nodup :=
  h.later.imp fun {a b} hlater heq => by
    subst heq
    rcases hlater with htime | ⟨-, hid⟩
    · exact lt_irrefl _ htime
    · exact Nat.lt_irrefl _ hid

/-- Of what is remembered, the texts of identifiers differ, too. -/
theorem eq_of_toText (h : InOrder n past) (ha : a ∈ recent n o past) (hb : b ∈ recent n o' past)
    (htext : a.draw.id.toText = b.draw.id.toText) : a = b := by
  have hid : a.draw.id = b.draw.id :=
    Uuid.toText_inj (h.fits a ((recent_sublist n o past).subset ha))
      (h.fits b ((recent_sublist n o' past).subset hb)) htext
  exact h.distinct past (List.suffix_refl past) o o' a ha b hb hid

theorem texts (h : InOrder n past) (o : Owner) :
    (recent n o past).Pairwise fun a b => a.draw.id.toText ≠ b.draw.id.toText :=
  (h.nodup.sublist (recent_sublist n o past)).imp_of_mem fun ha hb hne htext =>
    hne (h.eq_of_toText ha hb htext)

end InOrder

/-! ### What makes room -/

/-- The identifiers of the entries that would be too many with one more. -/
def evicted (n : Nat) (o : Owner) (past : List Accepted) : List Uuid :=
  (((recent n o past).drop (n - 1)).map (·.draw.id)).reverse

/-- Of a full list, last first, the oldest makes room for one more; of any other, nothing. -/
theorem take_excess {α : Type} {l : List α} {n : Nat} (h : l.length ≤ n) :
    l.reverse.take (l.length + 1 - n) = (l.drop (n - 1)).reverse := by
  rw [List.take_reverse]
  by_cases hfull : l.length = n
  · congr 2
    omega
  · rw [List.drop_eq_nil_of_le (by omega), List.drop_eq_nil_of_le (by omega)]

/-- What is left of a list without what has the key of something from some place on. -/
theorem filter_notMem_drop {α β : Type} [DecidableEq β] {l : List α} {key : α → β}
    (h : l.Pairwise fun a b => key a ≠ key b) (n : Nat) :
    (l.filter fun a => key a ∉ (l.drop n).map key) = l.take n := by
  have hparts : (l.take n ++ l.drop n).Pairwise fun a b => key a ≠ key b := by
    rwa [List.take_append_drop]
  have hcross := (List.pairwise_append.mp hparts).2.2
  have hkept : ((l.take n).filter fun a => key a ∉ (l.drop n).map key) = l.take n := by
    rw [List.filter_eq_self]
    intro a ha
    refine decide_eq_true fun hmem => ?_
    obtain ⟨b, hb, hkey⟩ := List.mem_map.mp hmem
    exact hcross a ha b hb hkey.symm
  have hgone : ((l.drop n).filter fun a => key a ∉ (l.drop n).map key) = [] := by
    rw [List.filter_eq_nil_iff]
    intro a ha hnot
    exact of_decide_eq_true hnot (List.mem_map_of_mem ha)
  calc (l.filter fun a => key a ∉ (l.drop n).map key)
      = ((l.take n ++ l.drop n).filter fun a => key a ∉ (l.drop n).map key) := by
        rw [List.take_append_drop]
    _ = l.take n := by rw [List.filter_append, hkept, hgone, List.append_nil]

/-! ### What the store holds -/

/-- The entry of an accepted password. -/
def Accepted.entry (c : Comparator) (a : Accepted) : Entry where
  id := a.draw.id
  reference := a.owner.reference
  userId := a.owner.userId
  encodedPassword := c.encoded a.draw.salt a.password
  createdAt := a.time

theorem Accepted.entry_owner (c : Comparator) (a : Accepted) : (a.entry c).owner = a.owner := rfl

/-- The store has the entries of every user's last `n` passwords, and no others. -/
structure Holds (c : Comparator) (n : Nat) (store : Memory) (past : List Accepted) : Prop where
  keyed : store.Keyed
  held_perm : ∀ o, (store.held o).Perm ((recent n o past).map (Accepted.entry c))

theorem holds_empty (c : Comparator) (n : Nat) : Holds c n {} [] :=
  ⟨Memory.keyed_empty, fun _ => by rw [recent, List.filter_nil, List.take_nil]; exact .refl _⟩

namespace Holds
variable {s : PasswordHistorySettings} {c : Comparator} {n : Nat} {store : Memory}
  {past : List Accepted} {o : Owner} {new : Accepted}

/-- However a user's entries are listed, a password matches one of them just if it is one
of the user's last. -/
theorem matchesAny_eq (h : Holds c n store past) (hc : c.Ideal) (password : String)
    {entries : List Entry} (hentries : entries.Perm (store.held o)) :
    c.matchesAny password (entries.map (·.encodedPassword)) =
      .ok (decide (password ∈ (recent n o past).map (·.password))) := by
  let test (e : String) : Bool := (c.matchesEncoded password e).toOption.getD false
  have htest (a : Accepted) :
      c.matchesEncoded password (a.entry c).encodedPassword =
        .ok (decide (password = a.password)) :=
    hc.matchesEncoded_eq a.draw.salt a.password
  have hperm : entries.Perm ((recent n o past).map (Accepted.entry c)) :=
    hentries.trans (h.held_perm o)
  have hany : entries.any (fun e => test e.encodedPassword) =
      decide (password ∈ (recent n o past).map (·.password)) := by
    rw [hperm.any_eq, Bool.eq_iff_iff, decide_eq_true_iff]
    simp only [List.any_map, List.any_eq_true, List.mem_map, Function.comp_apply, test, htest,
      Except.toOption, Option.getD_some, decide_eq_true_eq]
    exact exists_congr fun a => and_congr_right fun _ => eq_comm
  rw [Comparator.matchesAny_eq test, List.any_map, ← hany]
  · rfl
  · intro e he
    obtain ⟨entry, hentry, rfl⟩ := List.mem_map.mp he
    obtain ⟨a, -, rfl⟩ := List.mem_map.mp (hperm.mem_iff.mp hentry)
    simp only [test, htest, Except.toOption, Option.getD_some]

/-- However a user's entries are listed, they are sorted as their passwords were accepted. -/
theorem oldestFirst_eq (h : Holds c n store past) (hpast : InOrder n past) (x : Chance) :
    Entry.oldestFirst (x.order (store.ofUser o.reference o.userId)) =
      ((recent n o past).map (Accepted.entry c)).reverse := by
  refine Entry.oldestFirst_eq_of_perm ?_ ?_
  · exact ((store.listed_perm x o).trans (h.held_perm o)).trans (List.reverse_perm _).symm
  · rw [List.pairwise_reverse, List.pairwise_map]
    exact hpast.later.sublist (recent_sublist n o past)

/-- The guard removes just the entries that would be too many. -/
theorem evicted_eq (h : Holds c s.oldPasswords store past)
    (hpast : InOrder s.oldPasswords past) (x : Chance) :
    let entries := Entry.oldestFirst (x.order (store.ofUser o.reference o.userId))
    (entries.take (Guard.excess s entries.length)).map (·.id) = evicted s.oldPasswords o past := by
  intro entries
  have hlen := length_recent_le s.oldPasswords o past
  have hentries : entries = ((recent s.oldPasswords o past).map (Accepted.entry c)).reverse :=
    h.oldestFirst_eq hpast x
  rw [hentries, Guard.excess, List.length_reverse, take_excess (by rwa [List.length_map]),
    List.map_reverse, ← List.map_drop, List.map_map]
  rfl

/-- After that a user has the entries of one password less than is remembered, if there
were so many, and no other user has less than before. -/
theorem held_evicted (h : Holds c n store past) (hpast : InOrder n past) (o o' : Owner) :
    ((store.eraseAll (evicted n o past)).held o').Perm
      ((if o' = o then (recent n o past).take (n - 1) else recent n o' past).map
        (Accepted.entry c)) := by
  rw [h.keyed.held_eraseAll]
  refine ((h.held_perm o').filter _).trans (List.Perm.of_eq ?_)
  rw [List.filter_map]
  refine congrArg _ ?_
  have hkeys : (evicted n o past).map Uuid.toText =
      (((recent n o past).drop (n - 1)).map (·.draw.id.toText)).reverse := by
    rw [evicted, List.map_reverse, List.map_map]
    rfl
  simp only [Function.comp_def, Accepted.entry, hkeys, List.mem_reverse]
  split
  · next ho =>
    subst ho
    exact filter_notMem_drop (hpast.texts o') (n - 1)
  · next ho =>
    -- Entries of different users are different entries.
    refine List.filter_eq_self.mpr fun a ha => decide_eq_true fun hmem => ?_
    obtain ⟨b, hb, htext⟩ := List.mem_map.mp hmem
    have hsame := hpast.eq_of_toText (List.mem_of_mem_drop hb) ha htext
    rw [hsame] at hb
    exact ho ((owner_of_mem_recent ha).symm.trans (owner_of_mem_recent (List.mem_of_mem_drop hb)))

/-- After that the identifier of the new entry is free. -/
theorem contains_evicted (h : Holds c n store past) (hn : 1 ≤ n) (hnew : InOrder n (new :: past)) :
    (store.eraseAll (evicted n new.owner past)).contains (new.entry c).id = false := by
  have hpast : InOrder n past := hnew.of_suffix (List.suffix_cons new past)
  refine (h.keyed.eraseAll _).contains_eq_false fun o e he htext => ?_
  rw [(h.held_evicted hpast new.owner o).mem_iff] at he
  obtain ⟨a, ha, rfl⟩ := List.mem_map.mp he
  have hpresent : new ∈ recent n new.owner (new :: past) := by
    rw [recent_cons hn, if_pos rfl]
    exact List.mem_cons_self
  have hkept : a ∈ past ∧ a ∈ recent n o (new :: past) := by
    rw [recent_cons hn]
    by_cases ho : o = new.owner
    · rw [if_pos ho] at ha
      rw [if_pos ho.symm, ho]
      exact ⟨(recent_sublist n _ past).subset (List.mem_of_mem_take ha), List.mem_cons_of_mem _ ha⟩
    · rw [if_neg ho] at ha
      rw [if_neg (Ne.symm ho)]
      exact ⟨(recent_sublist n o past).subset ha, ha⟩
  have hsame := hnew.eq_of_toText hkept.2 hpresent htext
  exact (List.nodup_cons.mp hnew.nodup).1 (hsame ▸ hkept.1)

/-- The new entry in its place makes a user's last passwords complete. -/
theorem accept (h : Holds c n store past) (hn : 1 ≤ n) (hnew : InOrder n (new :: past)) :
    Holds c n ((store.eraseAll (evicted n new.owner past)).put (new.entry c)) (new :: past) where
  keyed := (h.keyed.eraseAll _).put _
  held_perm o := by
    have hpast : InOrder n past := hnew.of_suffix (List.suffix_cons new past)
    have hfree := h.contains_evicted hn hnew
    have hheld := h.held_evicted hpast new.owner o
    refine (Memory.held_put hfree o).trans ?_
    rw [recent_cons hn, Accepted.entry_owner]
    by_cases ho : new.owner = o
    · rw [if_pos ho.symm, ho] at hheld
      rw [if_pos ho, if_pos ho, List.map_cons, ho]
      exact hheld.cons _
    · rw [if_neg fun heq => ho heq.symm] at hheld
      rw [if_neg ho, if_neg ho]
      exact hheld

end Holds

/-! ### The guard follows -/

section Follows
variable {s : PasswordHistorySettings} {c : Comparator} {store : Memory} {past : List Accepted}
  {o : Owner} {password : String} {now : Instant} {x : Chance}

theorem run_isUsed (hs : s.enabled = true) (hc : c.Ideal) (h : Holds c s.oldPasswords store past) :
    store.run x (Guard.isUsed s c o.reference o.userId (some password)) =
      (.ok (decide (password ∈ (recent s.oldPasswords o past).map (·.password))), store) := by
  simp only [Guard.isUsed, hs, if_true]
  rw [Memory.run_ask, ← h.matchesAny_eq hc password (store.listed_perm x o)]
  rfl

/-- What storing a password comes to: an entry is created, if the password is encoded. -/
theorem run_store (store : Memory) (x : Chance) (c : Comparator) (o : Owner) (password : String)
    (now : Instant) :
    store.run x (Guard.store c o.reference o.userId password now) =
      match c.encode x.draw.salt password with
      | .error f => (.error f, store)
      | .ok encodedPassword =>
        let (r, store') := store.create
          ⟨x.draw.id, o.reference, o.userId, encodedPassword, now⟩
        (r.mapError .ofStore, store') := by
  rw [Guard.store, Memory.run_ask]
  simp only [Memory.answer]
  cases c.encode x.draw.salt password <;> rfl

/-- What remembering a password comes to: it is compared with a user's entries, and where
none is of that password, the oldest make room and it is stored. -/
theorem run_record (s : PasswordHistorySettings) (c : Comparator) (store : Memory) (x : Chance)
    (o : Owner) (password : String) (now : Instant) :
    let entries := Entry.oldestFirst (x.order (store.ofUser o.reference o.userId))
    store.run x (Guard.record s c o.reference o.userId password now) =
      match c.matchesAny password (entries.map (·.encodedPassword)) with
      | .error f => (.error f, store)
      | .ok true => (.error (.passwordInHistory s.oldPasswords), store)
      | .ok false =>
        (store.eraseAll ((entries.take (Guard.excess s entries.length)).map (·.id))).run x
          (Guard.store c o.reference o.userId password now) := by
  intro entries
  rw [Guard.record, Memory.run_ask]
  simp only [Memory.answer]
  change store.run x (match c.matchesAny password (entries.map (·.encodedPassword)) with
    | Except.error f => _
    | Except.ok true => _
    | Except.ok false => _) = _
  cases c.matchesAny password (entries.map (·.encodedPassword)) with
  | error f => rfl
  | ok used =>
    cases used with
    | true => rfl
    | false =>
      show store.run x ((Guard.deleteAll _).bind _) = _
      rw [Memory.run_bind, Memory.run_deleteAll]

/-- One of a user's last passwords is rejected and leaves the store alone. -/
theorem run_record_rejected (hc : c.Ideal) (h : Holds c s.oldPasswords store past)
    (hused : password ∈ (recent s.oldPasswords o past).map (·.password)) :
    store.run x (Guard.record s c o.reference o.userId password now) =
      (.error (.passwordInHistory s.oldPasswords), store) := by
  have hmatch := h.matchesAny_eq hc password (store.sorted_perm x o)
  rw [run_record, hmatch, decide_eq_true hused]

/-- Any other password is accepted, and then the store has its entry, too. -/
theorem run_record_accepted (hc : c.Ideal) (hn : 1 ≤ s.oldPasswords)
    (h : Holds c s.oldPasswords store past)
    (hfresh : password ∉ (recent s.oldPasswords o past).map (·.password))
    (hnew : InOrder s.oldPasswords (⟨o, password, now, x.draw⟩ :: past)) :
    let new : Accepted := ⟨o, password, now, x.draw⟩
    store.run x (Guard.record s c o.reference o.userId password now) =
      (.ok (new.entry c), (store.eraseAll (evicted s.oldPasswords o past)).put (new.entry c)) := by
  intro new
  have hpast : InOrder s.oldPasswords past := hnew.of_suffix (List.suffix_cons new past)
  have hmatch := h.matchesAny_eq hc password (store.sorted_perm x o)
  have hfree : ¬(store.eraseAll (evicted s.oldPasswords o past)).contains (new.entry c).id = true :=
    Bool.eq_false_iff.mp (h.contains_evicted hn hnew)
  rw [run_record, hmatch, decide_eq_false hfresh]
  simp only
  rw [h.evicted_eq hpast x, run_store, hc.encode_eq]
  show ((Memory.create _ (new.entry c)).1.mapError _, (Memory.create _ (new.entry c)).2) = _
  rw [Memory.create, if_neg hfree]
  rfl

/-- One event: the guard tells what the last passwords tell, and the store keeps to them. -/
theorem follows_lastPasswords (hs : s.enabled = true) (hc : c.Ideal) (hn : 1 ≤ s.oldPasswords)
    (e : Event) (h : Holds c s.oldPasswords store past)
    (hnext : InOrder s.oldPasswords ((lastPasswords s.oldPasswords).next e past).2) :
    ((keeper s c).next e store).1 = ((lastPasswords s.oldPasswords).next e past).1 ∧
      Holds c s.oldPasswords ((keeper s c).next e store).2
        ((lastPasswords s.oldPasswords).next e past).2 := by
  cases e with
  | added o password now x =>
    simp only [keeper, lastPasswords, Guard.add, hs, if_true, Memory.run_bind] at hnext ⊢
    by_cases hused : password ∈ (recent s.oldPasswords o past).map (·.password)
    · rw [if_pos hused, run_record_rejected hc h hused]
      exact ⟨rfl, h⟩
    · rw [if_neg hused] at hnext ⊢
      rw [run_record_accepted hc hn h hused hnext]
      exact ⟨rfl, h.accept hn hnext⟩
  | asked o password x =>
    simp only [keeper, lastPasswords, run_isUsed hs hc h]
    exact ⟨trivial, h⟩
  | counted o =>
    refine ⟨congrArg Answer.counted ?_, h⟩
    rw [((store.ofUser_perm o).trans (h.held_perm o)).length_eq, List.length_map, recent,
      List.length_take]

theorem suffix_after (n : Nat) (past : List Accepted) (es : List Event) :
    past <:+ (lastPasswords n).after past es := by
  induction es generalizing past with
  | nil => exact List.suffix_refl past
  | cons e rest ih =>
    have hstep : past <:+ ((lastPasswords n).next e past).2 := by
      cases e with
      | added o password now x =>
        simp only [lastPasswords]
        split
        · exact List.suffix_refl past
        · exact List.suffix_cons _ past
      | asked => exact List.suffix_refl past
      | counted => exact List.suffix_refl past
    exact hstep.trans (ih _)

theorem answers_eq_of_holds (hs : s.enabled = true) (hc : c.Ideal) (hn : 1 ≤ s.oldPasswords)
    (h : Holds c s.oldPasswords store past) (es : List Event)
    (hes : InOrder s.oldPasswords ((lastPasswords s.oldPasswords).after past es)) :
    (keeper s c).answers store es = (lastPasswords s.oldPasswords).answers past es := by
  induction es generalizing store past with
  | nil => rfl
  | cons e rest ih =>
    have hnext := hes.of_suffix (suffix_after s.oldPasswords _ rest)
    obtain ⟨hanswer, hholds⟩ := follows_lastPasswords hs hc hn e h hnext
    rw [Machine.answers, Machine.answers, hanswer, ih hholds hes]

end Follows

/-- **Exactly the last `n` accepted passwords are remembered.** Over any run of events of any
users, from a store without entries, a password is accepted just where it is not among the
last `n` that were accepted of that user, a question is answered by whether it is among
them, and the store has as many entries of a user as passwords were accepted, up to `n`.
Chance may draw anything and list entries in any order, as long as the entries that are
made are made in order. -/
theorem keeper_answers_eq (s : PasswordHistorySettings) (c : Comparator) (hs : s.enabled = true)
    (hn : 1 ≤ s.oldPasswords) (hc : c.Ideal) (es : List Event)
    (hes : InOrder s.oldPasswords ((lastPasswords s.oldPasswords).after [] es)) :
    (keeper s c).answers {} es = (lastPasswords s.oldPasswords).answers [] es :=
  answers_eq_of_holds hs hc hn (holds_empty c s.oldPasswords) es hes

/-- With two passwords to remember: an old one is rejected, and accepted again when two
others came after it. Another user may have it at any time. -/
theorem keeper_two_passwords :
    let s : PasswordHistorySettings := { enabled := true, oldPasswords := 2 }
    let plain : Comparator := ⟨fun _ p => .ok p, fun p e => .ok (decide (p = e))⟩
    let alice : Owner := ⟨.domain "acme", "alice"⟩
    let bob : Owner := ⟨.domain "acme", "bob"⟩
    let listed : Chance := ⟨default, id, List.Perm.refl⟩
    let drawn (n : Nat) : Chance := ⟨⟨⟨n⟩, []⟩, List.reverse, List.reverse_perm⟩
    (keeper s plain).answers {} [
        .added alice "one" (.ofMillis 0) (drawn 5), .added alice "two" (.ofMillis 0) (drawn 7),
        .added alice "one" (.ofMillis 0) (drawn 1), .added bob "one" (.ofMillis 1) (drawn 3),
        .added alice "three" (.ofMillis 2) (drawn 4), .asked alice "one" listed,
        .asked alice "two" listed, .counted alice, .counted bob,
        .added alice "one" (.ofMillis 2) (drawn 9)] =
      [.added (.ok true), .added (.ok true), .added (.error (.passwordInHistory 2)),
        .added (.ok true), .added (.ok true), .asked (.ok false), .asked (.ok true),
        .counted 2, .counted 1, .added (.ok true)] := by
  intro s plain alice bob listed drawn
  have hplain : plain.Ideal := fun _ p => ⟨p, rfl, fun _ => rfl⟩
  rw [keeper_answers_eq s plain rfl (by decide) hplain _
    (.of_pairwise (by decide +kernel) (by decide +kernel) (by decide +kernel))]
  decide +kernel

end History

end Gatehouse
