import Gatehouse.Proofs.History.Eviction
import Gatehouse.Proofs.Store.Shared

/-! Changes of one user's password at the same time.

A change lists the user's entries, removes the oldest and stores a new one, call by call, and
nothing keeps others from making theirs in between. So two changes may both make room for one
entry, and then store two. How far that goes is bounded by how many changes stand between
listing and storing at one time (`underway`): `held_le_of_crowd` says that a user ends with at
most that many entries more than fit beside a new one. For two changes, that is one entry too
many at the most, and only where each listed before the other stored (`two_changes_keep_bound`).

What carries the bound is that an entry which a change is about to remove does not count
(`spared`): a change that lists leaves fewer than are remembered, whatever others are about to
do, and until it stores, its place is taken. -/
namespace Gatehouse.History

open Credential (Comparator)
open Store (Shared)

/-- Answers a request, where nothing goes wrong, and chance decides anew about each. -/
def Memory.dealt (chances : Nat → Chance) (r : Request) : StateM (Memory × Nat) r.Answer :=
  fun (store, n) =>
    let (x, store') := answer (chances n) r store
    (x, (store', n + 1))

/-- Changes that share a store, and the number of requests that were answered. -/
abbrev Changes (ι : Type) : Type :=
  Shared Request Request.Answer (Memory × Nat) ι (Audit.Reported (Option Entry))

/-! ### Stages of a change -/

/-- Where a change stands between two of its calls. -/
inductive Stage where
  | waiting
  /-- It has listed the user's entries, and is about to remove some of them. -/
  | removing (ids : List Uuid)
  | storing (e : Entry)
  | ended (r : Audit.Reported (Option Entry))

namespace Stage

/-- What a change is about to remove. -/
def toRemove : Stage → List Uuid
  | removing ids => ids
  | _ => []

/-- It has listed the user's entries and has not ended. -/
def isUnderway : Stage → Bool
  | removing _ => true
  | storing _ => true
  | _ => false

/-- It may still store an entry. -/
def isOpen : Stage → Bool
  | ended _ => false
  | _ => true

section Calls
variable (s : PasswordHistorySettings) (c : Comparator) (o : Owner) (password : String)
  (now : Instant)

/-- What a change has still to do. -/
def calls : Stage → Calls (Audit.Reported (Option Entry))
  | waiting => Guard.add s c o.reference o.userId password now
  | removing ids =>
    ((Guard.deleteAll ids).bind fun
      | .error f => .done (.error f)
      | .ok () => Guard.store c o.reference o.userId password now).bind reported
  | storing e => .ask (.create e) fun r => reported (r.mapError .ofStore)
  | ended r => .done r
where
  reported (result : Except Failure Entry) : Calls (Audit.Reported (Option Entry)) :=
    .done ⟨result.map some, [Guard.report s o.reference o.userId result]⟩

end Calls

/-- What the next call of a change comes to: the store and the stage before and after. -/
inductive Move (s : PasswordHistorySettings) (o : Owner) (store : Memory) :
    Stage → Memory → Stage → Prop where
  | lists : Move s o store .waiting store (.removing (makingRoom s store o))
  | removes (id : Uuid) (rest : List Uuid) :
      Move s o store (.removing (id :: rest)) (store.erase id) (.removing rest)
  | encodes (e : Entry) : Move s o store (.removing []) store (.storing e)
  | stores (e : Entry) (r : Audit.Reported (Option Entry)) :
      store.contains e.id = false → r.result = .ok (some e) →
      Move s o store (.storing e) (store.put e) (.ended r)
  /-- The password is not accepted, or cannot be encoded or stored, or all was over before. -/
  | ends (stage : Stage) (r : Audit.Reported (Option Entry)) :
      stage.toRemove = [] → Move s o store stage store (.ended r)

end Stage

section Step
variable {ι : Type} [DecidableEq ι] {s : PasswordHistorySettings} {c : Comparator} {o : Owner}
  {password : String} {now : Instant} {w : Changes ι} {i : ι} {stage : Stage}

/-- **What a pick can come to**: a move of the change picked. -/
theorem step_move (chances : Nat → Chance) (hs : s.enabled = true) (hkeyed : w.store.1.Keyed)
    (hordered : w.store.1.entries.Ordered)
    (h : w.programs i = stage.calls s c o password now) :
    ∃ stage', (w.step (Memory.dealt chances) i).programs i = stage'.calls s c o password now ∧
      stage.Move s o w.store.1 (w.step (Memory.dealt chances) i).store.1 stage' := by
  cases stage with
  | waiting =>
    rw [Stage.calls, Guard.add, if_pos hs] at h
    rw [Shared.step_ask h]
    simp only [Function.update_self, Memory.dealt, Memory.answer]
    have hsorted : Entry.oldestFirst
        ((chances w.store.2).order (w.store.1.ofUser o.reference o.userId)) =
          Entry.oldestFirst (w.store.1.held o) :=
      Entry.oldestFirst_congr (w.store.1.listed_perm _ o) (hkeyed.held_distinct hordered o)
    simp only [hsorted, Entry.length_oldestFirst]
    cases c.matchesAny password
        ((Entry.oldestFirst (w.store.1.held o)).map (·.encodedPassword)) with
    | error f => exact ⟨.ended _, rfl, .ends _ _ rfl⟩
    | ok used =>
      cases used with
      | true => exact ⟨.ended _, rfl, .ends _ _ rfl⟩
      | false => exact ⟨_, rfl, .lists⟩
  | removing ids =>
    cases ids with
    | nil =>
      rw [Shared.step_ask h]
      simp only [Function.update_self, Memory.dealt, Memory.answer]
      cases c.encode (chances w.store.2).draw.salt password with
      | error f => exact ⟨.ended _, rfl, .ends _ _ rfl⟩
      | ok encoded => exact ⟨.storing _, rfl, .encodes _⟩
    | cons id rest =>
      rw [Shared.step_ask h]
      simp only [Function.update_self]
      exact ⟨.removing rest, rfl, .removes id rest⟩
  | storing e =>
    rw [Shared.step_ask h]
    simp only [Function.update_self, Memory.dealt, Memory.answer, Memory.create]
    split
    · exact ⟨.ended _, rfl, .ends _ _ rfl⟩
    · next hfree => exact ⟨.ended _, rfl, .stores e _ (Bool.eq_false_iff.mpr hfree) rfl⟩
  | ended r =>
    rw [Shared.step_done h]
    exact ⟨.ended r, h, .ends _ r rfl⟩

end Step

/-! ### What a move leaves -/

namespace Stage.Move
variable {s : PasswordHistorySettings} {o : Owner} {store store' : Memory} {stage stage' : Stage}

theorem keyed (h : stage.Move s o store store' stage') (hkeyed : store.Keyed) : store'.Keyed := by
  cases h with
  | removes id rest => exact hkeyed.erase id
  | stores e => exact hkeyed.put e
  | lists | encodes | ends => exact hkeyed

theorem ordered (h : stage.Move s o store store' stage') (hordered : store.entries.Ordered) :
    store'.entries.Ordered := by
  cases h with
  | removes id rest => exact hordered.erase _
  | stores e => exact hordered.insert _ _
  | lists | encodes | ends => exact hordered

theorem ne_waiting (h : stage.Move s o store store' stage') : stage' ≠ .waiting := by
  cases h <;> exact Stage.noConfusion

end Stage.Move

section Spared
variable {ι : Type} [Fintype ι] {s : PasswordHistorySettings} {o : Owner} {store : Memory}
  {stages : ι → Stage} {i : ι}

/-- The entries of a user that nobody is about to remove. -/
def spared (store : Memory) (o : Owner) (stages : ι → Stage) : List Entry :=
  (store.held o).filter fun e => ∀ i, e.id.toText ∉ (stages i).toRemove.map Uuid.toText

/-- Where a change has listed and is about to remove the oldest, there is room. -/
theorem spared_lists (hn : 1 ≤ s.oldPasswords) (hkeyed : store.Keyed)
    (hordered : store.entries.Ordered) (hi : stages i = .removing (makingRoom s store o)) :
    (spared store o stages).length ≤ s.oldPasswords - 1 := by
  have hkept := (hkeyed.held_eraseAll_oldest hordered (o := o)
    (Guard.excess s (store.held o).length)).length_eq
  rw [hkeyed.held_eraseAll, List.length_drop, Entry.length_oldestFirst, Guard.excess] at hkept
  have hsub : (spared store o stages).length ≤ ((store.held o).filter fun e =>
      e.id.toText ∉ (makingRoom s store o).map Uuid.toText).length := by
    refine (List.monotone_filter_right _ fun e he => ?_).length_le
    have hspared := of_decide_eq_true he i
    rw [hi] at hspared
    exact decide_eq_true hspared
  exact hsub.trans (by rw [makingRoom, Guard.excess]; omega)

/-- A new entry is at most one more. -/
theorem spared_put_le {e : Entry} (hfree : store.contains e.id = false) (stages : ι → Stage) :
    (spared (store.put e) o stages).length ≤ (spared store o stages).length + 1 := by
  rw [spared, ((Memory.held_put hfree o).filter _).length_eq]
  split
  · rw [List.filter_cons]
    split
    · exact Nat.le_refl _
    · exact Nat.le_succ _
  · exact Nat.le_succ _

theorem held_put_le {e : Entry} (hfree : store.contains e.id = false) :
    ((store.put e).held o).length ≤ (store.held o).length + 1 := by
  rw [(Memory.held_put hfree o).length_eq]
  split
  · exact Nat.le_refl _
  · exact Nat.le_succ _

variable [DecidableEq ι]

/-- An entry that is removed did not count before. -/
theorem spared_removes (hkeyed : store.Keyed) {id : Uuid} {rest : List Uuid}
    (hi : stages i = .removing (id :: rest)) :
    (spared (store.erase id) o (Function.update stages i (.removing rest))).length ≤
      (spared store o stages).length := by
  rw [spared, hkeyed.held_erase, List.filter_filter]
  refine (List.monotone_filter_right _ fun e he => ?_).length_le
  obtain ⟨hspared, hother⟩ := Bool.and_eq_true_iff.mp he
  refine decide_eq_true fun j => ?_
  have hj := of_decide_eq_true hspared j
  by_cases hji : j = i
  · subst hji
    rw [Function.update_self] at hj
    rw [hi]
    exact List.not_mem_cons_of_ne_of_not_mem (bne_iff_ne.mp hother) hj
  · rwa [Function.update_of_ne hji] at hj

theorem spared_update (store : Memory) (stage : Stage)
    (h : stage.toRemove = (stages i).toRemove) :
    spared store o (Function.update stages i stage) = spared store o stages := by
  have hsame (j : ι) : (Function.update stages i stage j).toRemove = (stages j).toRemove := by
    by_cases hj : j = i
    · rw [hj, Function.update_self, h]
    · rw [Function.update_of_ne hj]
  simp only [spared, hsame]

end Spared

/-! ### How many entries there are -/

section Within
variable {ι : Type} [DecidableEq ι] {s : PasswordHistorySettings} {o : Owner}
  {store store' : Memory} {stages : ι → Stage} {stage' : Stage} {S : Finset ι} {i : ι}

/-- A change that comes to a stage where less holds of it is counted no more than before. -/
theorem card_update_le {p : Stage → Bool} (h : p stage' = true → p (stages i) = true) :
    (S.filter fun j => p (Function.update stages i stage' j)).card ≤
      (S.filter fun j => p (stages j)).card := by
  refine Finset.card_le_card (Finset.monotone_filter_right S fun j _ hj => ?_)
  by_cases hji : j = i
  · subst hji
    rw [Function.update_self] at hj
    exact h hj
  · rwa [Function.update_of_ne hji] at hj

theorem card_update_lt {p : Stage → Bool} (stage' : Stage) (hS : i ∈ S)
    (hbefore : p (stages i) = true) (hafter : p stage' = false) :
    (S.filter fun j => p (Function.update stages i stage' j)).card <
      (S.filter fun j => p (stages j)).card := by
  have hle : (S.filter fun j => p (Function.update stages i stage' j)) ⊆
      (S.filter fun j => p (stages j)).erase i := by
    intro j hj
    obtain ⟨hjS, hj⟩ := Finset.mem_filter.mp hj
    have hji : j ≠ i := by
      rintro rfl
      rw [Function.update_self, hafter] at hj
      cases hj
    rw [Function.update_of_ne hji] at hj
    exact Finset.mem_erase.mpr ⟨hji, Finset.mem_filter.mpr ⟨hjS, hj⟩⟩
  exact Nat.lt_of_le_of_lt (Finset.card_le_card hle)
    (Finset.card_erase_lt_of_mem (Finset.mem_filter.mpr ⟨hS, hbefore⟩))

/-- Of the changes in `S`, those under way take a place each beside the entries that nobody is
about to remove, and those that have not ended may each add one to what the user has. -/
structure Within [Fintype ι] (o : Owner) (S : Finset ι) (room total : Nat) (store : Memory)
    (stages : ι → Stage) : Prop where
  room : (spared store o stages).length + (S.filter fun i => (stages i).isUnderway).card ≤ room
  total : (store.held o).length + (S.filter fun i => (stages i).isOpen).card ≤ total

/-- A move stays within bounds, if there is room for all that are under way then. -/
theorem Within.move [Fintype ι] {room total : Nat} (hw : Within o S room total store stages)
    (hn : 1 ≤ s.oldPasswords) (hkeyed : store.Keyed) (hordered : store.entries.Ordered)
    (hmove : (stages i).Move s o store store' stage')
    (hS : ∀ r e, stage' = .ended r → r.result = .ok (some e) → i ∈ S)
    (hroom : s.oldPasswords - 1 +
      (S.filter fun j => (Function.update stages i stage' j).isUnderway).card ≤ room) :
    Within o S room total store' (Function.update stages i stage') := by
  obtain ⟨hbefore, htotal⟩ := hw
  generalize hstage : stages i = stage at hmove
  have hless {p : Stage → Bool} (h : p stage' = true → p stage = true) :=
    card_update_le (S := S) (hstage ▸ h)
  cases hmove with
  | lists =>
    -- From here on the change counts among those under way, and what it spares fits beside it.
    have hspared := spared_lists (o := o) hn hkeyed hordered (Function.update_self i
      (.removing (makingRoom s store o)) stages)
    have hopen := hless (p := Stage.isOpen) fun _ => rfl
    exact ⟨by omega, by omega⟩
  | removes id rest =>
    have hspared := spared_removes (o := o) hkeyed hstage
    have hheld : ((store.erase id).held o).length ≤ (store.held o).length := by
      rw [hkeyed.held_erase]
      exact List.length_filter_le _ _
    have hunderway := hless (p := Stage.isUnderway) fun _ => rfl
    have hopen := hless (p := Stage.isOpen) fun _ => rfl
    exact ⟨by omega, by omega⟩
  | encodes e =>
    have hunderway := hless (p := Stage.isUnderway) fun _ => rfl
    have hopen := hless (p := Stage.isOpen) fun _ => rfl
    rw [← spared_update store (.storing e) (congrArg Stage.toRemove hstage).symm] at hbefore
    exact ⟨by omega, by omega⟩
  | stores e r hfree hr =>
    -- The new entry takes the place that was kept for it.
    have hmem : i ∈ S := hS r e rfl hr
    have hspared := spared_put_le (o := o) hfree stages
    have hheld := held_put_le (o := o) hfree
    have hunderway := card_update_lt (.ended r) hmem (congrArg Stage.isUnderway hstage) rfl
    have hopen := card_update_lt (.ended r) hmem (congrArg Stage.isOpen hstage) rfl
    rw [← spared_update (store.put e) (.ended r) (congrArg Stage.toRemove hstage).symm] at hspared
    exact ⟨by omega, by omega⟩
  | ends _ r hnone =>
    have hunderway := hless (p := Stage.isUnderway) fun h => by cases h
    have hopen := hless (p := Stage.isOpen) fun h => by cases h
    rw [← spared_update store (.ended r) (hstage ▸ hnone).symm] at hbefore
    exact ⟨by omega, by omega⟩

end Within

/-! ### Runs -/

/-- A change has listed the user's entries and has not ended. -/
def underway {ι : Type} (w : Changes ι) (i : ι) : Bool :=
  !(w.asked i).isEmpty && !(w.programs i).isDone

/-- A change has stored an entry. -/
def accepted : Calls (Audit.Reported (Option Entry)) → Bool
  | .done r => r.result.toOption.join.isSome
  | .ask _ _ => false

theorem accepted_done {r : Audit.Reported (Option Entry)} :
    accepted (.done r) = true ↔ ∃ e, r.result = .ok (some e) := by
  obtain ⟨result, reports⟩ := r
  rcases result with f | _ | e <;> simp [accepted, Except.toOption]

section Run
variable {ι : Type} {s : PasswordHistorySettings} {c : Comparator} {o : Owner}
  {password : ι → String} {now : ι → Instant} {w : Changes ι} {stages : ι → Stage}

/-- Each change stands at a stage, and the store is in order. -/
structure Standing (s : PasswordHistorySettings) (c : Comparator) (o : Owner)
    (password : ι → String) (now : ι → Instant) (w : Changes ι) (stages : ι → Stage) : Prop where
  keyed : w.store.1.Keyed
  ordered : w.store.1.entries.Ordered
  programs : ∀ i, w.programs i = (stages i).calls s c o (password i) (now i)
  asked : ∀ i, w.asked i = [] ↔ stages i = .waiting

/-- Changes of one user's password that have not begun. -/
def atOnce (s : PasswordHistorySettings) (c : Comparator) (o : Owner) (password : ι → String)
    (now : ι → Instant) (store : Memory) : Changes ι :=
  Shared.start (store, 0) fun i => Guard.add s c o.reference o.userId (password i) (now i)

theorem standing_atOnce {store : Memory} (hkeyed : store.Keyed)
    (hordered : store.entries.Ordered) :
    Standing s c o password now (atOnce s c o password now store) fun _ => .waiting :=
  ⟨hkeyed, hordered, fun _ => rfl, fun _ => iff_of_true rfl rfl⟩

theorem Standing.underway_eq (h : Standing s c o password now w stages) (i : ι) :
    underway w i = (stages i).isUnderway := by
  have hasked := h.asked i
  rw [underway, h.programs i]
  generalize stages i = stage at hasked
  cases stage with
  | waiting => rw [hasked.mpr rfl]; rfl
  | removing ids =>
    rw [List.isEmpty_eq_false_iff.mpr fun hnil => by cases hasked.mp hnil]
    cases ids <;> rfl
  | storing e =>
    rw [List.isEmpty_eq_false_iff.mpr fun hnil => by cases hasked.mp hnil]
    rfl
  | ended r => exact Bool.and_false _

variable [DecidableEq ι]

/-- A change that was picked has asked something. -/
theorem Standing.step_asked_ne_nil (hs : s.enabled = true)
    (h : Standing s c o password now w stages) (chances : Nat → Chance) (i : ι) :
    (w.step (Memory.dealt chances) i).asked i ≠ [] := by
  cases hi : w.programs i with
  | ask r next =>
    rw [Shared.step_ask hi]
    simp only [Function.update_self]
    exact List.append_ne_nil_of_right_ne_nil _ (List.cons_ne_nil r [])
  | done r =>
    rw [Shared.step_done hi]
    refine fun hnil => ?_
    have hprogram := h.programs i
    rw [hi, (h.asked i).mp hnil, Stage.calls, Guard.add, if_pos hs] at hprogram
    cases hprogram

/-- A pick moves the change picked to another stage, and the others stay where they are. -/
theorem Standing.step (hs : s.enabled = true) (h : Standing s c o password now w stages)
    (chances : Nat → Chance) (i : ι) :
    ∃ stage', (stages i).Move s o w.store.1 (w.step (Memory.dealt chances) i).store.1 stage' ∧
      Standing s c o password now (w.step (Memory.dealt chances) i)
        (Function.update stages i stage') := by
  obtain ⟨stage', hprogram, hmove⟩ := step_move chances hs h.keyed h.ordered (h.programs i)
  refine ⟨stage', hmove, hmove.keyed h.keyed, hmove.ordered h.ordered, fun j => ?_, fun j => ?_⟩
  · by_cases hji : j = i
    · subst hji
      rw [hprogram, Function.update_self]
    · rw [Shared.step_programs_of_ne hji, Function.update_of_ne hji, h.programs j]
  · by_cases hji : j = i
    · subst hji
      rw [Function.update_self]
      exact iff_of_false (h.step_asked_ne_nil hs chances j) hmove.ne_waiting
    · rw [Shared.step_asked_of_ne hji, Function.update_of_ne hji]
      exact h.asked j

/-- A run stays within bounds, if those changes that store an entry in the end (`S` has them all)
are under way only as far as there is room. Others who were under way for a while count for nothing,
so `S` is known beforehand. -/
theorem run_within [Fintype ι] {S : Finset ι} {room total : Nat} (hs : s.enabled = true)
    (hn : 1 ≤ s.oldPasswords) (h : Standing s c o password now w stages)
    (hw : Within o S room total w.store.1 stages) (chances : Nat → Chance) (picks : List ι)
    (hS : ∀ i, accepted ((w.run (Memory.dealt chances) picks).programs i) = true → i ∈ S)
    (hroom : ∀ before, before <+: picks → s.oldPasswords - 1 +
      (S.filter (underway (w.run (Memory.dealt chances) before) ·)).card ≤ room) :
    ∃ stages', Standing s c o password now (w.run (Memory.dealt chances) picks) stages' ∧
      Within o S room total (w.run (Memory.dealt chances) picks).store.1 stages' := by
  induction picks generalizing w stages with
  | nil => exact ⟨stages, h, hw⟩
  | cons i rest ih =>
    obtain ⟨stage', hmove, hafter⟩ := h.step hs chances i
    refine ih hafter ?_ hS fun before hbefore =>
      hroom (i :: before) (List.cons_prefix_cons.mpr ⟨rfl, hbefore⟩)
    refine hw.move hn h.keyed h.ordered hmove (fun r e hended hr => hS i ?_) ?_
    · have hprogram := hafter.programs i
      rw [Function.update_self, hended] at hprogram
      rw [Shared.run, Shared.run_done hprogram]
      exact accepted_done.mpr ⟨e, hr⟩
    · simp only [← hafter.underway_eq]
      exact hroom [i] (List.cons_prefix_cons.mpr ⟨rfl, List.nil_prefix⟩)

end Run

/-- Nothing is left to remove by a change that has ended. -/
theorem Stage.toRemove_of_isDone {s : PasswordHistorySettings} {c : Comparator} {o : Owner}
    {password : String} {now : Instant} {stage : Stage}
    (h : (stage.calls s c o password now).isDone = true) : stage.toRemove = [] := by
  cases stage with
  | removing ids =>
    cases ids with
    | nil => rfl
    | cons id rest => cases h
  | waiting | storing | ended => rfl

/-! ### The bound -/

section Bound
variable {ι : Type} [Fintype ι] [DecidableEq ι] {s : PasswordHistorySettings} {c : Comparator}
  {o : Owner} {password : ι → String} {now : ι → Instant} {chances : Nat → Chance}
  {store : Memory} {picks : List ι}

/-- If no more than `n` of the changes that store an entry are under way at one time, then a user
ends with at most `n` entries more than fit beside a new one, and has at most as many entries more
than before as changes stored one. -/
theorem held_le_of_crowd {n : Nat} (hs : s.enabled = true) (hn : 1 ≤ s.oldPasswords)
    (hkeyed : store.Keyed) (hordered : store.entries.Ordered)
    (hheld : (store.held o).length ≤ s.oldPasswords - 1 + n)
    (hend : ∀ i, (((atOnce s c o password now store).run (Memory.dealt chances)
      picks).programs i).isDone = true)
    (hcrowd : ∀ before, before <+: picks → (Finset.univ.filter fun i =>
      accepted (((atOnce s c o password now store).run (Memory.dealt chances) picks).programs i) &&
        underway ((atOnce s c o password now store).run (Memory.dealt chances) before) i).card ≤ n) :
    let after := (atOnce s c o password now store).run (Memory.dealt chances) picks
    (after.store.1.held o).length ≤ s.oldPasswords - 1 + n ∧
      (after.store.1.held o).length ≤
        (store.held o).length + (Finset.univ.filter fun i => accepted (after.programs i)).card := by
  intro after
  have hstart : Within o (Finset.univ.filter fun i => accepted (after.programs i))
      (s.oldPasswords - 1 + n)
      ((store.held o).length + (Finset.univ.filter fun i => accepted (after.programs i)).card)
      store fun _ : ι => .waiting := by
    constructor
    · have hnone : (Finset.univ.filter fun i => accepted (after.programs i)).filter
          (fun _ => Stage.isUnderway .waiting = true) = ∅ := Finset.filter_false _
      rw [hnone, Finset.card_empty, Nat.add_zero]
      exact Nat.le_trans (List.length_filter_le _ _) hheld
    · exact Nat.add_le_add_left (Finset.card_filter_le _ _) _
  obtain ⟨stages, hstanding, hwithin⟩ := run_within hs hn (standing_atOnce hkeyed hordered) hstart
    chances picks (fun i hi => Finset.mem_filter.mpr ⟨Finset.mem_univ i, hi⟩) fun before hbefore => by
      rw [Finset.filter_filter]
      simpa using hcrowd before hbefore
  have hall : spared after.store.1 o stages = after.store.1.held o := by
    rw [spared, List.filter_eq_self]
    intro e _
    refine decide_eq_true fun i => ?_
    rw [Stage.toRemove_of_isDone (hstanding.programs i ▸ hend i)]
    exact List.not_mem_nil
  exact ⟨hall ▸ Nat.le_trans (Nat.le_add_right _ _) hwithin.room,
    Nat.le_trans (Nat.le_add_right _ _) hwithin.total⟩

end Bound

/-- **Two changes at once leave at most one entry too many.** Two changes of the password of a user
who has no more entries than are remembered, call by call in any order: once both have ended, the
user has at most one entry more than are remembered; and has that one only if he had all of them
or one less, both changes stored an entry, and at some time both were between listing his entries
and storing. -/
theorem two_changes_keep_bound (s : PasswordHistorySettings) (c : Comparator) (o : Owner)
    (password : Fin 2 → String) (now : Fin 2 → Instant) (chances : Nat → Chance) (store : Memory)
    (picks : List (Fin 2)) (hs : s.enabled = true) (hn : 1 ≤ s.oldPasswords)
    (hkeyed : store.Keyed) (hordered : store.entries.Ordered)
    (hheld : (store.held o).length ≤ s.oldPasswords)
    (hend : ∀ i, (((atOnce s c o password now store).run (Memory.dealt chances)
      picks).programs i).isDone = true) :
    let start := atOnce s c o password now store
    let after := start.run (Memory.dealt chances) picks
    (after.store.1.held o).length ≤ s.oldPasswords + 1 ∧
      (s.oldPasswords < (after.store.1.held o).length →
        s.oldPasswords ≤ (store.held o).length + 1 ∧ (∀ i, accepted (after.programs i) = true) ∧
          ∃ before, before <+: picks ∧
            ∀ i, underway (start.run (Memory.dealt chances) before) i = true) := by
  intro start after
  have hpair (S : Finset (Fin 2)) : S.card ≤ 2 := S.card_le_univ
  obtain ⟨hle, htotal⟩ : (after.store.1.held o).length ≤ s.oldPasswords - 1 + 2 ∧
      (after.store.1.held o).length ≤ (store.held o).length +
        (Finset.univ.filter fun i => accepted (after.programs i)).card :=
    held_le_of_crowd hs hn hkeyed hordered (by omega) hend fun before _ => hpair _
  refine ⟨by omega, fun hmore => ?_⟩
  obtain ⟨before, hbefore, hboth⟩ : ∃ before, before <+: picks ∧ 1 < (Finset.univ.filter fun i =>
      accepted (after.programs i) &&
        underway (start.run (Memory.dealt chances) before) i).card := by
    by_contra hnone
    have hone : (after.store.1.held o).length ≤ s.oldPasswords - 1 + 1 :=
      (held_le_of_crowd hs hn hkeyed hordered (by omega) hend fun before hbefore =>
        Nat.not_lt.mp fun h => hnone ⟨before, hbefore, h⟩).1
    omega
  have hall := Finset.eq_univ_of_card _ (Nat.le_antisymm (hpair _) hboth)
  have hi (i : Fin 2) : accepted (after.programs i) = true ∧
      underway (start.run (Memory.dealt chances) before) i = true :=
    Bool.and_eq_true_iff.mp (Finset.filter_eq_self.mp hall i (Finset.mem_univ i))
  have := hpair (Finset.univ.filter fun i => accepted (after.programs i))
  exact ⟨by omega, fun i => (hi i).1, before, hbefore, fun i => (hi i).2⟩

/-- One password is remembered, and Alice has one entry: both changes list it, and both remove it.
She ends with two, and both were under way at one time. -/
theorem two_changes_keep_bound_of_one :
    let s : PasswordHistorySettings := { enabled := true, oldPasswords := 1 }
    let plain : Comparator := ⟨fun _ p => .ok p, fun p e => .ok (decide (p = e))⟩
    let alice : Owner := ⟨.domain "acme", "alice"⟩
    let store := ({} : Memory).put ⟨⟨9⟩, alice.reference, alice.userId, "old", .ofMillis 0⟩
    let chances (n : Nat) : Chance := ⟨⟨⟨n⟩, []⟩, id, List.Perm.refl⟩
    let password (i : Fin 2) : String := if i = 0 then "one" else "two"
    let now (i : Fin 2) : Instant := .ofMillis (1 + i.val)
    let start := atOnce s plain alice password now store
    let picks : List (Fin 2) := [0, 1, 1, 0, 0, 0, 1, 1]
    ((start.run (Memory.dealt chances) picks).store.1.held alice).length = 2 ∧
      ∃ before, before <+: picks ∧
        ∀ i, underway (start.run (Memory.dealt chances) before) i = true := by
  intro s plain alice store chances password now start picks
  have hcount : ((start.run (Memory.dealt chances) picks).store.1.held alice).length = 2 := by
    decide +kernel
  obtain ⟨-, hmore⟩ := two_changes_keep_bound s plain alice password now chances store picks rfl
    (by decide) (Memory.keyed_empty.put _) (Table.ordered_empty.insert _ _) (by decide +kernel)
    (by decide +kernel)
  exact ⟨hcount, (hmore (by rw [hcount]; decide)).2.2⟩

/-- One password is remembered, and Alice has no entry: both changes find that there is room, and
she ends with two. -/
theorem two_changes_exceed_bound :
    let s : PasswordHistorySettings := { enabled := true, oldPasswords := 1 }
    let plain : Comparator := ⟨fun _ p => .ok p, fun p e => .ok (decide (p = e))⟩
    let alice : Owner := ⟨.domain "acme", "alice"⟩
    let chances (n : Nat) : Chance := ⟨⟨⟨n⟩, []⟩, id, List.Perm.refl⟩
    let password (i : Fin 2) : String := if i = 0 then "one" else "two"
    let now (i : Fin 2) : Instant := .ofMillis (1 + i.val)
    let start := atOnce s plain alice password now {}
    let after := start.run (Memory.dealt chances) [0, 1, 0, 0, 1, 1]
    (start.store.1.held alice).length ≤ s.oldPasswords ∧
      (∀ i, (after.programs i).isDone = true) ∧
      s.oldPasswords < (after.store.1.held alice).length := by
  decide +kernel

end Gatehouse.History
