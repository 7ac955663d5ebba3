import Gatehouse.Proofs.Counter.SlowWriter

/-! Counters that a success clears.

A success removes the counter of its subject, and whoever counts a failure afterwards begins
anew. A caller who read the counter before, and has not written yet, finds nothing to replace
and reads again, unless another caller has written in the meantime: then it puts the old count
back, in place of the new one (`slow_writer_restores`). That is the only way back.
`success_clears` says that the record of a key then counts no more failures than were written
since, if none of the callers so `restores`. -/
namespace Gatehouse.Counter.Engine

open Store (Shared)

/-! ### What callers have done since -/

/-- A caller's failure has been counted. -/
def counted {α : Type} : Calls (Except Store.Error α) → Bool
  | .done (.ok _) => true
  | _ => false

section Since
variable {n : Nat}
  (w₀ w : Shared Request Request.Answer Memory (Fin n) (Except Store.Error Decision))

/-- The callers whose failure was counted between two moments. -/
def countedSince : Finset (Fin n) :=
  Finset.univ.filter fun i => !counted (w₀.programs i) && counted (w.programs i)

/-- Between two moments a caller did nothing but replace what was stored by the record that it
held at the first of them. -/
def restores (i : Fin n) : Bool :=
  counted (w.programs i) && (nextWrite (w₀.programs i)).any fun e =>
    e.1 == .update && w.asked i == w₀.asked i ++ [.write .update e.2]

end Since

/-! ### One call of one caller -/

section Moves
variable {p : Policy} {k : Key} {now : Instant} {s s' : Memory}
  {calls calls' : Calls (Except Store.Error Decision)}

theorem nextWrite_of_counted (h : counted calls = true) : nextWrite calls = none := by
  cases calls with
  | done result => rfl
  | ask r next => cases h

/-- A failure counts at most one more than what was found. -/
theorem nextRecord_attempts_le (p : Policy) (k : Key) (now : Instant)
    (stored : Option Record) :
    (nextRecord p k now stored).attempts ≤ (stored.map (·.attempts)).getD 0 + 1 := by
  have hlive : ((live p stored now).map (·.attempts)).getD 0 ≤
      (stored.map (·.attempts)).getD 0 := by
    cases hl : live p stored now with
    | none => exact Nat.zero_le _
    | some r' =>
      obtain ⟨r, hstored, hr⟩ := Option.bind_eq_some_iff.mp hl
      rw [hstored]
      exact Nat.le_of_eq (Policy.refresh_attempts hr)
  rw [nextRecord, Policy.applyFailure_attempts]
  exact Nat.le_trans (Policy.countUp_le _) (Nat.add_le_add_right hlive 1)

/-- A move writes what its caller was about to write, and its failure is counted; or it leaves
the store as it is, and what the caller then is about to write counts on top of that. -/
theorem Move.writes_or_not (h : Move p k now s calls s' calls') :
    (∃ mode r, nextWrite calls = some (mode, r) ∧ s' = s.put r ∧ counted calls = false ∧
        counted calls' = true) ∨
      s' = s ∧ counted calls' = counted calls ∧
        ∀ mode r, nextWrite calls' = some (mode, r) → r = nextRecord p k now (s.find? k) := by
  cases h with
  | reads round left =>
    refine .inr ⟨rfl, ?_, ?_⟩
    · rw [rounds_eq]
      rfl
    · intro mode r hr
      rw [nextWrite_writing] at hr
      cases hr
      rfl
  | writes round left stored _ => exact .inl ⟨_, _, nextWrite_writing .., rfl, rfl, rfl⟩
  | startsOver round left stored _ =>
    refine .inr ⟨rfl, ?_, ?_⟩
    · rw [rounds_eq]
      rfl
    · intro mode r hr
      rw [nextWrite_rounds] at hr
      cases hr
  | givesUp round stored e _ => exact .inr ⟨rfl, rfl, fun _ _ hr => by cases hr⟩
  | rests result => exact .inr ⟨rfl, rfl, fun _ _ hr => by cases hr⟩

end Moves

/-! ### All callers together -/

section Run
variable {n : Nat} {p : Policy} {k : Key} {now : Instant}
  {w₀ w : Shared Request Request.Answer Memory (Fin n) (Except Store.Error Decision)} {i j : Fin n}

/-- Callers on one key: what they are about to write goes under it. -/
structure Underway (p : Policy) (k : Key) (now : Instant)
    (w : Shared Request Request.Answer Memory (Fin n) (Except Store.Error Decision)) : Prop where
  keyed : w.store.Keyed
  places : ∀ i, Place p k now (w.programs i)
  keys : ∀ i mode r, nextWrite (w.programs i) = some (mode, r) →
    r.key.storageKey = k.storageKey

theorem Underway.step (h : Underway p k now w) (i : Fin n) :
    Underway p k now (w.step Memory.answer i) := by
  have hmove := step_move (h.places i)
  have hkeyed : (w.step Memory.answer i).store.Keyed ∧
      ∀ mode r, nextWrite ((w.step Memory.answer i).programs i) = some (mode, r) →
        r.key.storageKey = k.storageKey := by
    rcases hmove.writes_or_not with ⟨mode, r, -, hstore, -, hdone⟩ | ⟨hstore, -, hnext⟩
    · refine ⟨hstore ▸ h.keyed.put r, fun mode r hr => ?_⟩
      rw [nextWrite_of_counted hdone] at hr
      cases hr
    · refine ⟨hstore ▸ h.keyed, fun mode r hr => ?_⟩
      rw [hnext mode r hr]
      exact nextRecord_storageKey fun _ hfound => h.keyed.find? hfound
  refine ⟨hkeyed.1, ?_, ?_⟩
  · exact Shared.step_programs (P := fun _ => Place p k now) hmove.place h.places
  · exact Shared.step_programs (P := fun _ calls => ∀ mode r, nextWrite calls = some (mode, r) →
      r.key.storageKey = k.storageKey) hkeyed.2 h.keys

theorem underway_start {s : Memory} (hp : p.isMisconfigured = false) (hs : s.Keyed) :
    Underway p k now (Shared.start s fun _ : Fin n => recordFailure p k now) := by
  refine ⟨hs, fun _ => place_recordFailure hp, fun _ _ _ hr => ?_⟩
  cases (nextWrite_recordFailure p k now hp).symm.trans hr

/-- A caller who is about to write asks for that when it is picked. -/
theorem step_asked_of_nextWrite {mode : Write} {r : Record}
    (h : nextWrite (w.programs i) = some (mode, r)) :
    (w.step Memory.answer i).asked i = w.asked i ++ [.write mode r] := by
  cases hi : w.programs i with
  | done a =>
    rw [hi] at h
    cases h
  | ask r' next =>
    rw [hi] at h
    rw [Shared.step_ask hi]
    simp only [Function.update_self]
    cases r' with
    | write mode' r' =>
      cases h
      rfl
    | find | delete => cases h

/-! ### Who was counted since -/

theorem countedSince_step_of_eq
    (h : counted ((w.step Memory.answer i).programs i) = counted (w.programs i)) :
    countedSince w₀ (w.step Memory.answer i) = countedSince w₀ w := by
  refine Finset.filter_congr fun j _ => ?_
  by_cases hj : j = i
  · rw [hj, h]
  · rw [Shared.step_programs_of_ne hj]

theorem card_countedSince_step (h₀ : counted (w₀.programs i) = false)
    (hbefore : counted (w.programs i) = false)
    (hafter : counted ((w.step Memory.answer i).programs i) = true) :
    (countedSince w₀ (w.step Memory.answer i)).card = (countedSince w₀ w).card + 1 := by
  have hinsert : countedSince w₀ (w.step Memory.answer i) = insert i (countedSince w₀ w) := by
    ext j
    by_cases hj : j = i
    · subst hj
      simp [countedSince, h₀, hafter]
    · simp [countedSince, hj, Shared.step_programs_of_ne hj]
  rw [hinsert, Finset.card_insert_of_notMem]
  simp [countedSince, hbefore]

/-- A caller whose failure has been counted does nothing more. -/
theorem step_of_counted (h : counted (w.programs i) = true) : w.step Memory.answer i = w := by
  cases hi : w.programs i with
  | done a => exact Shared.step_done hi
  | ask r next =>
    rw [hi] at h
    cases h

/-- Who has put back what it held has done so for good. -/
theorem restores_step (h : restores w₀ w j = true) (i : Fin n) :
    restores w₀ (w.step Memory.answer i) j = true := by
  by_cases hj : j = i
  · have hcounted : counted (w.programs j) = true := (Bool.and_eq_true_iff.mp h).1
    rw [← hj, step_of_counted hcounted]
    exact h
  · rw [restores, Shared.step_programs_of_ne hj, Shared.step_asked_of_ne hj]
    exact h

/-! ### After the counter was cleared -/

/-- What is stored counts no more failures than were counted since `w₀`, and what a caller is
about to write at most one more, unless the caller has done nothing since. -/
structure Cleared (k : Key)
    (w₀ w : Shared Request Request.Answer Memory (Fin n) (Except Store.Error Decision)) : Prop where
  stored : ∀ r ∈ w.store.find? k, r.attempts ≤ (countedSince w₀ w).card
  pending : ∀ i mode r, nextWrite (w.programs i) = some (mode, r) →
    r.attempts ≤ (countedSince w₀ w).card + 1 ∨
      mode = .update ∧ w.programs i = w₀.programs i ∧ w.asked i = w₀.asked i
  kept : ∀ i, counted (w₀.programs i) = true → counted (w.programs i) = true

/-- What the others are about to write stays within bounds that do not fall. -/
theorem Cleared.pending_of_ne (h : Cleared k w₀ w) (hj : j ≠ i)
    (hle : (countedSince w₀ w).card ≤ (countedSince w₀ (w.step Memory.answer i)).card)
    {mode : Write} {r : Record}
    (hr : nextWrite ((w.step Memory.answer i).programs j) = some (mode, r)) :
    r.attempts ≤ (countedSince w₀ (w.step Memory.answer i)).card + 1 ∨
      mode = .update ∧ (w.step Memory.answer i).programs j = w₀.programs j ∧
        (w.step Memory.answer i).asked j = w₀.asked j := by
  rw [Shared.step_programs_of_ne hj] at hr ⊢
  rw [Shared.step_asked_of_ne hj]
  exact (h.pending j mode r hr).imp_left fun hbound =>
    Nat.le_trans hbound (Nat.add_le_add_right hle 1)

/-- A call keeps the bounds, or it is the first since `w₀` of a caller who puts back what it
held. -/
theorem Cleared.step (h : Cleared k w₀ w) (hw : Underway p k now w) (i : Fin n) :
    restores w₀ (w.step Memory.answer i) i = true ∨ Cleared k w₀ (w.step Memory.answer i) := by
  rcases (step_move (hw.places i)).writes_or_not with
    ⟨mode, r, hwrite, hstore, hbefore, hafter⟩ | ⟨hstore, hsame, hnext⟩
  · have h₀ : counted (w₀.programs i) = false := by
      refine Bool.eq_false_iff.mpr fun hcounted => ?_
      rw [h.kept i hcounted] at hbefore
      cases hbefore
    have hcard := card_countedSince_step h₀ hbefore hafter
    rcases h.pending i mode r hwrite with hle | ⟨rfl, hprogram, hasked⟩
    · refine .inr ⟨fun r' hr' => ?_, fun j mode' r' hr' => ?_, ?_⟩
      · rw [hstore, Memory.find?_put _ (hw.keys i mode r hwrite).symm] at hr'
        cases hr'
        rw [hcard]
        exact hle
      · by_cases hj : j = i
        · rw [hj, nextWrite_of_counted hafter] at hr'
          cases hr'
        · exact h.pending_of_ne hj (by omega) hr'
      · exact Shared.step_programs (P := fun j calls => counted (w₀.programs j) = true →
          counted calls = true) (fun _ => hafter) h.kept
    · left
      simp [restores, hafter, ← hprogram, hwrite, step_asked_of_nextWrite hwrite, hasked]
  · have hsince : countedSince w₀ (w.step Memory.answer i) = countedSince w₀ w :=
      countedSince_step_of_eq hsame
    refine .inr ⟨fun r hr => ?_, fun j mode r hr => ?_, ?_⟩
    · rw [hstore] at hr
      rw [hsince]
      exact h.stored r hr
    · by_cases hj : j = i
      · subst hj
        left
        rw [hsince, hnext mode r hr]
        refine Nat.le_trans (nextRecord_attempts_le p k now _) (Nat.add_le_add_right ?_ 1)
        cases hfind : w.store.find? k with
        | none => exact Nat.zero_le _
        | some r => exact h.stored r hfind
      · exact h.pending_of_ne hj (Nat.le_of_eq (by rw [hsince])) hr
    · exact Shared.step_programs (P := fun j calls => counted (w₀.programs j) = true →
        counted calls = true) (fun h₀ => hsame.trans (h.kept i h₀)) h.kept

/-- At the moment at which a counter is cleared, nothing is stored and nobody was counted. -/
theorem cleared_self (hw : Underway p k now w) (hnone : w.store.find? k = none) :
    Cleared k w w := by
  refine ⟨fun r hr => ?_, fun i mode r hr => ?_, fun i h => h⟩
  · rw [hnone] at hr
    cases hr
  · have hplace := hw.places i
    generalize hcalls : w.programs i = calls at hr hplace
    cases hplace with
    | reading round left =>
      rw [nextWrite_rounds] at hr
      cases hr
    | holding round left stored =>
      rw [nextWrite_writing] at hr
      cases stored with
      | none =>
        cases hr
        exact .inl (Nat.le_trans (nextRecord_attempts_le p k now none) (Nat.le_add_left _ _))
      | some r₀ =>
        cases hr
        exact .inr ⟨rfl, rfl, rfl⟩
    | returned result => cases hr

/-- **A success clears all failures but those that slow writers put back.** Any number of
callers count a failure on one key, over any store, and in between a success clears the
counter. Whatever is stored under the key afterwards counts no more failures than were counted
since, unless one of the callers had read the counter before the success and has, with its
first call since, replaced another record by what it had made of the old one. -/
theorem success_clears {n : Nat} (q : LoginPolicy) (k : Key) (now : Instant) (s : Memory)
    (hs : s.Keyed) (before after : List (Fin n)) :
    let w := (Shared.start s fun _ : Fin n => recordFailure (.login q) k now).run Memory.answer before
    let w₀ := { w with store := (w.store.run (recordSuccess (.login q) k)).2 }
    let w' := w₀.run Memory.answer after
    (∀ i, restores w₀ w' i = false) →
      ∀ r, w'.store.find? k = some r → r.attempts ≤ (countedSince w₀ w').card := by
  intro w w₀ w' hnone r hr
  have hw : Underway (.login q) k now w :=
    Shared.run_invariant _ (fun _ i h => h.step i) (underway_start rfl hs) before
  have hstore : w₀.store = w.store.erase k := congrArg Prod.snd (run_recordSuccess rfl)
  have hw₀ : Underway (.login q) k now w₀ := ⟨hstore ▸ hw.keyed.erase k, hw.places, hw.keys⟩
  have hcleared : Cleared k w₀ w₀ := cleared_self hw₀ (hstore ▸ Memory.find?_erase _ k)
  have hafter : Underway (.login q) k now w' ∧
      ((∃ j, restores w₀ w' j = true) ∨ Cleared k w₀ w') := by
    refine Shared.run_invariant
      (fun w => Underway (.login q) k now w ∧ ((∃ j, restores w₀ w j = true) ∨ Cleared k w₀ w))
      ?_ ⟨hw₀, .inr hcleared⟩ after
    rintro w i ⟨hw, ⟨j, hj⟩ | h⟩
    · exact ⟨hw.step i, .inl ⟨j, restores_step hj i⟩⟩
    · exact ⟨hw.step i, (h.step hw i).imp_left fun hi => ⟨i, hi⟩⟩
  rcases hafter.2 with ⟨j, hj⟩ | h
  · rw [hnone j] at hj
    cases hj
  · exact h.stored r hr

end Run

/-- A caller who had read the counter before the success finds it gone when it writes, reads
again and begins anew; another counts on top of that. -/
theorem success_clears_held_count :
    let q : LoginPolicy := ⟨5, .seconds 60, .seconds 600⟩
    let k : Key := ⟨.login, { reference := .domain "acme", subject := "alice" }⟩
    let w := (Shared.start {} fun _ : Fin 3 => recordFailure (.login q) k .epoch).run Memory.answer
      [0, 0, 1]
    let w₀ := { w with store := (w.store.run (recordSuccess (.login q) k)).2 }
    let w' := w₀.run Memory.answer [1, 1, 1, 2, 2]
    let counted : Record := ⟨k, 2, 0, true, .epoch, .epoch, .epoch, .ofMillis 600000⟩
    nextWrite (w₀.programs 1) = some (.update, counted) ∧ w'.store.find? k = some counted ∧
      2 ≤ (countedSince w₀ w').card := by
  intro q k w w₀ w' counted
  have hfind : w'.store.find? k = some counted := by decide +kernel
  exact ⟨by decide +kernel, hfind, success_clears q k .epoch {} Memory.keyed_empty [0, 0, 1]
    [1, 1, 1, 2, 2] (by decide +kernel) counted hfind⟩

/-- Two failures are counted, and a caller has read them, when a success clears the counter.
Another caller counts a first failure, and then the slow one replaces it by a third. -/
theorem slow_writer_restores :
    let q : LoginPolicy := ⟨5, .seconds 60, .seconds 600⟩
    let k : Key := ⟨.login, { reference := .domain "acme", subject := "alice" }⟩
    let w := (Shared.start {} fun _ : Fin 4 => recordFailure (.login q) k .epoch).run Memory.answer
      [0, 0, 1, 1, 2]
    let w₀ := { w with store := (w.store.run (recordSuccess (.login q) k)).2 }
    let w' := w₀.run Memory.answer [3, 3, 2]
    (w'.store.find? k).map (·.attempts) = some 3 ∧ (countedSince w₀ w').card = 2 := by
  decide +kernel

end Gatehouse.Counter.Engine
