import Gatehouse.Proofs.Counter.Login
import Gatehouse.Proofs.Counter.Moves

/-! Locks and slow writers.

A store replaces a record whatever stands there, so a caller who read the counter before
the threshold was reached, and writes only afterwards, puts a record in place of the lock
that lets its subject in again (`slow_writer_reopens`). That is the only way to lose a
lock: `lock_survives` says that once a caller has returned with a refusal, the account
stays locked until the end it was told, however the calls of the others go on, unless one
of them was about to do just that (`reopens`). All that callers read and write meanwhile
agrees on the end of the lock (`Counting`), so whoever reads the lock writes it again. -/
namespace Gatehouse.Counter

open Engine (live nextRecord rounds writing Place Move)
open Store (Shared)

/-! ### Where a caller stands -/

namespace Engine

/-- What a caller has returned, if it has. -/
def returned? {α : Type} : Calls α → Option α
  | .done a => some a
  | .ask _ _ => none

/-- The write that a caller makes with its next call, if that is a write. -/
def nextWrite {α : Type} : Calls α → Option (Write × Record)
  | .ask (.write mode r) _ => some (mode, r)
  | _ => none

/-- Whether a caller is about to replace what is stored by a record that lets its subject
in. -/
def reopens {α : Type} (calls : Calls α) : Bool :=
  (nextWrite calls).any fun e => e.1 == .update && e.2.allowRequest

section NextWrite
variable (p : Policy) (k : Key) (now : Instant) (round left : Nat)

theorem nextWrite_rounds : nextWrite (rounds p k now round left) = none := by
  rw [rounds_eq]
  rfl

theorem nextWrite_recordFailure (hp : p.isMisconfigured = false) :
    nextWrite (recordFailure p k now) = none := by
  rw [recordFailure_eq hp]
  exact nextWrite_rounds ..

theorem nextWrite_writing (stored : Option Record) :
    nextWrite (writing p k now round left stored) =
      some (if stored.isSome then .update else .create, nextRecord p k now stored) := rfl

/-- A caller that has nothing to write reopens nothing. -/
theorem reopens_of_nextWrite {α : Type} {calls : Calls α} (h : nextWrite calls = none) :
    reopens calls = false := by
  rw [reopens, h]
  rfl

end NextWrite

end Engine

open Engine (returned? nextWrite reopens)

namespace LoginPolicy
variable (q : LoginPolicy) (k : Key) (now : Instant) (u : Instant)

/-! ### What all callers agree on -/

/-- What is found under the key, where a lock kept or begun at the instant ends at `u`. -/
structure Fits (stored : Option Record) : Prop where
  lockEnd : lockEnd q now stored = u
  key : ∀ r ∈ stored, r.key.storageKey = k.storageKey
  range : ∀ r ∈ stored, r.expireAt ≤ .latest

/-- What is found under the key, where it is a lock until `u` that a failure at the instant
keeps. -/
structure Locked (r : Record) : Prop where
  locked : r.allowRequest = false
  expireAt : r.expireAt = u
  again : (nextRecord (.login q) k now (some r)).allowRequest = false

/-- A record that a failure may write. -/
structure Written (r : Record) : Prop where
  fits : q.Fits k now u (some r)
  locked : r.allowRequest = false → q.Locked k now u r

variable {ι : Type}

/-- All callers together. -/
structure Counting (w : Shared Request Request.Answer Memory ι (Except Store.Error Decision)) :
    Prop where
  keyed : w.store.Keyed
  stored : q.Fits k now u (w.store.find? k)
  places : ∀ i, Place (.login q) k now (w.programs i)
  writes : ∀ i mode r, nextWrite (w.programs i) = some (mode, r) → q.Written k now u r

variable {q k now u} {stored : Option Record} {r : Record} {s s' : Memory}
  {calls calls' : Calls (Except Store.Error Decision)}

/-- A failure on top of what fits may be written. -/
theorem Fits.written (h : q.Fits k now u stored) (hq : (Policy.login q).WellConfigured)
    (hnow : now ≤ .latest) : q.Written k now u (nextRecord (.login q) k now stored) := by
  have hafter := nextRecord_cases q k now stored
  refine ⟨⟨?_, ?_, ?_⟩, fun hlocked => ⟨hlocked, ?_, ?_⟩⟩
  · rw [hafter.lockEnd_eq, h.lockEnd]
  · intro r hr
    cases hr
    exact Engine.nextRecord_storageKey h.key
  · intro r hr
    cases hr
    exact hafter.expireAt_le hnow h.range
  · rw [hafter.expireAt_eq hlocked, h.lockEnd]
  · exact nextRecord_locked_again hq hnow h.range hlocked

theorem Written.find?_put (h : q.Written k now u r) (s : Memory) : (s.put r).find? k = some r :=
  Memory.find?_put s (h.fits.key r rfl).symm

/-- Every move of a caller leaves what all agree on. -/
theorem move_counting (hq : (Policy.login q).WellConfigured) (hnow : now ≤ .latest)
    (h : Move (.login q) k now s calls s' calls') (hkeyed : s.Keyed)
    (hstored : q.Fits k now u (s.find? k))
    (hwrites : ∀ mode r, nextWrite calls = some (mode, r) → q.Written k now u r) :
    s'.Keyed ∧ q.Fits k now u (s'.find? k) ∧ Place (.login q) k now calls' ∧
      ∀ mode r, nextWrite calls' = some (mode, r) → q.Written k now u r := by
  cases h with
  | reads round left =>
    refine ⟨hkeyed, hstored, .holding _ _ _, ?_⟩
    intro mode r hr
    rw [Engine.nextWrite_writing] at hr
    cases hr
    exact hstored.written hq hnow
  | writes round left stored hfound =>
    have hwritten := hwrites _ _ (Engine.nextWrite_writing _ _ _ _ _ stored)
    refine ⟨hkeyed.put _, ?_, .returned _, ?_⟩
    · rw [hwritten.find?_put]
      exact hwritten.fits
    · intro mode r hr
      cases hr
  | startsOver round left stored _ =>
    refine ⟨hkeyed, hstored, .reading _ _, ?_⟩
    intro mode r hr
    rw [Engine.nextWrite_rounds] at hr
    cases hr
  | givesUp round stored e _ =>
    refine ⟨hkeyed, hstored, .returned _, ?_⟩
    intro mode r hr
    cases hr
  | rests result => exact ⟨hkeyed, hstored, .returned _, hwrites⟩

/-- A lock that is stored is kept by every move of a caller who does not reopen it, and
makes no caller one who would. -/
theorem move_locked (h : Move (.login q) k now s calls s' calls')
    (hwrites : ∀ mode r, nextWrite calls = some (mode, r) → q.Written k now u r)
    (hlocked : ∃ r, s.find? k = some r ∧ q.Locked k now u r) (hkeeps : reopens calls = false) :
    (∃ r, s'.find? k = some r ∧ q.Locked k now u r) ∧ reopens calls' = false := by
  cases h with
  | reads round left =>
    refine ⟨hlocked, ?_⟩
    obtain ⟨r, hr, hlock⟩ := hlocked
    rw [reopens, Engine.nextWrite_writing, hr]
    simp [hlock.again]
  | writes round left stored hfound =>
    have hwritten := hwrites _ _ (Engine.nextWrite_writing _ _ _ _ _ stored)
    -- There is a record, so the caller had found one and replaces it.
    have hsome : stored.isSome = true := by
      obtain ⟨r, hr, _⟩ := hlocked
      rw [hfound, Memory.find?_congr s (hwritten.fits.key _ rfl), hr]
      rfl
    have hclosed : (nextRecord (.login q) k now stored).allowRequest = false := by
      rw [reopens, Engine.nextWrite_writing, hsome] at hkeeps
      simpa using hkeeps
    exact ⟨⟨_, hwritten.find?_put s, hwritten.locked hclosed⟩, rfl⟩
  | startsOver round left stored _ =>
    exact ⟨hlocked, Engine.reopens_of_nextWrite (Engine.nextWrite_rounds _ _ _ _ _)⟩
  | givesUp round stored e _ => exact ⟨hlocked, rfl⟩
  | rests result => exact ⟨hlocked, hkeeps⟩

/-! ### Any interleaving -/

section Run
variable [DecidableEq ι]
  {w : Shared Request Request.Answer Memory ι (Except Store.Error Decision)} {i : ι}

theorem Counting.step (h : q.Counting k now u w) (hq : (Policy.login q).WellConfigured)
    (hnow : now ≤ .latest) (i : ι) : q.Counting k now u (w.step Memory.answer i) := by
  obtain ⟨hkeyed, hstored, hplace, hwrites⟩ :=
    move_counting hq hnow (Engine.step_move (h.places i)) h.keyed h.stored (h.writes i)
  refine ⟨hkeyed, hstored, ?_, ?_⟩
  · exact Shared.step_programs (P := fun _ => Place (.login q) k now) hplace h.places
  · exact Shared.step_programs (P := fun _ calls => ∀ mode r, nextWrite calls = some (mode, r) →
      q.Written k now u r) hwrites h.writes

theorem Counting.run (h : q.Counting k now u w) (hq : (Policy.login q).WellConfigured)
    (hnow : now ≤ .latest) (picks : List ι) : q.Counting k now u (w.run Memory.answer picks) :=
  Shared.run_invariant _ (fun _ i h => h.step hq hnow i) h picks

/-- A lock outlasts any calls of callers who do not reopen it. -/
theorem Counting.run_locked (h : q.Counting k now u w) (hq : (Policy.login q).WellConfigured)
    (hnow : now ≤ .latest) (hlocked : ∃ r, w.store.find? k = some r ∧ q.Locked k now u r)
    {picks : List ι} (hkeep : ∀ j ∈ picks, reopens (w.programs j) = false) :
    ∃ r, (w.run Memory.answer picks).store.find? k = some r ∧ q.Locked k now u r := by
  induction picks generalizing w with
  | nil => exact hlocked
  | cons i rest ih =>
    obtain ⟨hlocked', hkeeps⟩ := move_locked (Engine.step_move (h.places i)) (h.writes i) hlocked
      (hkeep i List.mem_cons_self)
    refine ih (h.step hq hnow i) hlocked' fun j hj => ?_
    by_cases hji : j = i
    · rw [hji]
      exact hkeeps
    · rw [Shared.step_programs_of_ne hji]
      exact hkeep j (List.mem_cons_of_mem _ hj)

/-- A caller who returns with a refusal has just written the lock that it tells of. -/
theorem Counting.locked_of_denied (h : q.Counting k now u w) {d : Decision}
    (hgoes : returned? (w.programs i) = none)
    (hreturns : returned? ((w.step Memory.answer i).programs i) = some (.ok d))
    (hdenied : d.allowed = false) :
    d.record.bind (·.lockedUntil) = some u ∧
      ∃ r, (w.step Memory.answer i).store.find? k = some r ∧ q.Locked k now u r := by
  have hmove := Engine.step_move (h.places i)
  have hwrites := h.writes i
  generalize (w.step Memory.answer i).store = s' at hmove ⊢
  generalize w.programs i = calls, (w.step Memory.answer i).programs i = calls' at *
  cases hmove with
  | reads round left => cases hreturns
  | writes round left stored hfound =>
    cases hreturns
    have hwritten := hwrites _ _ (Engine.nextWrite_writing _ _ _ _ _ stored)
    have hlock := hwritten.locked hdenied
    refine ⟨?_, _, hwritten.find?_put _, hlock⟩
    simp [Policy.decide, Policy.decideLive, Record.lockedUntil, hlock.locked, hlock.expireAt]
  | startsOver round left stored _ =>
    rw [Engine.rounds_eq] at hreturns
    cases hreturns
  | givesUp round stored e _ => cases hreturns
  | rests result => cases hgoes

end Run

/-- Before the first call all agree, whatever is stored. -/
theorem counting_start (hs : s.Keyed) (hrange : ∀ r ∈ s.find? k, r.expireAt ≤ .latest) :
    q.Counting k now (lockEnd q now (s.find? k))
      (Shared.start s fun _ : ι => Engine.recordFailure (.login q) k now) where
  keyed := hs
  stored := ⟨rfl, fun _ hr => hs.find? hr, hrange⟩
  places _ := Engine.place_recordFailure rfl
  writes _ _ _ hr := by
    cases (Engine.nextWrite_recordFailure (.login q) k now rfl).symm.trans hr

/-- An account under a lock is refused until the end of the lock. -/
theorem Locked.run_evaluate (h : q.Locked k now u r) (hfind : s.find? k = some r) {t : Instant}
    (ht : t < u) :
    ∃ d, (s.run (Engine.evaluate (.login q) k t)).1 = .ok d ∧ d.allowed = false ∧
      d.record.bind (·.lockedUntil) = some u := by
  have hlasts : t < r.expireAt := by
    rw [h.expireAt]
    exact ht
  rw [Engine.run_evaluate rfl, hfind, live_some, if_pos hlasts]
  refine ⟨_, rfl, h.locked, ?_⟩
  simp [Policy.decide, Policy.decideLive, Record.lockedUntil, h.locked, h.expireAt]

/-- **A lock survives all but slow writers.** Any number of callers count a failure on one
key at one instant, over any store. Once one of them has returned with a refusal, it has
told the end of a lock, and every evaluation before that end refuses, after any further
calls of the callers, unless one of these callers had by then read a record below the
threshold and was about to write one in place of the lock. -/
theorem lock_survives {n : Nat} (q : LoginPolicy) (hq : (Policy.login q).WellConfigured) (k : Key)
    (now : Instant) (hnow : now ≤ .latest) (s : Memory) (hs : s.Keyed)
    (hrange : ∀ r ∈ s.find? k, r.expireAt ≤ .latest) (before after : List (Fin n)) (i : Fin n)
    (d : Decision) :
    let w := (Shared.start s fun _ : Fin n => Engine.recordFailure (.login q) k now).run
      Memory.answer before
    let w' := w.step Memory.answer i
    returned? (w.programs i) = none → returned? (w'.programs i) = some (.ok d) →
      d.allowed = false → (∀ j ∈ after, reopens (w'.programs j) = false) →
      ∃ u, d.record.bind (·.lockedUntil) = some u ∧ ∀ t < u,
        ∃ d', ((w'.run Memory.answer after).store.run (Engine.evaluate (.login q) k t)).1 = .ok d' ∧
          d'.allowed = false ∧ d'.record.bind (·.lockedUntil) = some u := by
  intro w w' hgoes hreturns hdenied hkeep
  have hcounting : q.Counting k now (lockEnd q now (s.find? k)) w :=
    (counting_start hs hrange).run hq hnow before
  obtain ⟨htold, hlocked⟩ := hcounting.locked_of_denied hgoes hreturns hdenied
  obtain ⟨r, hfind, hlock⟩ := (hcounting.step hq hnow i).run_locked hq hnow hlocked hkeep
  exact ⟨_, htold, fun t ht => hlock.run_evaluate hfind ht⟩

/-- Two callers have read the counter at two failures. The first locks the account, and the
second, who comes later, writes the same lock. -/
theorem lock_survives_second_lock :
    let q : LoginPolicy := ⟨3, .seconds 60, .seconds 600⟩
    let k : Key := ⟨.login, { reference := .domain "acme", subject := "alice" }⟩
    let w := (Shared.start {} fun _ : Fin 4 => Engine.recordFailure (.login q) k .epoch).run
      Memory.answer [0, 0, 1, 1, 2, 3]
    let w' := w.step Memory.answer 2
    let lock : Record := ⟨k, 3, 0, false, .epoch, .epoch, .epoch, .ofMillis 60000⟩
    returned? (w'.programs 2) = some (.ok ⟨false, 3, 3, none, 60, some lock⟩) ∧
      nextWrite (w'.programs 3) = some (.update, lock) ∧
      ∃ d, ((w'.step Memory.answer 3).store.run
          (Engine.evaluate (.login q) k (.ofMillis 59999))).1 = .ok d ∧ d.allowed = false := by
  intro q k w w' lock
  have hreturns : returned? (w'.programs 2) = some (.ok ⟨false, 3, 3, none, 60, some lock⟩) := by
    decide +kernel
  obtain ⟨u, hu, hdenied⟩ := lock_survives q (by decide) k .epoch (by decide) {}
    Memory.keyed_empty (fun _ h => by cases h) [0, 0, 1, 1, 2, 3] [3] (2 : Fin 4) _
    (by decide +kernel) hreturns rfl (by decide +kernel)
  cases hu
  obtain ⟨d, hd, hallowed, _⟩ := hdenied (.ofMillis 59999) (by decide)
  exact ⟨hreturns, by decide +kernel, d, hd, hallowed⟩

/-- The third failure locks the account, and its caller is told so. Another caller had read
the counter after the first failure and writes last: it counts the second failure, and in
the middle of the lock the account is open. -/
theorem slow_writer_reopens :
    let q : LoginPolicy := ⟨3, .seconds 60, .seconds 600⟩
    let k : Key := ⟨.login, { reference := .domain "acme", subject := "alice" }⟩
    let w := (Shared.start {} fun _ : Fin 4 => Engine.recordFailure (.login q) k .epoch).run
      Memory.answer [0, 0, 1, 2, 2, 3, 3]
    let lock : Record := ⟨k, 3, 0, false, .epoch, .epoch, .epoch, .ofMillis 60000⟩
    let counted : Record := ⟨k, 2, 0, true, .epoch, .epoch, .epoch, .ofMillis 600000⟩
    returned? (w.programs 3) = some (.ok ⟨false, 3, 3, none, 60, some lock⟩) ∧
      ((w.step Memory.answer 1).store.run
        (Engine.evaluate (.login q) k (.ofMillis 30000))).1 =
          .ok ⟨true, 2, 3, none, 0, some counted⟩ := by
  decide +kernel

end LoginPolicy

end Gatehouse.Counter
