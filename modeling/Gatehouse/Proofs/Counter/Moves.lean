import Gatehouse.Proofs.Counter.Engine
import Gatehouse.Proofs.Store.Shared

/-! Callers of the engine, one call at a time.

Callers who count failures on one key share the store, and any of them may make its next
call at any time. `Move` lists all that a call can come to where nothing goes wrong: the
caller reads, or its write is served and it returns, or its write is refused because the
record has come or gone in the meantime. `step_move` says that there is nothing else, so
that what callers keep together is shown move by move. -/
namespace Gatehouse.Counter.Engine

open Store (Shared)

/-- Where a caller stands between two of its calls. -/
inductive Place (p : Policy) (k : Key) (now : Instant) :
    Calls (Except Store.Error Decision) → Prop where
  | reading (round left : Nat) : Place p k now (rounds p k now round left)
  | holding (round left : Nat) (stored : Option Record) :
      Place p k now (writing p k now round left stored)
  | returned (result : Except Store.Error Decision) : Place p k now (.done result)

/-- What the next call of a caller comes to: the store and the caller before and after. -/
inductive Move (p : Policy) (k : Key) (now : Instant) (s : Memory) :
    Calls (Except Store.Error Decision) → Memory → Calls (Except Store.Error Decision) → Prop where
  | reads (round left : Nat) :
      Move p k now s (rounds p k now round left) s (writing p k now round left (s.find? k))
  /-- The write finds the key as the caller had found it. -/
  | writes (round left : Nat) (stored : Option Record) :
      stored.isSome = (s.find? (nextRecord p k now stored).key).isSome →
      Move p k now s (writing p k now round left stored) (s.put (nextRecord p k now stored))
        (.done (.ok (p.decide (some (nextRecord p k now stored)) now)))
  /-- The write does not, and the caller starts over. -/
  | startsOver (round left : Nat) (stored : Option Record) :
      stored.isSome ≠ (s.find? (nextRecord p k now stored).key).isSome →
      Move p k now s (writing p k now round (left + 1) stored) s (rounds p k now (round + 1) left)
  /-- The write does not, in the last round. -/
  | givesUp (round : Nat) (stored : Option Record) (e : Store.Error) :
      stored.isSome ≠ (s.find? (nextRecord p k now stored).key).isSome →
      Move p k now s (writing p k now round 0 stored) s (.done (.error e))
  /-- The caller has returned before. -/
  | rests (result : Except Store.Error Decision) : Move p k now s (.done result) s (.done result)

variable {p : Policy} {k : Key} {now : Instant}

/-- A caller begins by reading. -/
theorem place_recordFailure (hp : p.isMisconfigured = false) :
    Place p k now (recordFailure p k now) := by
  rw [recordFailure_eq hp]
  exact .reading 1 2

/-- A move leads from place to place. -/
theorem Move.place {s s' : Memory} {calls calls' : Calls (Except Store.Error Decision)}
    (h : Move p k now s calls s' calls') : Place p k now calls' := by
  cases h with
  | reads round left => exact .holding _ _ _
  | writes round left stored _ => exact .returned _
  | startsOver round left stored _ => exact .reading _ _
  | givesUp round stored e _ => exact .returned _
  | rests result => exact .returned _

/-- A write is served where the key is as the caller had found it, and is refused for
another writer's sake otherwise. -/
theorem answer_write_cases (r : Record) (found : Bool) (s : Memory) :
    found = (s.find? r.key).isSome ∧
        Memory.answer (.write (if found then .update else .create) r) s = (.ok r, s.put r) ∨
      found ≠ (s.find? r.key).isSome ∧ ∃ e : Store.Error, (e.isConflict || e.isNotFound) = true ∧
        Memory.answer (.write (if found then .update else .create) r) s = (.error e, s) := by
  cases found with
  | true =>
    cases hr : s.find? r.key with
    | none =>
      exact .inr ⟨by simp, .notFound .update entityType r.key.storageKey, rfl,
        by simp [Memory.answer, hr]⟩
    | some r' => exact .inl ⟨by simp, by simp [Memory.answer, hr]⟩
  | false =>
    cases hr : s.find? r.key with
    | none => exact .inl ⟨by simp, by simp [Memory.answer, hr]⟩
    | some r' =>
      exact .inr ⟨by simp, .alreadyExists entityType r.key.storageKey, rfl,
        by simp [Memory.answer, hr]⟩

section Step
variable {ι : Type} [DecidableEq ι]
  {w : Shared Request Request.Answer Memory ι (Except Store.Error Decision)} {i : ι}

/-- **What a pick can come to**: one of the moves of the caller picked. -/
theorem step_move (h : Place p k now (w.programs i)) :
    Move p k now w.store (w.programs i) (w.step Memory.answer i).store
      ((w.step Memory.answer i).programs i) := by
  generalize hcalls : w.programs i = calls at h
  cases h with
  | reading round left =>
    have hask := hcalls.trans (rounds_eq p k now round left)
    rw [Shared.step_ask hask]
    simp only [Function.update_self]
    exact .reads round left
  | holding round left stored =>
    rw [Shared.step_ask hcalls]
    simp only [Function.update_self]
    rcases answer_write_cases (nextRecord p k now stored) stored.isSome w.store with
      ⟨hfound, hserved⟩ | ⟨hfound, e, hrace, hrefused⟩
    · rw [hserved]
      exact .writes round left stored hfound
    · rw [hrefused]
      show Move p k now _ _ _ (refused p k now round left e)
      cases left with
      | zero =>
        rw [refused_last p k now round hrace]
        exact .givesUp round stored _ hfound
      | succ left =>
        rw [refused_again p k now round left hrace]
        exact .startsOver round left stored hfound
  | returned result =>
    rw [Shared.step_done hcalls, hcalls]
    exact .rests result

end Step

end Gatehouse.Counter.Engine
