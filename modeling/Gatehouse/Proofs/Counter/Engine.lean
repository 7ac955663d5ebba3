import Gatehouse.Counter.Engine
import Gatehouse.Proofs.Counter.Memory
import Gatehouse.Proofs.Counter.Policy

/-! The engine over a store in memory where nothing goes wrong.

Each of its calls then is a function of what the store has under the key: an evaluation
reads it and changes nothing (`run_evaluate`), a failure decides about the next record
and puts it there in one round (`run_recordFailure`), and a reset removes it.

A round of `recordFailure` is taken apart into its two calls (`rounds_eq`), so that what
other writers do between them can be told: the find, after which the next record is known,
and the write (`writing`), whose refusal may start another round (`refused`). -/
namespace Gatehouse.Counter.Engine

/-- The record that a failure leaves, where `stored` was found under the key. -/
def nextRecord (p : Policy) (k : Key) (now : Instant) (stored : Option Record) : Record :=
  p.applyFailure (live p stored now) k now

variable {p : Policy} {k : Key} {now : Instant} {s : Memory}

theorem live_key {stored : Option Record} {r : Record} (h : r ∈ live p stored now) :
    ∃ r₀ ∈ stored, r.key = r₀.key := by
  obtain ⟨r₀, hstored, hlive⟩ := Option.bind_eq_some_iff.mp h
  exact ⟨r₀, hstored, Policy.refresh_key hlive⟩

/-- The record that a failure leaves has the key of what was found, or the key asked about. -/
theorem nextRecord_key_cases (p : Policy) (k : Key) (now : Instant) (stored : Option Record) :
    (nextRecord p k now stored).key = k ∨
      ∃ r ∈ stored, (nextRecord p k now stored).key = r.key := by
  rw [nextRecord, Policy.applyFailure_key]
  cases hl : live p stored now with
  | none => exact .inl rfl
  | some r => exact .inr (live_key hl)

theorem nextRecord_key {stored : Option Record} (h : ∀ r ∈ stored, r.key = k) :
    (nextRecord p k now stored).key = k := by
  rcases nextRecord_key_cases p k now stored with hkey | ⟨r, hr, hkey⟩
  · exact hkey
  · exact hkey.trans (h r hr)

/-- The record that a failure leaves goes where the key asked about stands. -/
theorem nextRecord_storageKey {stored : Option Record}
    (h : ∀ r ∈ stored, r.key.storageKey = k.storageKey) :
    (nextRecord p k now stored).key.storageKey = k.storageKey := by
  rcases nextRecord_key_cases p k now stored with hkey | ⟨r, hr, hkey⟩
  · rw [hkey]
  · rw [hkey, h r hr]

/-! ### A round, call by call -/

/-- What follows a refused write: another round, where another writer was first and rounds
are left. -/
def refused (p : Policy) (k : Key) (now : Instant) (round left : Nat) (e : Store.Error) :
    Calls (Except Store.Error Decision) :=
  if e.isConflict || e.isNotFound then
    match left with
    | 0 => .done (.error (gaveUp round k e))
    | left + 1 => rounds p k now (round + 1) left
  else .done (.error e)

section Refused
variable {e : Store.Error} (p : Policy) (k : Key) (now : Instant) (round left : Nat)

theorem refused_at_once (h : (e.isConflict || e.isNotFound) = false) :
    refused p k now round left e = .done (.error e) := by
  simp [refused, h]

theorem refused_last (h : (e.isConflict || e.isNotFound) = true) :
    refused p k now round 0 e = .done (.error (gaveUp round k e)) := if_pos h

theorem refused_again (h : (e.isConflict || e.isNotFound) = true) :
    refused p k now round (left + 1) e = rounds p k now (round + 1) left := if_pos h

end Refused

/-- What follows a find: the next record is written. -/
def writing (p : Policy) (k : Key) (now : Instant) (round left : Nat) (stored : Option Record) :
    Calls (Except Store.Error Decision) :=
  .ask (.write (if stored.isSome then .update else .create) (nextRecord p k now stored)) fun
    | .ok written => .done (.ok (p.decide (some written) now))
    | .error e => refused p k now round left e

theorem rounds_eq (p : Policy) (k : Key) (now : Instant) (round left : Nat) :
    rounds p k now round left = .ask (.find k) fun
      | .error e => .done (.error e)
      | .ok stored => writing p k now round left stored := by
  rw [rounds]
  congr 1
  funext found
  cases found with
  | error e => rfl
  | ok stored =>
    show Store.Program.ask _ _ = writing p k now round left stored
    rw [writing]
    congr 1
    funext written
    cases written with
    | ok r => rfl
    | error e =>
      cases left <;> rfl

theorem recordFailure_eq (hp : p.isMisconfigured = false) :
    recordFailure p k now = rounds p k now 1 2 := by
  simp only [recordFailure, hp, Bool.false_eq_true, if_false]
  rfl

/-- A failure's record is then what its key answers with. -/
theorem find?_put_nextRecord (hs : s.Keyed) :
    (s.put (nextRecord p k now (s.find? k))).find? k = some (nextRecord p k now (s.find? k)) :=
  Memory.find?_put s (nextRecord_storageKey fun _ hr => hs.find? hr).symm

/-! ### Whole calls -/

theorem run_evaluate (hp : p.isMisconfigured = false) :
    s.run (evaluate p k now) = (.ok (p.decide (live p (s.find? k) now) now), s) := by
  simp only [evaluate, hp, Bool.false_eq_true, if_false]
  rfl

theorem run_evaluate_misconfigured (hp : p.isMisconfigured = true) :
    s.run (evaluate p k now) = (.ok .misconfigured, s) := by
  simp only [evaluate, hp, if_true]
  rfl

theorem run_recordFailure_misconfigured (hp : p.isMisconfigured = true) :
    s.run (recordFailure p k now) = (.ok .misconfigured, s) := by
  simp only [recordFailure, hp, if_true]
  rfl

/-- The write that follows a find succeeds: it creates where nothing was found and
replaces where something was. -/
theorem answer_write_found {r : Record} (h : r.key.storageKey = k.storageKey) :
    Memory.answer (.write (if (s.find? k).isSome then .update else .create) r) s =
      (.ok r, s.put r) := by
  have hfind : s.find? r.key = s.find? k := Memory.find?_congr s h
  cases hf : s.find? k <;> simp [Memory.answer, hfind, hf]

theorem run_recordFailure (hp : p.isMisconfigured = false) (hs : s.Keyed) :
    s.run (recordFailure p k now) =
      (.ok (p.decide (some (nextRecord p k now (s.find? k))) now),
        s.put (nextRecord p k now (s.find? k))) := by
  rw [recordFailure_eq hp, rounds_eq, Memory.run_ask]
  show s.run (writing p k now 1 2 (s.find? k)) = _
  rw [writing, Memory.run_ask, answer_write_found (nextRecord_storageKey fun _ hr => hs.find? hr)]
  rfl

theorem run_reset : s.run (reset k) = (.ok (s.find? k).isSome, s.erase k) := rfl

theorem run_recordSuccess (hp : p.resetsOnSuccess = true) :
    s.run (recordSuccess p k) = (.ok (s.find? k).isSome, s.erase k) := by
  simp only [recordSuccess, hp, if_true]
  exact run_reset

end Gatehouse.Counter.Engine
