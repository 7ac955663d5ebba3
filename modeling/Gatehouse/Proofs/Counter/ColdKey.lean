import Gatehouse.Proofs.Counter.Engine
import Gatehouse.Proofs.Store.Shared

/-! Callers who race on a cold key.

Any number of callers each count one failure on the same key at the same instant, over
a store that has no record yet, and their finds and writes come in any order. Only the
first write can create the record; a caller who found nothing and comes second is
refused, reads again and counts on top of the record that is there by then
(`Caller`). So every caller ends with a decision after at most two rounds, and one record
is left. What a caller read may be out of date when it writes, so the record need not
count all callers, but from the second write on it counts two (`Warm`). -/
namespace Gatehouse.Counter.Engine

open Store (Shared)

/-- A number of callers who have asked nothing yet, over a store without records. -/
def callers (n : Nat) (p : Policy) (k : Key) (now : Instant) :
    Shared Request Request.Answer Memory (Fin n) (Except Store.Error Decision) :=
  .start {} fun _ => recordFailure p k now

/-- A record under the key that stands, and counts at least one and at most `n` failures. -/
structure Tally (p : Policy) (k : Key) (now : Instant) (n : Nat) (r : Record) : Prop where
  key : r.key = k
  stands : p.Stands r now
  pos : 1 ≤ r.attempts
  le : r.attempts ≤ n

/-- The store after `n` writes. -/
def Warm (p : Policy) (k : Key) (now : Instant) (n : Nat) (s : Memory) : Prop :=
  n = 0 ∧ s = {} ∨
    1 ≤ n ∧ ∃ r, s = .single r ∧ Tally p k now n r ∧ (2 ≤ n → 2 ≤ r.attempts)

/-- The calls of one or of two rounds. -/
def OneOrTwoRounds (asked : List Request) : Prop :=
  asked.map Request.operation ∈
    [[.find, .create], [.find, .update], [.find, .create, .find, .update]]

/-- Where a caller stands when `n` writes have been made: what it has still to do, and what
it has asked. -/
inductive Caller (p : Policy) (k : Key) (now : Instant) (n : Nat) :
    Calls (Except Store.Error Decision) → List Request → Prop where
  | idle : Caller p k now n (rounds p k now 1 2) []
  /-- It found nothing. -/
  | missed : Caller p k now n (writing p k now 1 2 none) [.find k]
  /-- It was refused, as there is a record by now. -/
  | late {r} : 1 ≤ n → Caller p k now n (rounds p k now 2 1) [.find k, .write .create r]
  /-- It found a record that has counted no more than was written. -/
  | holding {round left r asked} : Tally p k now n r →
      (asked = [.find k] ∨ ∃ r', asked = [.find k, .write .create r', .find k]) →
      Caller p k now n (writing p k now round left (some r)) asked
  | returned {d asked} : 1 ≤ d.attempts → d.attempts ≤ n → OneOrTwoRounds asked →
      Caller p k now n (.done (.ok d)) asked

/-- All callers together: as many writes have been made as callers have returned. -/
structure Racing {n : Nat} (p : Policy) (k : Key) (now : Instant)
    (w : Shared Request Request.Answer Memory (Fin n) (Except Store.Error Decision)) : Prop where
  warm : Warm p k now w.finished w.store
  callers : ∀ i, Caller p k now w.finished (w.programs i) (w.asked i)

section Steps
variable {p : Policy} {k : Key} {now : Instant} {n m : Nat} {r : Record}

theorem Tally.mono (h : Tally p k now n r) (hnm : n ≤ m) : Tally p k now m r :=
  ⟨h.key, h.stands, h.pos, le_trans h.le hnm⟩

theorem Caller.mono {calls : Calls (Except Store.Error Decision)} {asked : List Request}
    (h : Caller p k now n calls asked) (hnm : n ≤ m) : Caller p k now m calls asked := by
  cases h with
  | idle => exact .idle
  | missed => exact .missed
  | late hn => exact .late (le_trans hn hnm)
  | holding ht hasked => exact .holding (ht.mono hnm) hasked
  | returned hpos hle hasked => exact .returned hpos (le_trans hle hnm) hasked

/-- The first failure on a key. -/
theorem tally_first (hp : p.WellConfigured) (hnow : now < .latest) :
    Tally p k now 1 (nextRecord p k now none) where
  key := nextRecord_key (by simp)
  stands := Policy.stands_applyFailure hp hnow (by simp [live])
  pos := by rw [nextRecord, Policy.applyFailure_attempts]; exact Policy.le_countUp_one
  le := by rw [nextRecord, Policy.applyFailure_attempts]; exact Policy.countUp_le _

/-- A failure on top of a record counts one more. -/
theorem nextRecord_attempts (hp : p.WellConfigured) (hnow : now < .latest) (h : Tally p k now n r) :
    (nextRecord p k now (some r)).attempts = Policy.countUp r.attempts := by
  rw [nextRecord, Policy.applyFailure_attempts]
  show Policy.countUp (((p.refresh r now).map (·.attempts)).getD 0) = _
  rw [h.stands.refresh hp hnow]
  rfl

theorem Tally.next (h : Tally p k now n r) (hp : p.WellConfigured) (hnow : now < .latest) :
    Tally p k now (n + 1) (nextRecord p k now (some r)) where
  key := nextRecord_key fun r' hr' => by cases hr'; exact h.key
  stands := by
    refine Policy.stands_applyFailure hp hnow fun r' hr' => ?_
    have hlive : live p (some r) now = some r := h.stands.refresh hp hnow
    rw [hlive] at hr'
    cases hr'
    exact h.stands
  pos := by rw [nextRecord_attempts hp hnow h]; exact Policy.le_countUp_one
  le := by
    rw [nextRecord_attempts hp hnow h]
    exact le_trans (Policy.countUp_le _) (Nat.add_le_add_right h.le 1)

theorem Tally.two_le_next (h : Tally p k now n r) (hp : p.WellConfigured) (hnow : now < .latest) :
    2 ≤ (nextRecord p k now (some r)).attempts := by
  have hpos := h.pos
  rw [nextRecord_attempts hp hnow h, Policy.countUp, Counter.maxAttempts]
  omega

/-! ### One call of one caller -/

variable {w : Shared Request Request.Answer Memory (Fin n) (Except Store.Error Decision)}
  {i : Fin n}

/-- A find does not write, and what it finds has counted no more than was written. -/
theorem Warm.find? {s : Memory} (h : Warm p k now m s) :
    m = 0 ∧ s.find? k = none ∨ 1 ≤ m ∧ ∃ r, s.find? k = some r ∧ Tally p k now m r := by
  rcases h with ⟨hm, rfl⟩ | ⟨hm, r, rfl, htally, _⟩
  · exact .inl ⟨hm, rfl⟩
  · refine .inr ⟨hm, r, ?_, htally⟩
    rw [← htally.key]
    exact Memory.find?_single r

/-- To follow one call it is enough to say where it leaves the store and its own caller. -/
theorem Racing.step_ask (h : Racing p k now w) {r : Request} {next : r.Answer → Calls _}
    (hask : w.programs i = .ask r next)
    (hm : m = w.finished + if (next (Memory.answer r w.store).1).isDone then 1 else 0)
    (hwarm : Warm p k now m (Memory.answer r w.store).2)
    (hcaller : Caller p k now m (next (Memory.answer r w.store).1) (w.asked i ++ [r])) :
    Racing p k now (w.step Memory.answer i) := by
  have hfinished : (w.step Memory.answer i).finished = m := by
    rw [Shared.finished_step_ask hask, hm]
  have hle : w.finished ≤ m := by omega
  constructor
  · rw [hfinished, Shared.step_ask hask]
    exact hwarm
  · intro j
    rw [hfinished, Shared.step_ask hask]
    by_cases hj : j = i
    · subst hj
      simp only [Function.update_self]
      exact hcaller
    · simp only [Function.update_of_ne hj]
      exact (h.callers j).mono hle

/-- A caller who reads goes on to write. -/
theorem Racing.step_find (h : Racing p k now w) {round left : Nat}
    (hrounds : w.programs i = rounds p k now round left)
    (hcaller : Caller p k now w.finished (writing p k now round left (w.store.find? k))
      (w.asked i ++ [.find k])) : Racing p k now (w.step Memory.answer i) := by
  rw [rounds_eq] at hrounds
  exact h.step_ask hrounds rfl h.warm hcaller

/-- A caller whose write is served returns a decision about the record written. -/
theorem Racing.step_write (h : Racing p k now w) {round left : Nat} {stored : Option Record}
    (hwriting : w.programs i = writing p k now round left stored)
    (hserved : Memory.answer (.write (if stored.isSome then .update else .create)
      (nextRecord p k now stored)) w.store = (.ok (nextRecord p k now stored),
        .single (nextRecord p k now stored)))
    (htally : Tally p k now (w.finished + 1) (nextRecord p k now stored))
    (htwo : 2 ≤ w.finished + 1 → 2 ≤ (nextRecord p k now stored).attempts)
    (hasked : OneOrTwoRounds (w.asked i ++ [.write (if stored.isSome then .update else .create)
      (nextRecord p k now stored)])) : Racing p k now (w.step Memory.answer i) := by
  refine h.step_ask (m := w.finished + 1) hwriting ?_ ?_ ?_
  · rw [hserved]
    rfl
  · rw [hserved]
    exact .inr ⟨Nat.le_add_left 1 _, _, rfl, htally, htwo⟩
  · rw [hserved]
    exact .returned htally.pos htally.le hasked

/-- A caller whose write is refused has changed nothing. -/
theorem Racing.step_refused (h : Racing p k now w) {round left : Nat} {stored : Option Record}
    {e : Store.Error} (hwriting : w.programs i = writing p k now round left stored)
    (hrefused : Memory.answer (.write (if stored.isSome then .update else .create)
      (nextRecord p k now stored)) w.store = (.error e, w.store))
    (hgoes : (refused p k now round left e).isDone = false)
    (hcaller : Caller p k now w.finished (refused p k now round left e)
      (w.asked i ++ [.write (if stored.isSome then .update else .create)
        (nextRecord p k now stored)])) : Racing p k now (w.step Memory.answer i) := by
  refine h.step_ask (m := w.finished) hwriting ?_ ?_ ?_
  · rw [hrefused]
    simp [hgoes]
  · rw [hrefused]
    exact h.warm
  · rw [hrefused]
    exact hcaller

/-- **One call of any caller keeps the account of all.** -/
theorem racing_step (hp : p.WellConfigured) (hnow : now < .latest) (h : Racing p k now w)
    (i : Fin n) : Racing p k now (w.step Memory.answer i) := by
  have hcaller := h.callers i
  generalize hcalls : w.programs i = calls, hasked : w.asked i = asked at hcaller
  cases hcaller with
  | idle =>
    refine h.step_find hcalls ?_
    rw [hasked]
    rcases h.warm.find? with ⟨_, hfind⟩ | ⟨_, r, hfind, htally⟩
    · rw [hfind]
      exact .missed
    · rw [hfind]
      exact .holding htally (.inl rfl)
  | missed =>
    rcases h.warm with ⟨hzero, hstore⟩ | ⟨hpos, r, hstore, htally, _⟩
    · have hfirst := tally_first (k := k) hp hnow
      refine h.step_write hcalls ?_ ?_ ?_ ?_
      · rw [hstore]
        rfl
      · rw [hzero]
        exact hfirst
      · omega
      · rw [hasked]
        simp [OneOrTwoRounds, Request.operation]
    · -- There is a record by now, so the write is refused and the next round begins.
      have hkey : (nextRecord p k now none).key = r.key :=
        (nextRecord_key (by simp)).trans htally.key.symm
      have hrefused := Memory.answer_create_single hkey
      rw [← hstore] at hrefused
      refine h.step_refused hcalls hrefused ?_ ?_
      · rw [refused_again p k now 1 1 rfl, rounds_eq]
        rfl
      · rw [refused_again p k now 1 1 rfl, hasked]
        exact .late hpos
  | late hpos =>
    refine h.step_find hcalls ?_
    rcases h.warm.find? with ⟨hzero, _⟩ | ⟨_, r, hfind, htally⟩
    · omega
    · rw [hfind, hasked]
      exact .holding htally (.inr ⟨_, rfl⟩)
  | holding htally hasked' =>
    rename_i round left r
    rcases h.warm with ⟨hzero, _⟩ | ⟨hpos, r₀, hstore, htally₀, _⟩
    · have hle := htally.le
      have := htally.pos
      omega
    · have hkey : (nextRecord p k now (some r)).key = r₀.key :=
        (htally.next hp hnow).key.trans htally₀.key.symm
      refine h.step_write hcalls ?_ (htally.next hp hnow) (fun _ => htally.two_le_next hp hnow) ?_
      · rw [hstore]
        exact Memory.answer_update_single hkey
      · rw [hasked]
        rcases hasked' with rfl | ⟨r', rfl⟩ <;> simp [OneOrTwoRounds, Request.operation]
  | returned _ _ _ =>
    rw [Shared.step_done hcalls]
    exact h

end Steps

/-! ### Any interleaving -/

section Runs
variable {p : Policy} {k : Key} {now : Instant} {n : Nat}

/-- Before the first call everybody is idle and nothing is stored. -/
theorem racing_callers (hp : p.WellConfigured) : Racing p k now (callers n p k now) where
  warm := by
    refine .inl ⟨?_, rfl⟩
    simp [Shared.finished, callers, Shared.start, recordFailure_eq hp.not_misconfigured, rounds_eq,
      Store.Program.isDone]
  callers i := by
    show Caller p k now _ (recordFailure p k now) []
    rw [recordFailure_eq hp.not_misconfigured]
    exact .idle

/-- A caller who has not returned has made at most three calls. -/
theorem Caller.length_asked {calls : Calls (Except Store.Error Decision)} {asked : List Request}
    (h : Caller p k now n calls asked) (hgoes : calls.isDone = false) : asked.length ≤ 3 := by
  cases h with
  | idle => simp
  | missed => simp
  | late _ => simp
  | holding _ hasked => rcases hasked with rfl | ⟨r', rfl⟩ <;> simp
  | returned _ _ _ => cases hgoes

/-- A caller who has returned made one round or two. -/
theorem Caller.result {asked : List Request} {result : Except Store.Error Decision}
    (h : Caller p k now n (.done result) asked) :
    OneOrTwoRounds asked ∧ ∃ d, result = .ok d ∧ 1 ≤ d.attempts ∧ d.attempts ≤ n := by
  generalize hcalls : Store.Program.done result = calls at h
  cases h with
  | idle => rw [rounds_eq] at hcalls; cases hcalls
  | missed => cases hcalls
  | late _ => rw [rounds_eq] at hcalls; cases hcalls
  | holding _ _ => cases hcalls
  | returned hpos hle hasked =>
    cases hcalls
    exact ⟨hasked, _, rfl, hpos, hle⟩

end Runs

/-- **No caller on a cold key is lost.** Whatever the order of their calls: a caller who is
picked four times has returned; every caller who returns does so with a decision that
counts at least one and at most all of them, after one round or two; and when all have
returned, one record is left, and it counts at least two of them and at most all. -/
theorem racing_callers_counted {n : Nat} (hn : 2 ≤ n) (p : Policy) (hp : p.WellConfigured)
    (k : Key) (now : Instant) (hnow : now < .latest) (picks : List (Fin n)) :
    let w := (callers n p k now).run Memory.answer picks
    (∀ i, 4 ≤ picks.count i → (w.programs i).isDone) ∧
      (∀ i result, w.programs i = .done result → OneOrTwoRounds (w.asked i) ∧
        ∃ d, result = .ok d ∧ 1 ≤ d.attempts ∧ d.attempts ≤ n) ∧
      ((∀ i, (w.programs i).isDone) → w.store.size = 1 ∧
        ∃ r, w.store.find? k = some r ∧ 2 ≤ r.attempts ∧ r.attempts ≤ n) := by
  intro w
  have hracing : Racing p k now w :=
    Shared.run_invariant (Racing p k now) (fun _ i h => racing_step hp hnow h i)
      (racing_callers hp) picks
  have hfinished : w.finished ≤ n := by simpa using w.finished_le
  refine ⟨fun i hi => ?_, fun i result hresult => ?_, fun hall => ?_⟩
  · by_contra hgoes
    have hthree := (hracing.callers i).length_asked (Bool.eq_false_iff.mpr hgoes)
    rcases Shared.length_asked Memory.answer (callers n p k now) picks i with
      ⟨result, hdone⟩ | hlength
    · exact hgoes (by rw [show w.programs i = _ from hdone]; rfl)
    · have : (w.asked i).length = 0 + picks.count i := hlength
      omega
  · have hcaller := (hracing.callers i).mono hfinished
    rw [hresult] at hcaller
    exact hcaller.result
  · have hcount : w.finished = n := by
      simp [Shared.finished, hall]
    rcases hracing.warm with ⟨hzero, _⟩ | ⟨_, r, hstore, htally, htwo⟩
    · omega
    · rw [hstore]
      refine ⟨rfl, r, ?_, htwo (by omega), hcount ▸ htally.le⟩
      rw [← htally.key]
      exact Memory.find?_single r

/-- Two callers both find nothing. The one who is refused reads again, and both are counted. -/
theorem two_racing_callers_counted :
    let p : Policy := .login ⟨5, .seconds 60, .seconds 600⟩
    let k : Key := ⟨.login, { reference := .domain "acme", subject := "alice" }⟩
    let w := (callers 2 p k .epoch).run Memory.answer [0, 1, 0, 1, 1, 1, 0, 0]
    (w.asked 1).map Request.operation = [.find, .create, .find, .update] ∧ w.store.size = 1 ∧
      ∃ r, w.store.find? k = some r ∧ r.attempts = 2 := by
  intro p k w
  obtain ⟨hreturned, _, hleft⟩ := racing_callers_counted (n := 2) le_rfl p (by decide) k .epoch
    (by decide) [0, 1, 0, 1, 1, 1, 0, 0]
  obtain ⟨hsize, r, hfind, htwo, hle⟩ := hleft fun i => hreturned i (by decide +revert)
  refine ⟨?_, hsize, r, hfind, Nat.le_antisymm hle htwo⟩
  subst w
  decide +kernel

end Gatehouse.Counter.Engine
