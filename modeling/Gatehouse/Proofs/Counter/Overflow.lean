import Gatehouse.Proofs.Counter.Checked
import Gatehouse.Proofs.Counter.Runs

/-! The engine on numbers of a width.

The engine's calls are told once more, with each computation on numbers of a width. A call that is
answered from records that can be told is answered as without a width
(`run_checkedEvaluate`, `run_checkedRecordFailure`), and leaves such records. So no call fails for
its numbers, over every run from an empty store, whatever policies and instants follow one another
(`checked_answers_eq`). -/
namespace Gatehouse.Counter.Engine

section Calls
variable (p : Policy) (k : Key) (now : Instant)

/-- What is still live of what the store has under a key. -/
def checkedLive (stored : Option Record) : Checked (Option Record) :=
  match stored with
  | some r => p.checkedRefresh r now
  | none => .ok none

/-- The record that a failure leaves. -/
def checkedNext (stored : Option Record) : Checked Record := do
  p.checkedFailure (← checkedLive p now stored) k now

/-- The present decision about a key. -/
def checkedEvaluate : Calls (Checked (Except Store.Error Decision)) :=
  if p.isMisconfigured then .done (.ok (.ok .misconfigured))
  else .ask (.find k) fun
    | .error e => .done (.ok (.error e))
    | .ok stored => .done do
      return .ok (← p.checkedDecide (← checkedLive p now stored) now)

/-- Reads a key and writes its next state, in up to `left` more rounds. -/
def checkedRounds (round left : Nat) : Calls (Checked (Except Store.Error Decision)) :=
  .ask (.find k) fun
    | .error e => .done (.ok (.error e))
    | .ok stored =>
      match checkedNext p k now stored with
      | .error overflow => .done (.error overflow)
      | .ok next =>
        .ask (.write (if stored.isSome then .update else .create) next) fun
          | .ok written => .done ((p.checkedDecide (some written) now).map .ok)
          | .error e =>
            if e.isConflict || e.isNotFound then
              match left with
              | 0 => .done (.ok (.error (gaveUp round k e)))
              | left + 1 => checkedRounds (round + 1) left
            else .done (.ok (.error e))

/-- Counts one failure, or one event under a rate limit. -/
def checkedRecordFailure : Calls (Checked (Except Store.Error Decision)) :=
  if p.isMisconfigured then .done (.ok (.ok .misconfigured))
  else checkedRounds p k now 1 (maxRounds - 1)

end Calls

section Run
variable {p : Policy} {k : Key} {now : Instant} {stored : Option Record} {s : Memory}

theorem checkedLive_eq (hp : p.Told) (hok : p.isMisconfigured = false)
    (hstored : ∀ r ∈ stored, r.Told) (hnow : now.OnCalendar) :
    checkedLive p now stored = .ok (live p stored now) := by
  cases stored with
  | none => rfl
  | some r => exact Policy.checkedRefresh_eq hp hok (hstored r rfl) hnow

theorem live_told (hp : p.Told) (hstored : ∀ r ∈ stored, r.Told) :
    ∀ r ∈ live p stored now, r.Told := by
  intro r hr
  obtain ⟨r₀, hr₀, hlive⟩ := Option.bind_eq_some_iff.mp hr
  exact Policy.refresh_told hp (hstored r₀ hr₀) hlive

theorem checkedNext_eq (hp : p.Told) (hok : p.isMisconfigured = false)
    (hstored : ∀ r ∈ stored, r.Told) (hnow : now.OnCalendar) :
    checkedNext p k now stored = .ok (nextRecord p k now stored) := by
  simp only [checkedNext, checkedLive_eq hp hok hstored hnow, bind, Except.bind]
  exact Policy.checkedFailure_eq hp hok (live_told hp hstored)

theorem nextRecord_told (hp : p.Told) (hok : p.isMisconfigured = false)
    (hstored : ∀ r ∈ stored, r.Told) (hnow : now.OnCalendar) :
    (nextRecord p k now stored).Told :=
  Policy.applyFailure_told hp hok (live_told hp hstored) hnow

theorem run_checkedEvaluate (hp : p.Told) (hnow : now.OnCalendar) (hs : Stocked Record.Told s) :
    s.run (checkedEvaluate p k now) =
      (.ok (s.run (evaluate p k now)).1, (s.run (evaluate p k now)).2) := by
  cases hok : p.isMisconfigured with
  | true =>
    rw [run_evaluate_misconfigured hok]
    simp only [checkedEvaluate, hok, if_true]
    rfl
  | false =>
    have hstored : ∀ r ∈ s.find? k, r.Told := fun r hr => (hs.find? hr).2
    rw [run_evaluate hok]
    simp only [checkedEvaluate, hok, Bool.false_eq_true, if_false, Memory.run_ask, Memory.answer,
      Memory.run_done, checkedLive_eq hp hok hstored hnow,
      Policy.checkedDecide_eq hp hok (live_told hp hstored) hnow, bind, Except.bind]
    rfl

theorem run_checkedRecordFailure (hp : p.Told) (hnow : now.OnCalendar)
    (hs : Stocked Record.Told s) :
    s.run (checkedRecordFailure p k now) =
      (.ok (s.run (recordFailure p k now)).1, (s.run (recordFailure p k now)).2) := by
  cases hok : p.isMisconfigured with
  | true =>
    rw [run_recordFailure_misconfigured hok]
    simp only [checkedRecordFailure, hok, if_true]
    rfl
  | false =>
    have hstored : ∀ r ∈ s.find? k, r.Told := fun r hr => (hs.find? hr).2
    have hnext : ∀ r ∈ some (nextRecord p k now (s.find? k)), r.Told := fun r hr =>
      Option.some.inj hr ▸ nextRecord_told hp hok hstored hnow
    have hkey : (nextRecord p k now (s.find? k)).key.storageKey = k.storageKey :=
      nextRecord_storageKey fun _ hr => hs.keyed.find? hr
    rw [run_recordFailure hok hs.keyed]
    simp only [checkedRecordFailure, hok, Bool.false_eq_true, if_false]
    rw [checkedRounds, Memory.run_ask]
    simp only [Memory.answer, checkedNext_eq hp hok hstored hnow]
    rw [Memory.run_ask, answer_write_found hkey]
    simp only [Memory.run_done, Policy.checkedDecide_eq hp hok hnext hnow]
    rfl

end Run

/-! ### Runs -/

/-- The engine, each of whose calls has a key and a policy of its own. -/
def engine :
    Machine (Key × Policy × Event × Instant) Memory (Option (Except Store.Error Decision)) where
  next e store := (counter e.2.1 e.1).next e.2.2 store

/-- The same on numbers of a width. -/
def checkedEngine : Machine (Key × Policy × Event × Instant) Memory
    (Checked (Option (Except Store.Error Decision))) where
  next e store :=
    match e.2.2.1 with
    | .evaluated =>
      let (decision, store') := store.run (checkedEvaluate e.2.1 e.1 e.2.2.2)
      (decision.map some, store')
    | .failed =>
      let (decision, store') := store.run (checkedRecordFailure e.2.1 e.1 e.2.2.2)
      (decision.map some, store')
    | _ => (.ok (engine.next e store).1, (engine.next e store).2)

section Machine
variable {s : Memory} {e : Key × Policy × Event × Instant}

/-- The policy of a call can be told, and its instant lies on the calendar. -/
def Told (e : Key × Policy × Event × Instant) : Prop := e.2.1.Told ∧ e.2.2.2.OnCalendar

instance (e : Key × Policy × Event × Instant) : Decidable (Told e) :=
  inferInstanceAs (Decidable (_ ∧ _))

/-- Every record that a call leaves can be told. -/
theorem stocked_next (hs : Stocked Record.Told s) (he : Told e) :
    Stocked Record.Told (engine.next e s).2 := by
  obtain ⟨k, p, event, now⟩ := e
  have hnext : Stocked Record.Told ((counters fun _ => p).next (k, event, now) s).2 :=
    hs.next fun hok _ hstored =>
      nextRecord_told he.1 hok (fun r hr => (hstored r hr).2) he.2
  exact hnext

theorem checkedEngine_next (hs : Stocked Record.Told s) (he : Told e) :
    checkedEngine.next e s = (.ok (engine.next e s).1, (engine.next e s).2) := by
  obtain ⟨k, p, event, now⟩ := e
  obtain ⟨hp, hnow⟩ := he
  cases event with
  | evaluated =>
    simp only [checkedEngine, run_checkedEvaluate hp hnow hs]
    rfl
  | failed =>
    simp only [checkedEngine, run_checkedRecordFailure hp hnow hs]
    rfl
  | succeeded | removed | purged => rfl

end Machine

/-- **No call fails for its numbers.** Over every run of calls from an empty store, each on any key
under any policy that its type can hold, and at any instants in any order: no sum, difference,
product, quotient or span that a call computes leaves its type's range, nothing is divided by zero,
and all calls are answered as on numbers without a width. -/
theorem checked_answers_eq (es : List (Key × Policy × Event × Instant)) (hes : ∀ e ∈ es, Told e) :
    checkedEngine.answers {} es = (engine.answers {} es).map .ok ∧
      checkedEngine.after {} es = engine.after {} es := by
  suffices h : ∀ s, Stocked Record.Told s →
      checkedEngine.answers s es = (engine.answers s es).map .ok ∧
        checkedEngine.after s es = engine.after s es from h {} (stocked_empty _)
  induction es with
  | nil => exact fun _ _ => ⟨rfl, rfl⟩
  | cons e rest ih =>
    intro s hs
    obtain ⟨he, hrest⟩ := List.forall_mem_cons.mp hes
    obtain ⟨hanswers, hafter⟩ := ih hrest _ (stocked_next hs he)
    rw [Machine.answers, Machine.after, checkedEngine_next hs he]
    exact ⟨congrArg _ hanswers, hafter⟩

/-- The smallest limit and the largest, both in the longest window, on one record, while the clock
jumps from one end of the calendar to the other. -/
theorem checked_answers_eq_of_extremes :
    let k : Key := ⟨.rateLimit, { reference := .domain "acme", subject := "alice" }⟩
    let small : Policy := .rateLimit ⟨1, .longest, .proportional⟩
    let vast : Policy := .rateLimit ⟨Word.greatest, .longest, .proportional⟩
    let es := [(k, small, .failed, .earliest), (k, small, .failed, .earliest),
      (k, vast, .evaluated, .earliest), (k, vast, .failed, .latest),
      (k, small, .evaluated, .earliest)]
    checkedEngine.answers {} es = (engine.answers {} es).map .ok ∧
      (engine.answers {} es).map (fun a => a.bind fun d => d.toOption.bind (·.tokensLeft)) =
        [some 0, some (-1), some (-1), some 16544868105599998, some 16544868105599998] := by
  intro k small vast es
  exact ⟨(checked_answers_eq es (by decide)).1, by decide +kernel⟩

end Gatehouse.Counter.Engine
