/-! Machines: state that answers events one after another.

What a guard does over a whole run is said by comparing two machines: the guard over
its store, and a small machine that says what it ought to do. The one simulates the
other when a relation between their states is kept by every event and related states
answer alike (`Simulation`); then the two give the same answers to every run of events
(`answers_eq`), however long. -/
namespace Gatehouse

/-- State that answers events: the answer to an event, and the state after it. -/
structure Machine (Event State Answer : Type) where
  next : Event → State → Answer × State

namespace Machine
variable {Event State State' Answer Answer' : Type}

/-- The answers to a run of events. -/
def answers (m : Machine Event State Answer) (s : State) : List Event → List Answer
  | [] => []
  | e :: rest => (m.next e s).1 :: m.answers (m.next e s).2 rest

/-- The state after a run of events. -/
def after (m : Machine Event State Answer) (s : State) : List Event → State
  | [] => s
  | e :: rest => m.after (m.next e s).2 rest

theorem answers_take (m : Machine Event State Answer) (s : State) (es : List Event) (n : Nat) :
    (m.answers s es).take n = m.answers s (es.take n) := by
  induction es generalizing s n with
  | nil => cases n <;> rfl
  | cons e rest ih =>
    cases n with
    | zero => rfl
    | succ n => exact congrArg _ (ih _ n)

theorem answers_drop (m : Machine Event State Answer) (s : State) (es : List Event) (n : Nat) :
    (m.answers s es).drop n = m.answers (m.after s (es.take n)) (es.drop n) := by
  induction es generalizing s n with
  | nil => cases n <;> rfl
  | cons e rest ih =>
    cases n with
    | zero => rfl
    | succ n => exact ih _ n

theorem after_append (m : Machine Event State Answer) (s : State) (es es' : List Event) :
    m.after s (es ++ es') = m.after (m.after s es) es' := by
  induction es generalizing s with
  | nil => rfl
  | cons e rest ih => exact ih _

theorem answers_append (m : Machine Event State Answer) (s : State) (es es' : List Event) :
    m.answers s (es ++ es') = m.answers s es ++ m.answers (m.after s es) es' := by
  induction es generalizing s with
  | nil => rfl
  | cons e rest ih => exact congrArg _ (ih _)

theorem length_answers (m : Machine Event State Answer) (s : State) (es : List Event) :
    (m.answers s es).length = es.length := by
  induction es generalizing s with
  | nil => rfl
  | cons e rest ih => exact congrArg Nat.succ (ih _)

/-- What one event of a run is answered, after the events before it. -/
theorem answers_at (m : Machine Event State Answer) (s : State) (before : List Event) (e : Event)
    (rest : List Event) :
    (m.answers s (before ++ e :: rest))[before.length]? = some (m.next e (m.after s before)).1 := by
  rw [answers_append, List.getElem?_append_right (Nat.le_of_eq (length_answers m s before)),
    length_answers, Nat.sub_self]
  rfl

theorem answers_getElem? (m : Machine Event State Answer) (s : State) {es : List Event} {i : Nat}
    {e : Event} (h : es[i]? = some e) :
    (m.answers s es)[i]? = some (m.next e (m.after s (es.take i))).1 := by
  obtain ⟨hlt, hget⟩ := List.getElem?_eq_some_iff.mp h
  have hsplit : es.take i ++ e :: es.drop (i + 1) = es := by
    rw [← hget, List.getElem_cons_drop, List.take_append_drop]
  have hat := m.answers_at s (es.take i) e (es.drop (i + 1))
  rwa [hsplit, List.length_take_of_le (Nat.le_of_lt hlt)] at hat

/-- What a stretch of a run is answered is what it is answered after the events before it. -/
theorem answers_extract (m : Machine Event State Answer) (s : State) (es : List Event) (i j : Nat) :
    (m.answers s es).extract i j = m.answers (m.after s (es.take i)) (es.extract i j) := by
  rw [List.extract_eq_take_drop, List.extract_eq_take_drop, answers_drop, answers_take]

/-- An event may be left out of a run where the events after it are answered alike. -/
theorem answers_eraseIdx (m : Machine Event State Answer) (s : State) {es : List Event} {i : Nat}
    {e : Event} (h : es[i]? = some e)
    (halike : m.answers (m.next e (m.after s (es.take i))).2 (es.drop (i + 1)) =
      m.answers (m.after s (es.take i)) (es.drop (i + 1))) :
    m.answers s (es.eraseIdx i) = (m.answers s es).eraseIdx i := by
  have hthrough : m.after s (es.take (i + 1)) = (m.next e (m.after s (es.take i))).2 := by
    rw [List.take_add_one, h, after_append]
    rfl
  rw [List.eraseIdx_eq_take_drop_succ, List.eraseIdx_eq_take_drop_succ, answers_append,
    answers_take, answers_drop, hthrough, halike]

/-- What every event keeps, a run keeps. -/
theorem after_keeps {m : Machine Event State Answer} {Rule : Event → Prop} {Inv : State → Prop}
    (hstep : ∀ e s, Rule e → Inv s → Inv (m.next e s).2) {s : State} (hs : Inv s) {es : List Event}
    (hes : ∀ e ∈ es, Rule e) : Inv (m.after s es) := by
  induction es generalizing s with
  | nil => exact hs
  | cons e rest ih =>
    obtain ⟨he, hrest⟩ := List.forall_mem_cons.mp hes
    exact ih (hstep e s he hs) hrest

/-- The machine of which only a part of the answers is seen. -/
def map (m : Machine Event State Answer) (f : Answer → Answer') : Machine Event State Answer' :=
  ⟨fun e s => (f (m.next e s).1, (m.next e s).2)⟩

/-- The states of two machines go together on events that meet a rule. -/
structure Simulation (m : Machine Event State Answer) (m' : Machine Event State' Answer)
    (Rule : Event → Prop) where
  Rel : State → State' → Prop
  /-- Related states answer alike. -/
  answer : ∀ e s t, Rule e → Rel s t → (m.next e s).1 = (m'.next e t).1
  /-- An event keeps states related. -/
  step : ∀ e s t, Rule e → Rel s t → Rel (m.next e s).2 (m'.next e t).2

variable {m : Machine Event State Answer} {m' : Machine Event State' Answer} {Rule : Event → Prop}

/-- Machines that start related answer every run alike. -/
theorem Simulation.answers_eq (sim : Simulation m m' Rule) {s : State} {t : State'}
    (h : sim.Rel s t) {es : List Event} (hes : ∀ e ∈ es, Rule e) :
    m.answers s es = m'.answers t es := by
  induction es generalizing s t with
  | nil => rfl
  | cons e rest ih =>
    have he := hes e (List.mem_cons_self ..)
    rw [answers, answers, sim.answer e s t he h,
      ih (sim.step e s t he h) fun e' he' => hes e' (List.mem_cons_of_mem e he')]

end Machine

end Gatehouse
