import Gatehouse.Audit.Dispatcher
import Gatehouse.Proofs.Machine
import Mathlib.Data.List.Induction
import Mathlib.Logic.Function.Basic

/-! What becomes of reports.

Those who hold a dispatcher report what they have to report, and one worker takes the events
from the queue and hands each to the sink; it does not take the next before the sink is done
with the last. Who comes next is a list of turns, so what holds for every list of turns holds
for every interleaving (`Office`, `office`).

`reports_kept_in_order`: whatever the turns, what the sink has been handed are the accepted
events, in their order and each once, less those that still wait; a report is dropped only
when as many wait as may; a report is made at every turn of those who have one to make,
whatever the worker is at; and whether the sink takes what it is handed changes nothing but
that. -/
namespace Gatehouse.Audit
variable {ε ι : Type}

/-! ### Reporters, worker and sink -/

/-- Who comes next. -/
inductive Turn (ι : Type) where
  /-- One of those who hold the dispatcher reports its next event. -/
  | reporter (i : ι)
  /-- The worker takes an event from the queue, unless there is none or the sink is not done. -/
  | worker
  /-- The sink is done with the event it was handed, and has taken it or has failed. -/
  | sink (taken : Bool)
  deriving DecidableEq, Repr

/-- What a turn comes to. -/
inductive Effect (ε ι : Type) where
  | reported (reporter : ι) (event : ε) (accepted : Bool)
  | handed (event : ε)
  | written (event : ε) (taken : Bool)
  | nothing
  deriving DecidableEq, Repr

/-- A dispatcher in use. -/
structure Office (ε ι : Type) where
  dispatcher : Dispatcher ε
  /-- The event that the sink is not done with. -/
  writing : Option ε := none
  /-- What each of those who hold the dispatcher has still to report. -/
  pending : ι → List ε

/-- The turns of a dispatcher in use. -/
def office [DecidableEq ι] : Machine (Turn ι) (Office ε ι) (Effect ε ι) where
  next
    | .reporter i, s =>
      match s.pending i with
      | [] => (.nothing, s)
      | e :: rest =>
        (.reported i e s.dispatcher.hasRoom,
          { s with
            dispatcher := s.dispatcher.report e
            pending := Function.update s.pending i rest })
    | .worker, s =>
      match s.writing, s.dispatcher.queue with
      | none, e :: _ => (.handed e, { s with dispatcher := s.dispatcher.work, writing := some e })
      | _, _ => (.nothing, s)
    | .sink taken, s =>
      match s.writing with
      | some e => (.written e taken, { s with writing := none })
      | none => (.nothing, s)

/-- A dispatcher of a configuration that nobody has used yet. -/
def opened (c : AuditConfig) (reports : ι → List ε) : Office ε ι where
  dispatcher := .ofConfig c
  pending := reports

/-! ### What is seen of a run -/

namespace Effect

/-- The event that was accepted. -/
@[simp]
def accepted? : Effect ε ι → Option ε
  | reported _ e true => some e
  | _ => none

/-- The event that the sink was handed. -/
@[simp]
def handed? : Effect ε ι → Option ε
  | handed e => some e
  | _ => none

/-- The event that the sink is done with. -/
@[simp]
def written? : Effect ε ι → Option ε
  | written e _ => some e
  | _ => none

/-- The event that one of those who hold the dispatcher has reported. -/
@[simp]
def reportedBy? [DecidableEq ι] (i : ι) : Effect ε ι → Option ε
  | reported j e _ => if j = i then some e else none
  | _ => none

/-- An effect as it would be if the sink never failed. -/
@[simp]
def forgiven : Effect ε ι → Effect ε ι
  | written e _ => written e true
  | x => x

end Effect

/-- A turn as it would be if the sink never failed. -/
@[simp]
def Turn.forgiven : Turn ι → Turn ι
  | sink _ => sink true
  | x => x

open Effect

/-! ### One turn -/

section Turn
variable [DecidableEq ι] {limit : Nat} {reports : ι → List ε} {turns : List (Turn ι)}
  {effects : List (Effect ε ι)} {s : Office ε ι}

/-- How a dispatcher in use stands after turns that came to effects. -/
structure Stands (limit : Nat) (reports : ι → List ε) (turns : List (Turn ι))
    (effects : List (Effect ε ι)) (s : Office ε ι) : Prop where
  capacity : s.dispatcher.capacity = some limit
  handed : s.dispatcher.handed = effects.filterMap handed?
  waiting : effects.filterMap accepted? = effects.filterMap handed? ++ s.dispatcher.queue
  room : s.dispatcher.queue.length ≤ limit
  writing : effects.filterMap handed? = effects.filterMap written? ++ s.writing.toList
  reported : ∀ i,
    effects.filterMap (reportedBy? i) = (reports i).take (turns.count (.reporter i))
  pending : ∀ i, s.pending i = (reports i).drop (turns.count (.reporter i))

theorem Stands.hasRoom_iff (h : Stands limit reports turns effects s) :
    s.dispatcher.hasRoom = true ↔ s.dispatcher.queue.length < limit := by
  simp [Dispatcher.hasRoom, h.capacity]

theorem stands_opened (c : AuditConfig) (hc : c.enabled = true) (reports : ι → List ε) :
    Stands (max 1 c.queueCapacity) reports [] [] (opened c reports) := by
  have hdispatcher : (Dispatcher.ofConfig c : Dispatcher ε) =
      { capacity := some (max 1 c.queueCapacity) } := if_pos hc
  refine ⟨?_, ?_, ?_, ?_, rfl, fun _ => rfl, fun _ => rfl⟩ <;> rw [opened, hdispatcher]
  · rfl
  · rfl
  · exact Nat.zero_le _

/-- A turn at which nothing is done, which is not that of one with something to report. -/
theorem Stands.idle (h : Stands limit reports turns effects s) {t : Turn ι}
    (ht : ∀ i, t = .reporter i → s.pending i = []) :
    Stands limit reports (turns ++ [t]) (effects ++ [.nothing]) s := by
  have hcount (i : ι) :
      (reports i).take ((turns ++ [t]).count (.reporter i)) =
          (reports i).take (turns.count (.reporter i)) ∧
        (reports i).drop ((turns ++ [t]).count (.reporter i)) =
          (reports i).drop (turns.count (.reporter i)) := by
    rw [List.count_append, List.count_singleton]
    by_cases hti : t = .reporter i
    · -- All that it had to report has been reported, and it may come as often as it likes.
      have hall := List.drop_eq_nil_iff.mp ((h.pending i).symm.trans (ht i hti))
      have hmore := Nat.le_add_right_of_le (k := 1) hall
      simp [hti, List.take_of_length_le hall, List.take_of_length_le hmore,
        List.drop_of_length_le hall, List.drop_of_length_le hmore]
    · simp [hti]
  exact
    { capacity := h.capacity
      handed := by simp [h.handed]
      waiting := by simp [h.waiting, List.filterMap_cons]
      room := h.room
      writing := by simp [h.writing, List.filterMap_cons]
      reported := fun i => by
        rw [(hcount i).1, ← h.reported i]
        simp
      pending := fun i => by rw [h.pending i, (hcount i).2] }

/-- One of those who hold the dispatcher reports its next event. -/
theorem Stands.report (h : Stands limit reports turns effects s) {i : ι} {e : ε}
    {rest : List ε} (hpending : s.pending i = e :: rest) :
    Stands limit reports (turns ++ [.reporter i])
      (effects ++ [.reported i e s.dispatcher.hasRoom])
      { s with
        dispatcher := s.dispatcher.report e
        pending := Function.update s.pending i rest } := by
  have hnext : (reports i).drop (turns.count (.reporter i)) = e :: rest :=
    (h.pending i).symm.trans hpending
  have hget : (reports i)[turns.count (.reporter i)]? = some e := by
    rw [← List.head?_drop, hnext]
    rfl
  refine ⟨?_, ?_, ?_, ?_, ?_, fun j => ?_, fun j => ?_⟩
  · rw [Dispatcher.report]
    split <;> exact h.capacity
  · rw [Dispatcher.report]
    split <;> simp [h.handed]
  · cases hroom : s.dispatcher.hasRoom <;>
      simp [Dispatcher.report, hroom, h.waiting, List.filterMap_cons]
  · rw [Dispatcher.report]
    split
    · next hroom =>
      rw [List.length_append, List.length_singleton]
      exact h.hasRoom_iff.mp hroom
    · exact h.room
  · simp [h.writing, List.filterMap_cons]
  · by_cases hj : i = j
    · subst hj
      simp [h.reported, List.count_append, List.take_add_one, hget]
    · simp [h.reported, hj, List.count_append]
  · by_cases hj : j = i
    · subst hj
      simp [List.count_append, ← List.drop_drop, hnext]
    · have hij : Turn.reporter i ≠ Turn.reporter j := fun heq => hj (Turn.reporter.inj heq).symm
      simp [hj, hij, h.pending, List.count_append]

/-- The worker hands the event that has waited longest to a sink that is done. -/
theorem Stands.work (h : Stands limit reports turns effects s) {e : ε} {rest : List ε}
    (hwriting : s.writing = none) (hqueue : s.dispatcher.queue = e :: rest) :
    Stands limit reports (turns ++ [.worker]) (effects ++ [.handed e])
      { s with dispatcher := s.dispatcher.work, writing := some e } := by
  have hwork : s.dispatcher.work =
      { s.dispatcher with queue := rest, handed := s.dispatcher.handed ++ [e] } := by
    rw [Dispatcher.work, hqueue]
  have hroom := h.room
  rw [hqueue, List.length_cons] at hroom
  rw [hwork]
  exact
    { capacity := h.capacity
      handed := by simp [h.handed]
      waiting := by simp [h.waiting, hqueue]
      room := Nat.le_of_succ_le hroom
      writing := by simp [h.writing, hwriting]
      reported := fun i => by simp [h.reported, List.count_append]
      pending := fun i => by simp [h.pending, List.count_append] }

/-- The sink is done with what it was handed. -/
theorem Stands.finish (h : Stands limit reports turns effects s) {e : ε}
    (hwriting : s.writing = some e) (taken : Bool) :
    Stands limit reports (turns ++ [.sink taken]) (effects ++ [.written e taken])
      { s with writing := none } where
  capacity := h.capacity
  handed := by simp [h.handed]
  waiting := by simp [h.waiting, List.filterMap_cons]
  room := h.room
  writing := by simp [h.writing, hwriting]
  reported i := by simp [h.reported, List.count_append]
  pending i := by simp [h.pending, List.count_append]

/-- A turn leaves the dispatcher as it should stand. -/
theorem Stands.next (h : Stands limit reports turns effects s) (t : Turn ι) :
    Stands limit reports (turns ++ [t]) (effects ++ [(office.next t s).1])
      (office.next t s).2 := by
  cases t with
  | reporter i =>
    cases hpending : s.pending i with
    | nil =>
      simp only [office, hpending]
      exact h.idle fun j hj => by cases hj; exact hpending
    | cons e rest =>
      simp only [office, hpending]
      exact h.report hpending
  | worker =>
    cases hwriting : s.writing with
    | some e =>
      simp only [office, hwriting]
      exact h.idle fun _ hj => by cases hj
    | none =>
      cases hqueue : s.dispatcher.queue with
      | nil =>
        simp only [office, hwriting, hqueue]
        exact h.idle fun _ hj => by cases hj
      | cons e rest =>
        simp only [office, hwriting, hqueue]
        exact h.work hwriting hqueue
  | sink taken =>
    cases hwriting : s.writing with
    | none =>
      simp only [office, hwriting]
      exact h.idle fun _ hj => by cases hj
    | some e =>
      simp only [office, hwriting]
      exact h.finish hwriting taken

end Turn

/-! ### A run of turns -/

section Run
variable [DecidableEq ι]

/-- However the turns fall, a dispatcher stands as it should. -/
theorem stands_after (c : AuditConfig) (hc : c.enabled = true) (reports : ι → List ε)
    (turns : List (Turn ι)) :
    Stands (max 1 c.queueCapacity) reports turns (office.answers (opened c reports) turns)
      (office.after (opened c reports) turns) := by
  induction turns using List.reverseRecOn with
  | nil => exact stands_opened c hc reports
  | append_singleton turns t ih =>
    rw [Machine.answers_append, Machine.after_append]
    exact ih.next t

/-- What a report comes to: it is dropped when as many events wait as may. -/
theorem Stands.accepted_iff {limit : Nat} {reports : ι → List ε} {turns : List (Turn ι)}
    {effects : List (Effect ε ι)} {s : Office ε ι} (h : Stands limit reports turns effects s)
    {t : Turn ι} {i : ι} {e : ε} {accepted : Bool}
    (ht : (office.next t s).1 = .reported i e accepted) :
    accepted = false ↔
      (effects.filterMap accepted?).length = (effects.filterMap handed?).length + limit := by
  have haccepted : accepted = s.dispatcher.hasRoom := by
    cases t with
    | reporter j =>
      cases hpending : s.pending j <;> simp only [office, hpending] at ht <;> cases ht
      rfl
    | worker =>
      cases hwriting : s.writing <;> cases hqueue : s.dispatcher.queue <;>
        simp only [office, hwriting, hqueue] at ht <;> cases ht
    | sink taken =>
      cases hwriting : s.writing <;> simp only [office, hwriting] at ht <;> cases ht
  have hroom := h.room
  rw [haccepted, ← Bool.not_eq_true, h.hasRoom_iff, h.waiting, List.length_append]
  omega

/-- Whether the sink takes an event or fails makes no difference to what comes next. -/
theorem next_forgiven (t : Turn ι) (s : Office ε ι) :
    office.next t.forgiven s = ((office.next t s).1.forgiven, (office.next t s).2) := by
  cases t with
  | reporter i => cases hpending : s.pending i <;> simp [office, hpending]
  | worker =>
    cases hwriting : s.writing <;> cases hqueue : s.dispatcher.queue <;>
      simp [office, hwriting, hqueue]
  | sink taken => cases hwriting : s.writing <;> simp [office, hwriting]

theorem answers_forgiven (s : Office ε ι) (turns : List (Turn ι)) :
    office.answers s (turns.map Turn.forgiven) = (office.answers s turns).map forgiven := by
  induction turns generalizing s with
  | nil => rfl
  | cons t rest ih =>
    rw [List.map_cons, Machine.answers, Machine.answers, next_forgiven, List.map_cons]
    exact congrArg _ (ih _)

/-- The sink is done with what it was handed, if anything, and the worker comes. -/
theorem after_done_work (s : Office ε ι) (taken : Bool) :
    (office.after s [.sink taken, .worker]).dispatcher = s.dispatcher.work := by
  cases hwriting : s.writing <;> cases hqueue : s.dispatcher.queue <;>
    simp [Machine.after, office, hwriting, hqueue, Dispatcher.work]

theorem drain_of_queue_eq_nil {d : Dispatcher ε} (h : d.queue = []) : d.drain = d := by
  obtain ⟨capacity, queue, handed⟩ := d
  subst h
  rw [Dispatcher.drain, List.append_nil]

/-- A worker and a sink that go on come to the end of what waits. -/
theorem after_done_work_all (s : Office ε ι) (outcomes : List Bool)
    (hall : s.dispatcher.queue.length ≤ outcomes.length) :
    (office.after s (outcomes.flatMap fun taken => [.sink taken, .worker])).dispatcher =
      s.dispatcher.drain := by
  induction outcomes generalizing s with
  | nil =>
    have hqueue : s.dispatcher.queue = [] := List.length_eq_zero_iff.mp (Nat.le_zero.mp hall)
    exact (drain_of_queue_eq_nil hqueue).symm
  | cons taken rest ih =>
    rw [List.flatMap_cons, Machine.after_append, ih, after_done_work]
    · cases hqueue : s.dispatcher.queue <;> simp [Dispatcher.work, Dispatcher.drain, hqueue]
    · rw [after_done_work]
      cases hqueue : s.dispatcher.queue <;> simp_all [Dispatcher.work]

/-- What a run of turns keeps of the events that are reported. -/
structure KeptInOrder (c : AuditConfig) (reports : ι → List ε) (turns : List (Turn ι))
    (effects : List (Effect ε ι)) (s : Office ε ι) : Prop where
  /-- The events accepted are those that the sink was handed, and then those that wait. -/
  order : effects.filterMap accepted? = effects.filterMap handed? ++ s.dispatcher.queue
  /-- What the dispatcher counts as handed to the sink is what the sink was handed. -/
  handed : s.dispatcher.handed = effects.filterMap handed?
  /-- The sink was handed an event only when it was done with the one before. -/
  one_by_one : effects.filterMap handed? = effects.filterMap written? ++ s.writing.toList
  /-- A report is dropped only when as many of the accepted events wait as may. -/
  dropped : ∀ n i e accepted, effects[n]? = some (.reported i e accepted) →
    (accepted = false ↔ ((effects.take n).filterMap accepted?).length =
      ((effects.take n).filterMap handed?).length + max 1 c.queueCapacity)
  /-- A sink that fails changes nothing but that it has failed. -/
  failures : office.answers (opened c reports) (turns.map Turn.forgiven) = effects.map forgiven
  /-- A worker that goes on hands over all that waits, whatever the sink does with it. -/
  progress : ∀ outcomes : List Bool, s.dispatcher.queue.length ≤ outcomes.length →
    (office.after s (outcomes.flatMap fun taken => [.sink taken, .worker])).dispatcher.handed =
      effects.filterMap accepted?
  /-- Each turn of one who has something to report is a report made. -/
  unhindered : ∀ i, effects.filterMap (reportedBy? i) =
    (reports i).take (turns.count (.reporter i))

/-- **What is reported is kept in order.** However the turns of those who report, of the worker
and of the sink fall, the sink is handed the accepted events in order and each once; only a full
queue drops a report; no failure of the sink is felt by a later event; and nobody who reports
waits for the worker. -/
theorem reports_kept_in_order (c : AuditConfig) (hc : c.enabled = true) (reports : ι → List ε)
    (turns : List (Turn ι)) :
    KeptInOrder c reports turns (office.answers (opened c reports) turns)
      (office.after (opened c reports) turns) := by
  have h := stands_after c hc reports turns
  refine
    { order := h.waiting
      handed := h.handed
      one_by_one := h.writing
      dropped := fun n i e accepted hn => ?_
      failures := answers_forgiven _ _
      progress := fun outcomes hall => ?_
      unhindered := h.reported }
  · -- The state in which the report was made is the one after the turns before it.
    have hlt : n < turns.length := by
      rw [← Machine.length_answers office (opened c reports) turns]
      exact (List.getElem?_eq_some_iff.mp hn).1
    have hmade := Machine.answers_getElem? office (opened c reports)
      (List.getElem?_eq_getElem hlt)
    rw [Machine.answers_take]
    exact (stands_after c hc reports (turns.take n)).accepted_iff
      (Option.some.inj (hmade.symm.trans hn))
  · rw [after_done_work_all _ outcomes hall, h.waiting, Dispatcher.drain, h.handed]

/-- Two who report, a queue for one event and a sink that fails on the first: the third event
comes while the second waits and is dropped, and the fourth is handed over after the failure. -/
theorem reports_kept_in_order_full_queue :
    let c : AuditConfig := { queueCapacity := 0 }
    let reports : Bool → List Nat := fun i => if i then [1, 3] else [2, 4]
    let turns : List (Turn Bool) :=
      [.reporter true, .worker, .reporter false, .worker, .reporter true, .sink false, .worker,
        .reporter false, .sink true, .worker]
    c.enabled = true ∧
      KeptInOrder c reports turns
        [.reported true 1 true, .handed 1, .reported false 2 true, .nothing,
          .reported true 3 false, .written 1 false, .handed 2, .reported false 4 true,
          .written 2 true, .handed 4]
        (office.after (opened c reports) turns) := by
  intro c reports turns
  have heffects : office.answers (opened c reports) turns =
      [.reported true 1 true, .handed 1, .reported false 2 true, .nothing,
        .reported true 3 false, .written 1 false, .handed 2, .reported false 4 true,
        .written 2 true, .handed 4] := by decide
  have hkept := reports_kept_in_order c rfl reports turns
  rw [heffects] at hkept
  exact ⟨rfl, hkept⟩

end Run

end Gatehouse.Audit
