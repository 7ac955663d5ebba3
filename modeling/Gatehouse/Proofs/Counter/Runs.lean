import Gatehouse.Proofs.Counter.Confined
import Gatehouse.Proofs.Counter.Purge

/-! What runs on counters keep.

Only failures write records under a key. So a property of records holds of whatever any run
leaves there, if a failure's record has it whenever what was found had it
(`Holds.after`). The same goes for runs on all counters of a store and the records of all of
them (`Stocked.after`). -/
namespace Gatehouse.Counter.Engine

/-- What stands under a key has a property. -/
structure Holds (k : Key) (P : Record → Prop) (s : Memory) : Prop where
  keyed : s.Keyed
  ordered : s.records.Ordered
  all : ∀ r ∈ s.find? k, P r

variable {p : Policy} {k : Key} {P : Record → Prop} {s : Memory} {now : Instant}

theorem holds_empty (k : Key) (P : Record → Prop) : Holds k P {} :=
  ⟨Memory.keyed_empty, Table.ordered_empty, fun _ hr => by cases hr⟩

theorem Holds.put (h : Holds k P s) (hP : P (nextRecord p k now (s.find? k))) :
    Holds k P (s.put (nextRecord p k now (s.find? k))) where
  keyed := h.keyed.put _
  ordered := h.ordered.insert _ _
  all := by
    rw [find?_put_nextRecord h.keyed]
    intro r hr
    cases hr
    exact hP

theorem Holds.erase (h : Holds k P s) : Holds k P (s.erase k) where
  keyed := h.keyed.erase k
  ordered := h.ordered.erase _
  all := by
    rw [Memory.find?_erase]
    intro r hr
    cases hr

theorem Holds.purge (h : Holds k P s) (now : Instant) : Holds k P (s.purge now) where
  keyed := h.keyed.purge now
  ordered := h.ordered.keep _
  all := by
    rw [Memory.find?_purge h.ordered]
    intro r hr
    exact h.all r (Option.mem_filter_iff.mp hr).1

theorem Holds.next (h : Holds k P s) (hp : p.WellConfigured) {e : Event × Instant}
    (hkept : ∀ stored, (∀ r ∈ stored, P r) → P (nextRecord p k e.2 stored)) :
    Holds k P ((counter p k).next e s).2 := by
  have hok := hp.not_misconfigured
  obtain ⟨event, now⟩ := e
  cases event with
  | evaluated =>
    simp only [counter, run_evaluate hok]
    exact h
  | failed =>
    simp only [counter, run_recordFailure hok h.keyed]
    exact h.put (hkept _ h.all)
  | succeeded =>
    simp only [counter, recordSuccess]
    split
    · exact h.erase
    · exact h
  | removed => exact h.erase
  | purged => exact h.purge now

/-- What failures keep of a record, a run keeps. -/
theorem Holds.after (h : Holds k P s) (hp : p.WellConfigured) {Rule : Instant → Prop}
    (hkept : ∀ t, Rule t → ∀ stored, (∀ r ∈ stored, P r) → P (nextRecord p k t stored))
    {es : List (Event × Instant)} (hes : ∀ e ∈ es, Rule e.2) :
    Holds k P ((counter p k).after s es) :=
  Machine.after_keeps (fun e _ he hs => hs.next hp (hkept e.2 he)) h hes

/-! ### Runs on all counters of a store -/

/-- The engine on all counters of a store, each under a policy of its own. -/
def counters (policy : Key → Policy) :
    Machine (Key × Event × Instant) Memory (Option (Except Store.Error Decision)) where
  next e store := (counter (policy e.1) e.1).next e.2 store

/-- Every record of a store stands under its own storage key and has a property. -/
structure Stocked (P : Record → Prop) (s : Memory) : Prop where
  keyed : s.Keyed
  all : ∀ e ∈ s.records.toList, P e.2

variable {policy : Key → Policy} {r : Record}

theorem stocked_empty (P : Record → Prop) : Stocked P {} :=
  ⟨Memory.keyed_empty, fun _ he => by cases he⟩

theorem Stocked.mono {Q : Record → Prop} (h : Stocked P s) (hPQ : ∀ r, P r → Q r) : Stocked Q s :=
  { h with all := fun e he => hPQ e.2 (h.all e he) }

theorem Stocked.find? (h : Stocked P s) (hr : s.find? k = some r) : r.key = k ∧ P r :=
  ⟨h.keyed.key_eq hr, h.all _ (Table.mem_of_find? hr)⟩

theorem Stocked.put (h : Stocked P s) (hr : P r) : Stocked P (s.put r) where
  keyed := h.keyed.put r
  all e he := by
    rcases Table.mem_place he with rfl | he
    · exact hr
    · exact h.all e he

theorem Stocked.erase (h : Stocked P s) (k : Key) : Stocked P (s.erase k) where
  keyed := h.keyed.erase k
  all e he := h.all e (List.mem_filter.mp he).1

theorem Stocked.purge (h : Stocked P s) (now : Instant) : Stocked P (s.purge now) where
  keyed := h.keyed.purge now
  all e he := h.all e (List.mem_filter.mp he).1

theorem Stocked.next (h : Stocked P s) {e : Key × Event × Instant}
    (hkept : (policy e.1).isMisconfigured = false → ∀ stored, (∀ r ∈ stored, r.key = e.1 ∧ P r) →
      P (nextRecord (policy e.1) e.1 e.2.2 stored)) :
    Stocked P ((counters policy).next e s).2 := by
  obtain ⟨k, event, now⟩ := e
  cases event with
  | evaluated =>
    cases hp : (policy k).isMisconfigured with
    | true => simpa only [counters, counter, run_evaluate_misconfigured hp] using h
    | false => simpa only [counters, counter, run_evaluate hp] using h
  | failed =>
    cases hp : (policy k).isMisconfigured with
    | true => simpa only [counters, counter, run_recordFailure_misconfigured hp] using h
    | false =>
      simp only [counters, counter, run_recordFailure hp h.keyed]
      exact h.put (hkept hp _ fun r hr => h.find? hr)
  | succeeded =>
    simp only [counters, counter, recordSuccess]
    split
    · exact h.erase k
    · exact h
  | removed => exact h.erase k
  | purged => exact h.purge now

/-- What failures keep of the records, a run keeps. -/
theorem Stocked.after (h : Stocked P s) {Rule : Key × Event × Instant → Prop}
    (hkept : ∀ e, Rule e → (policy e.1).isMisconfigured = false →
      ∀ stored, (∀ r ∈ stored, r.key = e.1 ∧ P r) →
        P (nextRecord (policy e.1) e.1 e.2.2 stored))
    {es : List (Key × Event × Instant)} (hes : ∀ e ∈ es, Rule e) :
    Stocked P ((counters policy).after s es) :=
  Machine.after_keeps (fun e _ he hs => hs.next (hkept e he)) h hes

end Gatehouse.Counter.Engine
