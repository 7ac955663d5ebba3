import Gatehouse.Proofs.Counter.Expiry
import Gatehouse.Proofs.Machine
import Gatehouse.Proofs.Table

/-! Purging leaves decisions alone.

A store in memory keeps records whose time is over until it is purged of them. Over a run
on one counter it makes no difference when that happens, or whether it does
(`decisions_purged`): two stores are alike from an instant on when the same is live in
them at that instant and later (`Alike`), a purge leaves a store alike, as what it drops
has lapsed by then, and from alike stores the engine decides the same.

Where tokens come back one by one this holds outside leap seconds. The time since a moment
in a leap second and the moment a span after it do not agree, so a record of such a moment
may be purged a second before its tokens are back (`purged_in_leap_second`). -/
namespace Gatehouse.Counter

theorem Memory.find?_purge {s : Memory} (hs : s.records.Ordered) (k : Key) (now : Instant) :
    (s.purge now).find? k = (s.find? k).filter fun r => !r.isExpired now :=
  hs.find?_keep _ _

namespace Engine

/-! ### Runs on one counter -/

/-- What happens to a counter, or to the store that it is in. -/
inductive Event where
  | evaluated
  | failed
  | succeeded
  | removed
  /-- The store drops all records whose time is over. -/
  | purged
  deriving DecidableEq, Repr

/-- The engine on one counter, over a store in memory where nothing goes wrong. -/
def counter (p : Policy) (k : Key) :
    Machine (Event × Instant) Memory (Option (Except Store.Error Decision)) where
  next e store :=
    match e.1 with
    | .evaluated => (some (store.run (evaluate p k e.2)).1, (store.run (evaluate p k e.2)).2)
    | .failed => (some (store.run (recordFailure p k e.2)).1, (store.run (recordFailure p k e.2)).2)
    | .succeeded => (none, (store.run (recordSuccess p k)).2)
    | .removed => (none, (store.run (reset k)).2)
    | .purged => (none, store.purge e.2)

/-- The decisions of a run. -/
def decisions (p : Policy) (k : Key) (s : Memory) (es : List (Event × Instant)) :
    List (Except Store.Error Decision) :=
  ((counter p k).answers s es).filterMap id

/-! ### Stores that are alike -/

/-- The same is live under the key in two stores, at an instant and later. Of the second it
is known that it can be purged. -/
structure Alike (p : Policy) (k : Key) (t : Instant) (s s' : Memory) : Prop where
  keyed : s.Keyed
  keyed' : s'.Keyed
  ordered : s'.records.Ordered
  dated : ∀ r ∈ s'.find? k, p.Dated r
  live_eq : ∀ t', t ≤ t' → p.Covers t' → live p (s.find? k) t' = live p (s'.find? k) t'

variable {p : Policy} {k : Key} {t now : Instant} {s s' : Memory}

theorem alike_refl (hs : s.Keyed) (ho : s.records.Ordered) (hd : ∀ r ∈ s.find? k, p.Dated r) :
    Alike p k t s s := ⟨hs, hs, ho, hd, fun _ _ _ => rfl⟩

theorem Alike.mono (h : Alike p k t s s') (hle : t ≤ now) : Alike p k now s s' :=
  { h with live_eq := fun t' ht' => h.live_eq t' (le_trans hle ht') }

/-- A failure leaves the same record in stores that are alike. -/
theorem Alike.nextRecord_eq (h : Alike p k t s s') (hle : t ≤ now) (hnow : p.Covers now) :
    nextRecord p k now (s.find? k) = nextRecord p k now (s'.find? k) := by
  rw [nextRecord, nextRecord, h.live_eq now hle hnow]

theorem Alike.put (h : Alike p k t s s') (hp : p.WellConfigured) (hle : t ≤ now)
    (hnow : p.Covers now) :
    Alike p k now (s.put (nextRecord p k now (s.find? k)))
      (s'.put (nextRecord p k now (s'.find? k))) where
  keyed := h.keyed.put _
  keyed' := h.keyed'.put _
  ordered := h.ordered.insert _ _
  dated := by
    rw [find?_put_nextRecord h.keyed']
    intro r hr
    cases hr
    exact Policy.dated_nextRecord hp hnow h.dated
  live_eq t' _ _ := by
    rw [find?_put_nextRecord h.keyed, find?_put_nextRecord h.keyed', h.nextRecord_eq hle hnow]

theorem Alike.erase (h : Alike p k t s s') : Alike p k t (s.erase k) (s'.erase k) where
  keyed := h.keyed.erase k
  keyed' := h.keyed'.erase k
  ordered := h.ordered.erase _
  dated := by
    rw [Memory.find?_erase]
    intro r hr
    cases hr
  live_eq t' _ _ := by rw [Memory.find?_erase, Memory.find?_erase]

/-- A purge drops only what has lapsed by its instant, and so at every later one. -/
theorem Alike.purge (h : Alike p k t s s') (hp : p.WellConfigured) (hpurge : p.Purgeable)
    (hle : t ≤ now) : Alike p k now s (s'.purge now) where
  keyed := h.keyed
  keyed' := h.keyed'.purge now
  ordered := h.ordered.keep _
  dated := by
    rw [Memory.find?_purge h.ordered]
    intro r hr
    exact h.dated r (Option.mem_filter_iff.mp hr).1
  live_eq t' ht' hcovers := by
    rw [h.live_eq t' (le_trans hle ht') hcovers, Memory.find?_purge h.ordered]
    cases hfind : s'.find? k with
    | none => rfl
    | some r =>
      by_cases hend : r.expireAt ≤ now
      · have hexpired : r.isExpired now = true := decide_eq_true hend
        have hlapsed : p.refresh r t' = none :=
          (h.dated r hfind).lapses hp hpurge hcovers (le_trans hend ht')
        simp [live, Option.filter, hexpired, hlapsed]
      · have hexpired : r.isExpired now = false := decide_eq_false hend
        simp [Option.filter, hexpired]

/-! ### The engine decides the same -/

/-- Stores that are alike answer an event alike, and are alike after it. -/
theorem Alike.next (h : Alike p k t s s') (hp : p.WellConfigured) (hpurge : p.Purgeable)
    {e : Event × Instant} (hle : t ≤ e.2) (hcovers : p.Covers e.2) (he : e.1 ≠ .purged) :
    ((counter p k).next e s').1 = ((counter p k).next e s).1 ∧
      Alike p k e.2 ((counter p k).next e s).2 ((counter p k).next e s').2 := by
  have hok := hp.not_misconfigured
  obtain ⟨event, now⟩ := e
  cases event with
  | evaluated =>
    simp only [counter, run_evaluate hok]
    rw [h.live_eq now hle hcovers]
    exact ⟨rfl, h.mono hle⟩
  | failed =>
    simp only [counter, run_recordFailure hok h.keyed, run_recordFailure hok h.keyed']
    refine ⟨?_, h.put hp hle hcovers⟩
    rw [h.nextRecord_eq hle hcovers]
  | succeeded =>
    have hresets : p.resetsOnSuccess = true := by
      cases p with
      | login p => rfl
      | verify p => cases hpurge
      | rateLimit p => rfl
    simp only [counter, run_recordSuccess hresets]
    exact ⟨trivial, (h.mono hle).erase⟩
  | removed =>
    simp only [counter, run_reset]
    exact ⟨trivial, (h.mono hle).erase⟩
  | purged => exact absurd rfl he

/-- From stores that are alike, a run with purges decides what the run without them does. -/
theorem Alike.decisions_eq (h : Alike p k t s s') (hp : p.WellConfigured) (hpurge : p.Purgeable)
    {es : List (Event × Instant)} (hle : ∀ e ∈ es, t ≤ e.2) (hsorted : es.Pairwise (·.2 ≤ ·.2))
    (hcovers : ∀ e ∈ es, p.Covers e.2) :
    decisions p k s' es = decisions p k s (es.filter (·.1 != .purged)) := by
  induction es generalizing t s s' with
  | nil => rfl
  | cons e rest ih =>
    obtain ⟨hfirst, hrest⟩ := List.pairwise_cons.mp hsorted
    have hle₀ := hle e List.mem_cons_self
    have hcovers₀ := hcovers e List.mem_cons_self
    have hcovers' : ∀ e' ∈ rest, p.Covers e'.2 := fun e' he' =>
      hcovers e' (List.mem_cons_of_mem _ he')
    by_cases he : e.1 = .purged
    · have hkept : (e :: rest).filter (·.1 != .purged) = rest.filter (·.1 != .purged) := by
        simp [he]
      have hdrops : (counter p k).next e s' = (none, s'.purge e.2) := by
        simp only [counter, he]
      rw [hkept, ← ih (h.purge hp hpurge hle₀) hfirst hrest hcovers']
      simp [decisions, Machine.answers, hdrops]
    · have hkept : (e :: rest).filter (·.1 != .purged) = e :: rest.filter (·.1 != .purged) := by
        simp [he]
      obtain ⟨hanswer, halike⟩ := h.next hp hpurge hle₀ hcovers₀ he
      have hrun := ih halike hfirst hrest hcovers'
      unfold decisions at hrun ⊢
      rw [hkept, Machine.answers, Machine.answers, List.filterMap_cons, List.filterMap_cons,
        hanswer, hrun]

/-- **Purging never changes a decision.** Over any run on a counter for logins or for a rate
limit, at instants in order before the end of the calendar, the decisions are those of the
run without its purges, wherever these come. What is stored before the run is nothing, or a
record as the policy writes it; where tokens come back one by one, the instants lie outside
leap seconds. -/
theorem decisions_purged (p : Policy) (hp : p.WellConfigured) (hpurge : p.Purgeable) (k : Key)
    (s : Memory) (hs : s.Keyed) (ho : s.records.Ordered) (hd : ∀ r ∈ s.find? k, p.Dated r)
    (es : List (Event × Instant)) (hsorted : es.Pairwise (·.2 ≤ ·.2))
    (hlatest : ∀ e ∈ es, e.2 < .latest)
    (hregular : p.measuresTime = true → ∀ e ∈ es, e.2.IsRegular) :
    decisions p k s es = decisions p k s (es.filter (·.1 != .purged)) := by
  have hcovers : ∀ e ∈ es, p.Covers e.2 := fun e he => ⟨hlatest e he, fun h => hregular h e he⟩
  obtain ⟨t, hle⟩ : ∃ t : Instant, ∀ e ∈ es, t ≤ e.2 := by
    cases es with
    | nil => exact ⟨.epoch, fun e he => by cases he⟩
    | cons e rest =>
      refine ⟨e.2, fun e' he' => ?_⟩
      rcases List.mem_cons.mp he' with rfl | hrest
      · exact le_refl _
      · exact (List.pairwise_cons.mp hsorted).1 e' hrest
  exact (alike_refl (t := t) hs ho hd).decisions_eq hp hpurge hle hsorted hcovers

/-- Two tokens, one of which comes back each second. The purge at two seconds finds all
tokens back and drops the record; the one before finds the last token missing. -/
theorem decisions_purged_between_tokens :
    let p : Policy := .rateLimit ⟨2, .seconds 2, .proportional⟩
    let k : Key := ⟨.rateLimit, { reference := .domain "acme", subject := "alice" }⟩
    let moment (millis : Int) (e : Event) : Event × Instant := (e, .ofMillis millis)
    let es := [moment 0 .failed, moment 500 .failed, moment 900 .failed, moment 1999 .purged,
      moment 1999 .evaluated, moment 2000 .purged, moment 2000 .evaluated, moment 2000 .failed]
    decisions p k {} es = decisions p k {} (es.filter (·.1 != .purged)) ∧
      (decisions p k {} es).map (fun d => d.toOption.bind (·.tokensLeft)) =
        [some 1, some 0, some (-1), some 1, some 2, some 1] := by
  intro p k moment es
  refine ⟨?_, by decide +kernel⟩
  exact decisions_purged p (by decide) (by decide) k {} Memory.keyed_empty Table.ordered_empty
    (fun _ h => by cases h) es (by decide) (by decide) (by decide)

/-- A token is taken half a second into the leap second at the end of 2016, and comes back in
a second. One second into 2017 it is not back, by the time that has passed, and the next
event is refused; a purge at that instant finds the record's time over, and the event is
allowed. -/
theorem purged_in_leap_second :
    let p : Policy := .rateLimit ⟨1, .seconds 1, .proportional⟩
    let k : Key := ⟨.rateLimit, { reference := .domain "acme", subject := "alice" }⟩
    let taken : Instant := ⟨1483228799999999999, 500000001⟩
    let next : Instant := .ofMillis 1483228801000
    let allowed (es : List (Event × Instant)) :=
      (decisions p k {} es).map fun d => d.toOption.map (·.allowed)
    taken < next ∧ allowed [(.failed, taken), (.failed, next)] = [some true, some false] ∧
      allowed [(.failed, taken), (.purged, next), (.failed, next)] = [some true, some true] := by
  decide +kernel

end Engine

end Gatehouse.Counter
