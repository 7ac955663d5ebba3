import Gatehouse.Proofs.Counter.Coherence
import Gatehouse.Proofs.Counter.Login

/-! Locks are fixed once they are set.

Settings are read anew on every call, so the policies under which a locked account is asked about
may differ from the one that locked it, and from one another; and the clocks of those who ask may
disagree. `lock_fixed` says that none of this moves a lock: whatever is asked or fails before its
end, the lock keeps its end, loses no attempts, and denies everyone; and from its end on nothing
is left of it, under any policy. -/
namespace Gatehouse.Counter.Engine

/-- The engine on one counter of failed logins, where every event has a policy of its own. -/
def logins (k : Key) :
    Machine (LoginPolicy × Event × Instant) Memory (Option (Except Store.Error Decision)) where
  next e store := (counter (.login e.1) k).next e.2 store

/-- An account is looked at, or a login fails, before an instant. -/
def Tries (u : Instant) (e : LoginPolicy × Event × Instant) : Prop :=
  (e.2.1 = .evaluated ∨ e.2.1 = .failed) ∧ e.2.2 < u

instance (u : Instant) (e : LoginPolicy × Event × Instant) : Decidable (Tries u e) :=
  inferInstanceAs (Decidable (_ ∧ _))

/-- A record is a lock that ends at an instant, with at least so many attempts. -/
structure LockTo (u : Instant) (least : Nat) (r : Record) : Prop where
  locked : r.allowRequest = false
  ends : r.expireAt = u
  le_attempts : least ≤ r.attempts
  attempts_le : r.attempts ≤ Counter.maxAttempts

section Record
variable {q : LoginPolicy} {k : Key} {u now : Instant} {least : Nat} {r : Record}

theorem LockTo.live (h : LockTo u least r) (hnow : now < u) :
    live (.login q) (some r) now = some r := by
  rw [LoginPolicy.live_some, if_pos (h.ends.symm ▸ hnow)]

theorem LockTo.over (h : LockTo u least r) (hnow : u ≤ now) :
    Engine.live (.login q) (some r) now = none := by
  rw [LoginPolicy.live_some, if_neg (not_lt.mpr (h.ends.symm ▸ hnow))]

/-- A failure under any policy leaves a lock as it is, but for one attempt more. -/
theorem LockTo.nextRecord (h : LockTo u least r) (hnow : now < u) :
    LockTo u least (nextRecord (.login q) k now (some r)) := by
  have hlive : Engine.live (.login q) (some r) now = some r := h.live hnow
  have hattempts : (Engine.nextRecord (.login q) k now (some r)).attempts =
      Policy.countUp r.attempts := by
    rw [Engine.nextRecord, Policy.applyFailure_attempts, hlive]
    rfl
  have hcount : least ≤ (Engine.nextRecord (.login q) k now (some r)).attempts := by
    rw [hattempts]
    exact Nat.le_trans h.le_attempts (Policy.le_countUp h.attempts_le)
  have hmost : (Engine.nextRecord (.login q) k now (some r)).attempts ≤ Counter.maxAttempts := by
    rw [hattempts]
    exact Policy.countUp_le_maxAttempts _
  cases q.nextRecord_cases k now (some r) with
  | keeps r₀ hlive₀ _ hlocked hend =>
    cases hlive.symm.trans hlive₀
    exact ⟨hlocked, hend.trans h.ends, hcount, hmost⟩
  | locks hopen _ _ | counts hopen _ _ =>
    exact absurd (hopen r hlive) (Bool.eq_false_iff.mp h.locked)

end Record

/-- Under a key stands a lock that ends at an instant, with at least so many attempts. -/
structure Locked (k : Key) (u : Instant) (least : Nat) (s : Memory) : Prop where
  keyed : s.Keyed
  stored : ∃ r, s.find? k = some r ∧ LockTo u least r

section Run
variable {k : Key} {u : Instant} {least : Nat} {s : Memory}
  {e : LoginPolicy × Event × Instant} {es : List (LoginPolicy × Event × Instant)}

/-- **Before its end a lock denies whoever tries, and stays.** -/
theorem Locked.next (h : Locked k u least s) (he : Tries u e) :
    (∃ d, ((logins k).next e s).1 = some (.ok d) ∧ d.allowed = false) ∧
      Locked k u least ((logins k).next e s).2 := by
  obtain ⟨q, event, now⟩ := e
  obtain ⟨r, hfind, hlock⟩ := h.stored
  have hok : (Policy.login q).isMisconfigured = false := rfl
  obtain ⟨rfl | rfl, hnow⟩ := he
  · simp only [logins, counter, run_evaluate hok, hfind, hlock.live hnow]
    exact ⟨⟨_, rfl, hlock.locked⟩, h⟩
  · simp only [logins, counter, run_recordFailure hok h.keyed]
    have hnext : LockTo u least (nextRecord (.login q) k now (s.find? k)) :=
      hfind ▸ hlock.nextRecord hnow
    exact ⟨⟨_, rfl, hnext.locked⟩, h.keyed.put _, _, find?_put_nextRecord h.keyed, hnext⟩

theorem Locked.after (h : Locked k u least s) (hes : ∀ e ∈ es, Tries u e) :
    Locked k u least ((logins k).after s es) :=
  Machine.after_keeps (fun _ _ he hs => (hs.next he).2) h hes

theorem Locked.answers (h : Locked k u least s) (hes : ∀ e ∈ es, Tries u e) :
    ∀ a ∈ (logins k).answers s es, ∃ d, a = some (.ok d) ∧ d.allowed = false := by
  intro a ha
  obtain ⟨i, hi⟩ := List.mem_iff_getElem?.mp ha
  have hlt : i < es.length := by
    rw [← (logins k).length_answers s es]
    exact (List.getElem?_eq_some_iff.mp hi).1
  rw [Machine.answers_getElem? _ _ (List.getElem?_eq_getElem hlt)] at hi
  cases hi
  have htake : ∀ e ∈ es.take i, Tries u e := fun e he => hes e (List.mem_of_mem_take he)
  exact ((h.after htake).next (hes _ (List.getElem_mem hlt))).1

/-- The lock that stands after a part of a run: it is there, and it ends when it did. -/
theorem Locked.take (h : Locked k u least s) (hes : ∀ e ∈ es, Tries u e) (i : Nat) :
    ∃ r, ((logins k).after s (es.take i)).find? k = some r ∧ LockTo u least r :=
  (h.after fun e he => hes e (List.mem_of_mem_take he)).stored

/-- In the course of a run a lock loses no attempts. -/
theorem Locked.attempts_le (h : Locked k u least s) (hes : ∀ e ∈ es, Tries u e) {i j : Nat}
    (hij : i ≤ j) {r r' : Record} (hr : ((logins k).after s (es.take i)).find? k = some r)
    (hr' : ((logins k).after s (es.take j)).find? k = some r') : r.attempts ≤ r'.attempts := by
  have hmid := h.after fun e (he : e ∈ es.take i) => hes e (List.mem_of_mem_take he)
  obtain ⟨r₀, hr₀, hlock⟩ := hmid.stored
  cases hr₀.symm.trans hr
  have hfrom : Locked k u r.attempts ((logins k).after s (es.take i)) :=
    ⟨hmid.keyed, r, hr, { hlock with le_attempts := Nat.le_refl _ }⟩
  have hsplit := List.take_append_drop i (es.take j)
  rw [List.take_take, Nat.min_eq_left hij] at hsplit
  rw [← hsplit, Machine.after_append] at hr'
  obtain ⟨r₁, hr₁, hlock'⟩ := (hfrom.after fun e he =>
    hes e (List.mem_of_mem_take (List.mem_of_mem_drop he))).stored
  cases hr₁.symm.trans hr'
  exact hlock'.le_attempts

/-- From its end on a lock is over. -/
theorem Locked.over (h : Locked k u least s) {t : Instant} (ht : u ≤ t) (q : LoginPolicy) :
    (s.run (evaluate (.login q) k t)).1 = .ok (Policy.login q).decideFresh := by
  obtain ⟨r, hfind, hlock⟩ := h.stored
  rw [run_evaluate rfl, hfind, hlock.over ht]
  rfl

/-- **A lock is fixed once it is set.** A store has a record that is locked; before the end of the
lock the account is looked at and logins fail, in any order in time, and under any policies. Then
everyone is denied, the record stays locked with the same end throughout, and its attempts do not
decrease; and at its end or later, any policy lets callers through and finds no record. -/
theorem lock_fixed (hs : s.Keyed) {r : Record} (hr : s.find? k = some r)
    (hlocked : r.allowRequest = false) (hword : r.attempts ≤ Counter.maxAttempts)
    (hes : ∀ e ∈ es, Tries r.expireAt e) :
    (∀ a ∈ (logins k).answers s es, ∃ d, a = some (.ok d) ∧ d.allowed = false) ∧
    (∀ i, ∃ r', ((logins k).after s (es.take i)).find? k = some r' ∧
      r'.allowRequest = false ∧ r'.expireAt = r.expireAt) ∧
    (∀ i j r₁ r₂, i ≤ j → ((logins k).after s (es.take i)).find? k = some r₁ →
      ((logins k).after s (es.take j)).find? k = some r₂ → r₁.attempts ≤ r₂.attempts) ∧
    ∀ (q : LoginPolicy) (t : Instant), r.expireAt ≤ t →
      ∃ d, (((logins k).after s es).run (evaluate (.login q) k t)).1 = .ok d ∧
        d.allowed = true ∧ d.record = none := by
  have h : Locked k r.expireAt 0 s := ⟨hs, r, hr, hlocked, rfl, Nat.zero_le _, hword⟩
  refine ⟨h.answers hes, fun i => ?_, fun i j r₁ r₂ hij hr₁ hr₂ => h.attempts_le hes hij hr₁ hr₂,
    fun q t ht => ⟨_, (h.after hes).over ht q, rfl, rfl⟩⟩
  obtain ⟨r', hr', hlock⟩ := h.take hes i
  exact ⟨r', hr', hlock.locked, hlock.ends⟩

/-- One failure locks an account for a minute. Two more come under a policy that would lock it a
minute and a half later, and in the wrong order; at the end of the minute it is open. -/
theorem lock_fixed_for_a_minute :
    let k : Key := ⟨.login, { reference := .domain "acme", subject := "alice" }⟩
    let p : LoginPolicy := ⟨1, .seconds 60, .seconds 600⟩
    let other : LoginPolicy := ⟨100, .seconds 90, .seconds 90⟩
    let s := ({} : Memory).put (nextRecord (.login p) k .epoch none)
    let es : List (LoginPolicy × Event × Instant) := [(other, .failed, .ofMillis 59999),
      (p, .evaluated, .ofMillis (-5000)), (other, .failed, .ofMillis 1000)]
    let later := (logins k).after s es
    (∀ a ∈ (logins k).answers s es, ∃ d, a = some (.ok d) ∧ d.allowed = false) ∧
      (later.find? k).map (fun r => (r.attempts, r.expireAt)) = some (3, .ofMillis 60000) ∧
      ∃ d, (later.run (evaluate (.login other) k (.ofMillis 60000))).1 = .ok d ∧
        d.allowed = true ∧ d.record = none := by
  intro k p other s es later
  have hs : s.Keyed := Memory.keyed_empty.put _
  have hr : s.find? k = some (nextRecord (.login p) k .epoch none) := by decide +kernel
  have hend : (nextRecord (.login p) k .epoch none).expireAt = .ofMillis 60000 := by
    decide +kernel
  have hes : ∀ e ∈ es, Tries (nextRecord (.login p) k .epoch none).expireAt e := by decide +kernel
  obtain ⟨hdenied, -, -, hover⟩ := lock_fixed hs hr (by decide +kernel) (by decide +kernel) hes
  exact ⟨hdenied, by decide +kernel, hover other (.ofMillis 60000) (le_of_eq hend)⟩

end Run

end Gatehouse.Counter.Engine
