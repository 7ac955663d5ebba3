import Gatehouse.Guard.Verify
import Gatehouse.Proofs.Guard.Basic
import Gatehouse.Proofs.Machine
import Mathlib.Data.List.SplitBy

/-! Failures that decay.

Failed verifications fall into streaks: a failure goes on with a streak where it comes within
the reset time of the one before it (`Follows`), and begins one otherwise. The guard keeps no
list of them, only a number and the instant of the last failure, and finds out that a streak
is over when it next reads the record. `verifier_counts_streaks` says that this comes to the
same: over any run, every call is told the length of the longest stretch of failures that
leads up to it (`Streak`), and each streak that reaches the threshold is reported once, at
the failure by which it does.

The reset time is added to the failure, and a moment in a leap second is compared with the
sum; so a failure may follow one that lies further back than the reset time
(`counted_in_leap_second`). Outside leap seconds that cannot be. -/
namespace Gatehouse.Guard.Verify

open Counter (Decision Memory Record)
open Counter.Engine (live nextRecord)

/-! ### Streaks -/

/-- An instant comes no later than the reset time after another. -/
def Follows (s : VerifySettings) (u t : Instant) : Prop := t ≤ u.after s.policy.reset

instance (s : VerifySettings) (u t : Instant) : Decidable (Follows s u t) :=
  inferInstanceAs (Decidable (t ≤ _))

/-- The failures that lead up to an instant: the longest stretch of them, back from the last,
in which each follows the one before it and the instant follows the last. -/
structure Streak (s : VerifySettings) (past : List Instant) (t : Instant) (l : List Instant) :
    Prop where
  suffix : l <:+ past
  linked : (l ++ [t]).IsChain (Follows s)
  longest : ∀ l', l' <:+ past → (l' ++ [t]).IsChain (Follows s) → l'.length ≤ l.length

/-- Failures, streak by streak. -/
def streaks (s : VerifySettings) (failures : List Instant) : List (List Instant) :=
  failures.splitBy fun u t => decide (Follows s u t)

/-! ### The guard of one caller -/

/-- What reaches the guard. -/
inductive Event where
  | failed
  | checked
  deriving DecidableEq, Repr

/-- The instants of the failures in a run. -/
def failures (es : List (Event × Instant)) : List Instant :=
  (es.filter (·.1 == .failed)).map (·.2)

/-- The guard of one caller, over a store in memory where nothing goes wrong. -/
def verifier (s : VerifySettings) (who : Criteria) :
    Machine (Event × Instant) Memory (Audit.Reported Decision) where
  next e store :=
    match e.1 with
    | .failed => store.run (failed s who e.2)
    | .checked => store.run (check s who e.2)

/-- What a call is told where `n` failures count, its own included: their number, as far as
can be counted, and whether it is below the threshold. The failure that reaches the threshold
is reported, and what is reported is that the caller's attempts are used up. -/
def Told (s : VerifySettings) (who : Criteria) (event : Event) (n : Nat)
    (o : Audit.Reported Decision) : Prop :=
  ∃ d, o.result = .ok d ∧ d.attempts = min n Counter.maxAttempts ∧
    (d.allowed = true ↔ d.attempts < s.maxAttempts) ∧
    (s.maxAttempts < Counter.maxAttempts →
      o.reports = if event = .failed ∧ n = s.maxAttempts then [exhaustedReport who d] else []) ∧
    ∀ r ∈ o.reports, r.kind = .verifyAttemptsExhausted ∧ r.subject = who.subject

/-! ### Counting as failures come -/

/-- The streak of the last failure: how many failures are in it, and when the last was. -/
structure Tally where
  number : Nat
  last : Instant

namespace Tally
variable (s : VerifySettings)

/-- How many failures lead up to an instant. -/
def upTo (t : Instant) : Option Tally → Nat
  | some c => if Follows s c.last t then c.number else 0
  | none => 0

/-- A failure goes on with the streak that leads up to it, or begins one. -/
def fail (c : Option Tally) (t : Instant) : Tally := ⟨upTo s t c + 1, t⟩

/-- The tally of the failures so far. -/
def ofFailures (past : List Instant) : Option Tally :=
  past.foldl (fun c t => some (fail s c t)) none

theorem ofFailures_concat (past : List Instant) (t : Instant) :
    ofFailures s (past ++ [t]) = some (fail s (ofFailures s past) t) := by
  simp [ofFailures]

/-- The tally knows how long the stretch is that leads up to an instant. -/
theorem exists_streak (past : List Instant) (t : Instant) :
    ∃ l, Streak s past t l ∧ l.length = upTo s t (ofFailures s past) := by
  induction past using List.reverseRecOn generalizing t with
  | nil =>
    refine ⟨[], ⟨List.nil_suffix, List.isChain_singleton t, fun l hl _ => ?_⟩, rfl⟩
    rw [List.suffix_nil.mp hl]
  | append_singleton older u ih =>
    rw [ofFailures_concat]
    by_cases hfollows : Follows s u t
    · obtain ⟨l, hl, hlength⟩ := ih u
      refine ⟨l ++ [u], ⟨?_, ?_, fun l' hl' hlinked => ?_⟩, ?_⟩
      · exact (List.suffix_append_inj_of_length_eq rfl).mpr ⟨hl.suffix, rfl⟩
      · exact hl.linked.append (List.isChain_singleton t) (by simpa using hfollows)
      · rcases List.suffix_concat_iff.mp hl' with rfl | ⟨l'', rfl, hl''⟩
        · exact Nat.zero_le _
        · simpa using hl.longest l'' hl'' hlinked.left_of_append
      · simp [upTo, fail, hfollows, hlength]
    · refine ⟨[], ⟨List.nil_suffix, List.isChain_singleton t, fun l' hl' hlinked => ?_⟩, ?_⟩
      · rcases List.suffix_concat_iff.mp hl' with rfl | ⟨l'', rfl, _⟩
        · exact Nat.le_refl _
        · -- The instant would have to follow the last failure.
          refine absurd ?_ hfollows
          exact (List.isChain_append.mp hlinked).2.2 u (by simp) t (by simp)
      · simp [upTo, fail, hfollows]

end Tally

/-! ### The last streak -/

section LastStreak
variable (s : VerifySettings)

/-- The failures so far end with the streak of which the tally is kept. -/
structure Ends (front last : List Instant) (c : Tally) : Prop where
  linked : last.IsChain (Follows s)
  apart : ∀ u ∈ front.getLast?, ∀ t ∈ last.head?, ¬ Follows s u t
  number : last.length = c.number
  latest : last.getLast? = some c.last

variable {s} {front last : List Instant} {c : Tally} {t : Instant}

theorem Ends.ne_nil (h : Ends s front last c) : last ≠ [] := by
  rintro rfl
  cases h.latest

theorem Ends.streaks_eq (h : Ends s front last c) :
    streaks s (front ++ last) = streaks s front ++ [last] := by
  have hlast : last.splitBy (fun u t => decide (Follows s u t)) = [last] :=
    List.splitBy_of_isChain h.ne_nil (by simpa using h.linked)
  rw [streaks, List.splitBy_append fun u hu t ht => decide_eq_false (h.apart u hu t ht), hlast]
  rfl

/-- A failure that follows goes on with the last streak. -/
theorem Ends.follow (h : Ends s front last c) (ht : Follows s c.last t) :
    Ends s front (last ++ [t]) ⟨c.number + 1, t⟩ where
  linked := by
    refine h.linked.append (List.isChain_singleton t) ?_
    rw [h.latest]
    simpa using ht
  apart := by
    rw [List.head?_append_of_ne_nil _ h.ne_nil]
    exact h.apart
  number := by simp [h.number]
  latest := by simp

/-- A failure that does not follow begins a streak. -/
theorem Ends.start (h : Ends s front last c) (ht : ¬ Follows s c.last t) :
    Ends s (front ++ last) [t] ⟨1, t⟩ where
  linked := List.isChain_singleton t
  apart := by
    rw [List.getLast?_append_of_ne_nil _ h.ne_nil, h.latest]
    simpa using ht
  number := rfl
  latest := rfl

theorem exists_ends (s : VerifySettings) {past : List Instant} (hpast : past ≠ []) :
    ∃ front last c, past = front ++ last ∧ Tally.ofFailures s past = some c ∧
      Ends s front last c := by
  induction past using List.reverseRecOn with
  | nil => exact absurd rfl hpast
  | append_singleton older t ih =>
    rw [Tally.ofFailures_concat]
    rcases List.eq_nil_or_concat older with rfl | ⟨_, _, hold⟩
    · refine ⟨[], [t], _, rfl, rfl, List.isChain_singleton t, by simp, rfl, rfl⟩
    · have hne : older ≠ [] := by simp [hold]
      obtain ⟨front, last, c, hsplit, htally, hends⟩ := ih hne
      rw [htally, Tally.fail, Tally.upTo]
      by_cases ht : Follows s c.last t
      · rw [if_pos ht, hsplit, List.append_assoc]
        exact ⟨_, _, _, rfl, rfl, hends.follow ht⟩
      · rw [if_neg ht, hsplit]
        exact ⟨_, _, _, rfl, rfl, hends.start ht⟩

/-- One more reaches a threshold that was not reached, or it was reached before. -/
theorem reached_succ (m n : Nat) :
    (if m ≤ n + 1 then 1 else 0) = (if m ≤ n then 1 else 0) + if n + 1 = m then 1 else 0 := by
  split <;> split <;> split <;> omega

/-- A failure makes one streak more reach the threshold just where it is the one with that
number in its streak. -/
theorem countP_streaks_concat (hmax : 1 ≤ s.maxAttempts) (past : List Instant) (t : Instant) :
    (streaks s (past ++ [t])).countP (s.maxAttempts ≤ ·.length) =
      (streaks s past).countP (s.maxAttempts ≤ ·.length) +
        if Tally.upTo s t (Tally.ofFailures s past) + 1 = s.maxAttempts then 1 else 0 := by
  have hfirst : (if s.maxAttempts ≤ 1 then 1 else 0) = if 0 + 1 = s.maxAttempts then 1 else 0 := by
    rw [reached_succ, if_neg (Nat.not_le.mpr hmax), Nat.zero_add]
  by_cases hpast : past = []
  · subst hpast
    show [[t]].countP _ = [].countP _ + _
    simp only [List.countP_singleton, List.countP_nil, List.length_singleton, decide_eq_true_eq,
      Nat.zero_add]
    exact hfirst
  · obtain ⟨front, last, c, rfl, htally, hends⟩ := exists_ends s hpast
    rw [htally, Tally.upTo, hends.streaks_eq]
    by_cases ht : Follows s c.last t
    · rw [if_pos ht, List.append_assoc, (hends.follow ht).streaks_eq]
      simp only [List.countP_append, List.countP_singleton, List.length_append,
        List.length_singleton, hends.number, decide_eq_true_eq]
      rw [reached_succ, Nat.add_assoc]
    · rw [if_neg ht, (hends.start ht).streaks_eq, hends.streaks_eq]
      simp only [List.countP_append, List.countP_singleton, List.length_singleton,
        decide_eq_true_eq]
      rw [hfirst]

end LastStreak

/-! ### The guard keeps the tally -/

/-- What is stored where the failures so far have a tally. -/
def Shows (s : VerifySettings) (c : Option Tally) (stored : Option Record) : Prop :=
  match c with
  | none => stored = none
  | some c => ∃ r, stored = some r ∧ r.updatedAt = c.last ∧
      r.attempts = min c.number Counter.maxAttempts ∧
      r.allowRequest = decide (r.attempts < s.maxAttempts)

section Follows
variable {s : VerifySettings} {who : Criteria} {now : Instant} {store : Memory}
  {c : Option Tally} {stored : Option Record}

theorem live_policy (r : Record) :
    live (policy s) (some r) now = if Follows s r.updatedAt now then some r else none := rfl

/-- The decision at an instant counts the failures that lead up to it. -/
theorem Shows.decided (h : Shows s c stored) (hmax : 1 ≤ s.maxAttempts) (now : Instant) :
    let d := (policy s).decide (live (policy s) stored now) now
    d.attempts = min (Tally.upTo s now c) Counter.maxAttempts ∧
      (d.allowed = true ↔ d.attempts < s.maxAttempts) := by
  have hfresh : ((policy s).decideFresh.allowed = true ↔
      (policy s).decideFresh.attempts < s.maxAttempts) := iff_of_true rfl hmax
  cases c with
  | none =>
    rw [show stored = none from h]
    exact ⟨rfl, hfresh⟩
  | some c =>
    obtain ⟨r, hstored, hlast, hattempts, hallow⟩ := h
    rw [hstored, live_policy, hlast, Tally.upTo]
    split
    · refine ⟨hattempts, ?_⟩
      show r.allowRequest = true ↔ r.attempts < s.maxAttempts
      simp [hallow]
    · exact ⟨rfl, hfresh⟩

/-- A failure takes the record of a tally to the record of the next. -/
theorem Shows.next (h : Shows s c stored) (k : Counter.Key) (now : Instant) :
    Shows s (some (Tally.fail s c now)) (some (nextRecord (policy s) k now stored)) := by
  have hfirst : Shows s (some ⟨0 + 1, now⟩) (some ((policy s).applyFailure none k now)) :=
    ⟨_, rfl, rfl, rfl, rfl⟩
  unfold nextRecord Tally.fail
  cases c with
  | none =>
    rw [show stored = none from h]
    exact hfirst
  | some c =>
    obtain ⟨r, hstored, hlast, hattempts, _⟩ := h
    rw [hstored, live_policy, hlast, Tally.upTo]
    split
    · refine ⟨_, rfl, rfl, ?_, rfl⟩
      show Counter.Policy.countUp r.attempts = min (c.number + 1) Counter.maxAttempts
      rw [hattempts, Counter.Policy.countUp]
      omega
    · exact hfirst

/-- The decision about a failure counts it in its streak. It is the one by which the threshold
is reached where the failure has that number, as far as can be counted. -/
theorem Shows.told {c : Tally} {r : Record} (h : Shows s (some c) (some r)) (now : Instant) :
    let d := (policy s).decide (some r) now
    d.attempts = min c.number Counter.maxAttempts ∧
      (d.allowed = true ↔ d.attempts < s.maxAttempts) ∧
      (s.maxAttempts < Counter.maxAttempts →
        reachesThreshold d = decide (c.number = s.maxAttempts)) := by
  obtain ⟨r', hr, _, hattempts, hallow⟩ := h
  cases hr
  refine ⟨hattempts, ?_, fun hword => ?_⟩
  · show r.allowRequest = true ↔ r.attempts < s.maxAttempts
    simp [hallow]
  · show (!r.allowRequest && r.attempts == s.maxAttempts) = _
    rw [Bool.eq_iff_iff, hallow, hattempts]
    simp only [Bool.and_eq_true, Bool.not_eq_true', decide_eq_false_iff_not, beq_iff_eq,
      decide_eq_true_eq]
    omega

theorem kind_exhaustedReport (who : Criteria) (d : Decision) :
    (exhaustedReport who d).kind = .verifyAttemptsExhausted ∧
      (exhaustedReport who d).subject = who.subject := by
  unfold exhaustedReport
  cases who.factor <;> exact ⟨rfl, rfl⟩

theorem run_check (hs : s.enabled = true) :
    store.run (check s who now) =
      (⟨.ok ((policy s).decide (live (policy s) (store.find? (key who)) now) now), []⟩, store) := by
  simp only [check, hs, if_true]
  exact Action.run_quiet (Counter.Engine.run_evaluate rfl)

theorem run_failed (hs : s.enabled = true) (hstore : store.Keyed) :
    let r := nextRecord (policy s) (key who) now (store.find? (key who))
    let d := (policy s).decide (some r) now
    store.run (failed s who now) =
      (⟨.ok d, if reachesThreshold d then [exhaustedReport who d] else []⟩, store.put r) := by
  simp only [failed, hs, if_true]
  exact Action.run_reporting (Counter.Engine.run_recordFailure rfl hstore) _ _

/-- The store of a caller whose failures so far are these. -/
def Stored (s : VerifySettings) (who : Criteria) (store : Memory) (past : List Instant) : Prop :=
  store.Keyed ∧ Shows s (Tally.ofFailures s past) (store.find? (key who))

variable {past : List Instant} {e : Event × Instant}

theorem failures_append (es es' : List (Event × Instant)) :
    failures (es ++ es') = failures es ++ failures es' := by
  simp [failures]

/-- One event: the guard tells how many failures count, and keeps the tally of all. -/
theorem told_next (hs : s.enabled = true) (hmax : 1 ≤ s.maxAttempts)
    (h : Stored s who store past) :
    Told s who e.1 (Tally.upTo s e.2 (Tally.ofFailures s past) + if e.1 = .failed then 1 else 0)
        ((verifier s who).next e store).1 ∧
      Stored s who ((verifier s who).next e store).2 (past ++ failures [e]) := by
  obtain ⟨hkeyed, hshows⟩ := h
  obtain ⟨event, now⟩ := e
  cases event with
  | failed =>
    have hnext := hshows.next (key who) now
    have hlogged : failures [(.failed, now)] = [now] := rfl
    obtain ⟨hattempts, hallowed, hreaches⟩ := hnext.told now
    simp only [verifier, run_failed hs hkeyed, if_true, hlogged]
    refine ⟨⟨_, rfl, hattempts, hallowed, fun hword => ?_, fun r hr => ?_⟩, hkeyed.put _, ?_⟩
    · simp only [hreaches hword, decide_eq_true_eq, true_and]
      rfl
    · split at hr
      · rw [List.mem_singleton.mp hr]
        exact kind_exhaustedReport who _
      · cases hr
    · rw [Counter.Engine.find?_put_nextRecord hkeyed, Tally.ofFailures_concat]
      exact hnext
  | checked =>
    have hlogged : failures [(.checked, now)] = [] := rfl
    obtain ⟨hattempts, hallowed⟩ := hshows.decided hmax now
    simp only [verifier, run_check hs, hlogged, List.append_nil]
    exact ⟨⟨_, rfl, hattempts, hallowed, fun _ => rfl, fun _ hr => nomatch hr⟩, hkeyed, hshows⟩

/-- Over a run the guard keeps the tally of all failures. -/
theorem Stored.after (hs : s.enabled = true) (hmax : 1 ≤ s.maxAttempts)
    (h : Stored s who store past) (es : List (Event × Instant)) :
    Stored s who ((verifier s who).after store es) (past ++ failures es) := by
  induction es generalizing store past with
  | nil =>
    show Stored s who store (past ++ [])
    rwa [List.append_nil]
  | cons e rest ih =>
    have hrest := ih (told_next hs hmax h (e := e)).2
    rwa [List.append_assoc, ← failures_append] at hrest

/-- Over a run one report is made for each streak that reaches the threshold. -/
theorem length_reports (hs : s.enabled = true) (hmax : 1 ≤ s.maxAttempts)
    (hword : s.maxAttempts < Counter.maxAttempts) (es : List (Event × Instant)) :
    (((verifier s who).answers {} es).flatMap (·.reports)).length =
      (streaks s (failures es)).countP (s.maxAttempts ≤ ·.length) := by
  have hempty : Stored s who {} [] := ⟨Memory.keyed_empty, rfl⟩
  induction es using List.reverseRecOn with
  | nil => rfl
  | append_singleton es e ih =>
    obtain ⟨d, _, _, _, hreports, _⟩ := (told_next hs hmax (hempty.after hs hmax es) (e := e)).1
    have hlast : (verifier s who).answers ((verifier s who).after {} es) [e] =
        [((verifier s who).next e ((verifier s who).after {} es)).1] := rfl
    rw [Machine.answers_append, hlast, List.flatMap_append, List.length_append, ih,
      failures_append, List.flatMap_singleton, hreports hword]
    obtain ⟨event, t⟩ := e
    cases event with
    | failed =>
      have hlogged : failures [(.failed, t)] = [t] := rfl
      rw [hlogged, countP_streaks_concat hmax]
      simp only [if_true, true_and, List.nil_append]
      split <;> rfl
    | checked =>
      have hlogged : failures [(.checked, t)] = [] := rfl
      simp [hlogged]

end Follows

/-- Outside leap seconds, to follow is to come after no more than the reset time. -/
theorem follows_iff {s : VerifySettings} {u t : Instant} (hu : u.Plain) (ht : t.Plain) :
    Follows s u t ↔ t.nanos - u.nanos ≤ s.resetTimeSecs * 1000000000 := by
  have hspan : s.policy.reset.nanos =
      min 9223372036854775807000000 (s.resetTimeSecs * 1000000000) := by
    show (Duration.ofSetting s.resetTimeSecs).nanos = _
    rw [Duration.ofSetting_eq_clamp]
    show max (-9223372036854775807000000) (min 9223372036854775807000000 _) = _
    simp only [Duration.nanosPerSecond]
    omega
  have hfirst : -8334601228800000000000 ≤ u.nanos := hu.2.1
  have hlast : t.nanos ≤ 8210266876799999999999 := ht.2.2
  rw [Follows, ht.le_iff (hu.after _), hu.nanos_after_eq_min (by omega), hspan]
  show t.nanos ≤ min _ 8210266876799999999999 ↔ _
  omega

/-- **Failed verifications decay streak by streak.** Over any run of failures and checks, from
a store without records: every call is told the length of the longest stretch of failures
that leads up to it, a failure counting itself on top, as far as can be counted; it is let
through just where that is below the threshold; and what is reported, as attempts that are
used up, are the failures that reach the threshold, one for each streak that does. Outside
leap seconds a failure belongs to the stretch where no gap up to it is longer than the reset
time. The instants need not be in order. -/
theorem verifier_counts_streaks (s : VerifySettings) (who : Criteria) (hs : s.enabled = true)
    (hmax : 1 ≤ s.maxAttempts) (es : List (Event × Instant)) :
    (∀ before e after, es = before ++ e :: after →
      ∃ l o, Streak s (failures before) e.2 l ∧
        ((verifier s who).answers {} es)[before.length]? = some o ∧
        Told s who e.1 (l.length + if e.1 = .failed then 1 else 0) o) ∧
      (s.maxAttempts < Counter.maxAttempts →
        (((verifier s who).answers {} es).flatMap (·.reports)).length =
          (streaks s (failures es)).countP (s.maxAttempts ≤ ·.length)) ∧
      ∀ u t : Instant, u.Plain → t.Plain →
        (Follows s u t ↔ t.nanos - u.nanos ≤ s.resetTimeSecs * 1000000000) := by
  refine ⟨?_, fun hword => length_reports hs hmax hword es, fun u t hu ht => follows_iff hu ht⟩
  rintro before e after rfl
  have hempty : Stored s who {} [] := ⟨Memory.keyed_empty, rfl⟩
  have hstored : Stored s who ((verifier s who).after {} before) (failures before) :=
    hempty.after hs hmax before
  obtain ⟨l, hl, hlength⟩ := Tally.exists_streak s (failures before) e.2
  refine ⟨l, _, hl, Machine.answers_at _ _ _ _ _, ?_⟩
  rw [hlength]
  exact (told_next hs hmax hstored).1

/-- Two failures a minute apart are one streak and reach the threshold; a failure that comes a
millisecond later than that begins another. -/
theorem verifier_two_streaks :
    let s : VerifySettings := { maxAttempts := 2, resetTimeSecs := 60 }
    let who : Criteria := { reference := .domain "acme", subject := "alice" }
    let moment (millis : Int) (e : Event) : Event × Instant := (e, .ofMillis millis)
    let es := [moment 0 .failed, moment 60000 .failed, moment 120000 .checked,
      moment 120001 .failed, moment 120001 .checked, moment 150000 .failed]
    (((verifier s who).answers {} es).flatMap (·.reports)).length = 2 ∧
      (((verifier s who).answers {} es).flatMap (·.reports)).map (fun r => (r.kind, r.subject)) =
        [(.verifyAttemptsExhausted, "alice"), (.verifyAttemptsExhausted, "alice")] ∧
      ((verifier s who).answers {} es).map (fun o => o.result.toOption.map (·.attempts)) =
        [some 1, some 2, some 2, some 1, some 1, some 2] := by
  intro s who moment es
  obtain ⟨_, hreports, _⟩ := verifier_counts_streaks s who rfl (by decide) es
  exact ⟨(hreports (by decide)).trans (by decide +kernel), by decide +kernel, by decide +kernel⟩

/-- Failures are remembered for a second. One comes half a second before the leap second at
the end of 2016, the other nine tenths into it: they are 1.4 seconds apart, and the second
is counted on top of the first. -/
theorem counted_in_leap_second :
    let s : VerifySettings := { maxAttempts := 3, resetTimeSecs := 1 }
    let who : Criteria := { reference := .domain "acme", subject := "alice" }
    let early : Instant := ⟨1483228799500000000, 0⟩
    let late : Instant := ⟨1483228799999999999, 900000001⟩
    early < late ∧ (late.since early).nanos = 1400000000 ∧
      ((verifier s who).answers {} [(.failed, early), (.failed, late)]).map
        (fun o => o.result.toOption.map (·.attempts)) = [some 1, some 2] := by
  decide +kernel

end Gatehouse.Guard.Verify
