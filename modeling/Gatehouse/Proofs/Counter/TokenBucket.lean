import Gatehouse.Proofs.Counter.Refill
import Gatehouse.Proofs.Machine

/-! The token bucket.

Where tokens come back one by one, a rate limit lets through no more events in any stretch of
a run than a full bucket and the tokens that come back in its time (`passed_le_bucket`). The
proof keeps accounts in nanoseconds: an event that passes costs one token's time, out of what
the record was worth before it, and no record is worth more than a full bucket
(`nextRecord_worth`). At the end of the stretch a record is worth no less than the time
that has gone by.

The stretch is measured as the time between its first and its last event. In a leap second
that measure runs ahead and falls back again, and tokens are counted by what it shows at its
highest (`bucket_exceeded_in_leap_second`). -/
namespace Gatehouse.Counter

namespace RatePolicy

/-- What the event that left a record cost: one token's time, where it was let through. -/
def price (p : RatePolicy) (r : Record) : Int :=
  if r.allowRequest then p.tokenInterval.nanos else 0

variable {p : RatePolicy} {r : Record} {stored : Option Record} {t : Instant} {k : Key}

theorem applyFailure_worth_live (hlimit : 0 < p.limit) (h : p.Flowing r t) :
    p.Flowing ((Policy.rateLimit p).applyFailure (some r) k t) t ∧
      p.worth ((Policy.rateLimit p).applyFailure (some r) k t) +
        p.price ((Policy.rateLimit p).applyFailure (some r) k t) = p.worth r := by
  have htokens := h.tokens
  refine ⟨⟨?_, h.start, h.begun⟩, ?_⟩
  · show max (r.tokensLeft - 1) (-1) < p.limit
    omega
  · show max (max (r.tokensLeft - 1) (-1)) 0 * p.tokenInterval.nanos - r.windowStart.nanos +
      (if decide (0 ≤ max (r.tokensLeft - 1) (-1)) = true then p.tokenInterval.nanos else 0) =
        max r.tokensLeft 0 * p.tokenInterval.nanos - r.windowStart.nanos
    by_cases hsome : 1 ≤ r.tokensLeft
    · have hnext : max (r.tokensLeft - 1) (-1) = r.tokensLeft - 1 := by omega
      have hnow : max r.tokensLeft 0 = r.tokensLeft - 1 + 1 := by omega
      have hlet : 0 ≤ r.tokensLeft - 1 := by omega
      rw [hnext, hnow, Int.max_eq_left hlet, Int.add_mul]
      simp only [hlet, decide_true, if_true]
      omega
    · have hnext : max (r.tokensLeft - 1) (-1) = -1 := by omega
      have hnow : max r.tokensLeft 0 = 0 := by omega
      have hnone : max (-1) 0 = (0 : Int) := rfl
      rw [hnext, hnow, hnone]
      simp

theorem applyFailure_worth_none (hlimit : 0 < p.limit) (ht : t.Plain) :
    p.Flowing ((Policy.rateLimit p).applyFailure none k t) t ∧
      p.worth ((Policy.rateLimit p).applyFailure none k t) +
        p.price ((Policy.rateLimit p).applyFailure none k t) =
          p.limit * p.tokenInterval.nanos - t.nanos := by
  refine ⟨⟨?_, ht, Int.le_refl _⟩, ?_⟩
  · show p.limit - 1 < p.limit
    omega
  · have hlet : 0 ≤ p.limit - 1 := by omega
    have hmore : p.limit = p.limit - 1 + 1 := by omega
    show max (p.limit - 1) 0 * p.tokenInterval.nanos - t.nanos +
      (if decide (0 ≤ p.limit - 1) = true then p.tokenInterval.nanos else 0) = _
    rw [Int.max_eq_left hlet]
    conv => rhs; rw [hmore, Int.add_mul]
    simp only [hlet, decide_true, if_true]
    omega

/-- An event costs no more than what is taken off the record, and leaves no more than a full
bucket less what it cost. -/
theorem nextRecord_worth (hlimit : 0 < p.limit) (hrefill : p.refill = .proportional) (ht : t.Plain)
    (hstored : ∀ r ∈ stored, p.Flowing r t) :
    let r' := Engine.nextRecord (.rateLimit p) k t stored
    p.Flowing r' t ∧ p.worth r' + p.price r' ≤ p.limit * p.tokenInterval.nanos - t.nanos ∧
      ∀ r ∈ stored, p.worth r' + p.price r' ≤ p.worth r := by
  intro r'
  cases stored with
  | none =>
    obtain ⟨hflowing, hworth⟩ := applyFailure_worth_none (k := k) hlimit ht
    exact ⟨hflowing, Int.le_of_eq hworth, fun r hr => by cases hr⟩
  | some r =>
    have hr := hstored r rfl
    have heq : r' = (Policy.rateLimit p).applyFailure (p.refilled r t) k t :=
      congrArg (fun live => (Policy.rateLimit p).applyFailure live k t)
        (Policy.refresh_proportional hrefill r t)
    rw [heq]
    cases hleft : p.refilled r t with
    | none =>
      obtain ⟨hflowing, hworth⟩ := applyFailure_worth_none (k := k) hlimit ht
      refine ⟨hflowing, Int.le_of_eq hworth, fun r₀ hr₀ => ?_⟩
      cases hr₀
      exact Int.le_trans (Int.le_of_eq hworth) (hr.lapsed ht hleft)
    | some r₁ =>
      obtain ⟨hr₁, hkept, hrest⟩ := hr.refilled ht hleft
      obtain ⟨hflowing, hworth⟩ := applyFailure_worth_live (k := k) hlimit hr₁
      have hcap := worth_le hlimit hr₁.tokens hrest
      refine ⟨hflowing, Int.le_trans (Int.le_of_eq hworth) hcap, fun r₀ hr₀ => ?_⟩
      cases hr₀
      exact Int.le_of_eq (hworth.trans hkept)

end RatePolicy

namespace Engine

/-! ### Events on one counter -/

/-- Failures or events on one counter, over a store in memory where nothing goes wrong. -/
def failures (p : Policy) (k : Key) : Machine Instant Memory (Except Store.Error Decision) where
  next now s := s.run (recordFailure p k now)

/-- How many events were let through. -/
def passed (answers : List (Except Store.Error Decision)) : Nat :=
  answers.countP fun a => a.toOption.any (·.allowed)

theorem passed_cons_mul (d : Decision) (answers : List (Except Store.Error Decision)) (n : Int) :
    (passed (.ok d :: answers) : Int) * n = passed answers * n + if d.allowed then n else 0 := by
  unfold passed
  rw [List.countP_cons]
  cases hd : d.allowed <;> simp [Except.toOption, hd, Int.add_mul]

variable {p : RatePolicy} {k : Key} {s : Memory} {t : Instant}

/-- The store of a bucket as it is found at an instant. -/
structure Bucket (p : RatePolicy) (k : Key) (s : Memory) (t : Instant) : Prop where
  keyed : s.Keyed
  flowing : ∀ r ∈ s.find? k, p.Flowing r t

theorem bucket_empty (p : RatePolicy) (k : Key) (t : Instant) : Bucket p k {} t :=
  ⟨Memory.keyed_empty, fun r hr => by cases hr⟩

theorem Bucket.mono (h : Bucket p k s t) {u : Instant} (hle : t.nanos ≤ u.nanos) : Bucket p k s u :=
  ⟨h.keyed, fun r hr => (h.flowing r hr).mono hle⟩

section Event
variable (hp : (Policy.rateLimit p).WellConfigured) (hrefill : p.refill = .proportional)
include hp hrefill

/-- One event: it is answered, and leaves a record that is worth the less by what it cost. -/
theorem Bucket.next (h : Bucket p k s t) (ht : t.Plain) :
    ∃ d r, (failures (.rateLimit p) k).next t s = (.ok d, s.put r) ∧ d.allowed = r.allowRequest ∧
      (s.put r).find? k = some r ∧ Bucket p k (s.put r) t ∧
      p.worth r + p.price r ≤ p.limit * p.tokenInterval.nanos - t.nanos ∧
      ∀ r₀ ∈ s.find? k, p.worth r + p.price r ≤ p.worth r₀ := by
  obtain ⟨hflowing, hfull, hworth⟩ := RatePolicy.nextRecord_worth (k := k) hp.1 hrefill ht h.flowing
  have hfind : (s.put (nextRecord (.rateLimit p) k t (s.find? k))).find? k = _ :=
    find?_put_nextRecord h.keyed
  refine ⟨_, _, run_recordFailure hp.not_misconfigured h.keyed, rfl, hfind, ⟨h.keyed.put _, ?_⟩,
    hfull, hworth⟩
  intro r hr
  rw [hfind] at hr
  cases hr
  exact hflowing

/-- A stretch of events after one that left a record costs no more than the record is worth
and the time until its end. -/
theorem Bucket.rest {r : Record} {u : Instant} {ts : List Instant} (h : Bucket p k s t)
    (hr : s.find? k = some r) (hplain : ∀ x ∈ ts, x.Plain) (hsorted : (t :: ts).Pairwise (· ≤ ·))
    (hlast : ∀ x ∈ t :: ts, x ≤ u) :
    (passed ((failures (.rateLimit p) k).answers s ts) : Int) * p.tokenInterval.nanos ≤
      p.worth r + u.nanos := by
  induction ts generalizing s r t with
  | nil =>
    have hworth := (h.flowing r hr).neg_le_worth
    have hle := Instant.nanos_le_of_le (hlast t List.mem_cons_self)
    show ((0 : Nat) : Int) * p.tokenInterval.nanos ≤ p.worth r + u.nanos
    omega
  | cons x rest ih =>
    obtain ⟨hfirst, hrest⟩ := List.pairwise_cons.mp hsorted
    have hx := h.mono (Instant.nanos_le_of_le (hfirst x List.mem_cons_self))
    obtain ⟨d, r', hnext, hallowed, hfind, hbucket, -, hworth⟩ :=
      hx.next hp hrefill (hplain x List.mem_cons_self)
    have hmore := ih hbucket hfind (fun y hy => hplain y (List.mem_cons_of_mem x hy)) hrest
      (fun y hy => hlast y (List.mem_cons_of_mem t hy))
    have hcost := hworth r hr
    rw [Machine.answers, hnext, passed_cons_mul, hallowed]
    unfold RatePolicy.price at hcost
    dsimp only
    omega

/-- A stretch of events costs no more than a full bucket and the time until its end. -/
theorem Bucket.stretch {u : Instant} {ts : List Instant} (h : Bucket p k s t)
    (hplain : ∀ x ∈ t :: ts, x.Plain) (hsorted : (t :: ts).Pairwise (· ≤ ·))
    (hlast : ∀ x ∈ t :: ts, x ≤ u) :
    (passed ((failures (.rateLimit p) k).answers s (t :: ts)) : Int) * p.tokenInterval.nanos ≤
      p.limit * p.tokenInterval.nanos + (u.nanos - t.nanos) := by
  obtain ⟨ht, hrest⟩ := List.forall_mem_cons.mp hplain
  obtain ⟨d, r, hnext, hallowed, hfind, hbucket, hfull, -⟩ := h.next hp hrefill ht
  have hmore := hbucket.rest hp hrefill hfind hrest hsorted hlast
  rw [Machine.answers, hnext, passed_cons_mul, hallowed]
  unfold RatePolicy.price at hfull
  dsimp only
  omega

/-- A run leaves a bucket for whatever event comes next. -/
theorem bucket_after {ts : List Instant} (hs : ∀ x ∈ ts ++ [t], Bucket p k s x)
    (hplain : ∀ x ∈ ts, x.Plain) (hsorted : (ts ++ [t]).Pairwise (· ≤ ·)) :
    Bucket p k ((failures (.rateLimit p) k).after s ts) t := by
  induction ts generalizing s with
  | nil => exact hs t List.mem_cons_self
  | cons x rest ih =>
    obtain ⟨hfirst, hrest⟩ := List.pairwise_cons.mp hsorted
    obtain ⟨d, r, hnext, -, -, hbucket, -⟩ :=
      (hs x List.mem_cons_self).next hp hrefill (hplain x List.mem_cons_self)
    rw [Machine.after, hnext]
    exact ih (fun y hy => hbucket.mono (Instant.nanos_le_of_le (hfirst y hy)))
      (fun y hy => hplain y (List.mem_cons_of_mem x hy)) hrest

end Event

theorem le_last_of_mem_take {ts : List Instant} (hsorted : ts.Pairwise (· ≤ ·)) {j : Nat}
    (hj : j < ts.length) : ∀ x ∈ ts.take (j + 1), x ≤ ts[j] := by
  intro x hx
  have htake : (ts.take (j + 1)).Pairwise (· ≤ ·) := hsorted.sublist (List.take_sublist _ _)
  rw [← List.take_append_getElem hj] at hx htake
  rcases List.mem_append.mp hx with hx | hx
  · exact (List.pairwise_append.mp htake).2.2 x hx _ List.mem_cons_self
  · exact le_of_eq (List.mem_singleton.mp hx)

theorem isOk_of_mem_failures {p : Policy} (hp : p.isMisconfigured = false) (hs : s.Keyed)
    (ts : List Instant) : ∀ a ∈ (failures p k).answers s ts, a.isOk := by
  induction ts generalizing s with
  | nil => exact fun a ha => by cases ha
  | cons t rest ih =>
    have hnext : (failures p k).next t s = _ := run_recordFailure hp hs
    rw [Machine.answers, hnext]
    exact List.forall_mem_cons.mpr ⟨rfl, ih (hs.put _)⟩

/-- **No more than a bucket of tokens and those that come back.** Over any run of events at
instants in order, outside leap seconds, under a rate limit that gives tokens back one by
one: every event is answered, and of the events from any one to any later one, no more are
let through than the limit and the whole intervals between the two. -/
theorem passed_le_bucket (p : RatePolicy) (hp : (Policy.rateLimit p).WellConfigured)
    (hrefill : p.refill = .proportional) (k : Key) (ts : List Instant)
    (hsorted : ts.Pairwise (· ≤ ·)) (hplain : ∀ t ∈ ts, t.Plain) :
    let answers := (failures (.rateLimit p) k).answers {} ts
    let interval := 1000000 * max 1 (p.window.nanos / (1000000 * p.limit))
    (∀ a ∈ answers, a.isOk) ∧ ∀ (i j : Nat) (hij : i ≤ j) (hj : j < ts.length),
      (passed (answers.extract i (j + 1)) : Int) ≤
        p.limit + (ts[j].since ts[i]).nanos / interval := by
  intro answers interval
  refine ⟨isOk_of_mem_failures hp.not_misconfigured Memory.keyed_empty ts, fun i j hij hj => ?_⟩
  have hi : i < ts.length := Nat.lt_of_le_of_lt hij hj
  have hinterval : interval = p.tokenInterval.nanos := by
    rw [RatePolicy.tokenInterval_nanos, RatePolicy.intervalMillis_eq hp]
  have hsince : (ts[j].since ts[i]).nanos = ts[j].nanos - ts[i].nanos :=
    Instant.since_of_regular (hplain _ (List.getElem_mem hj)).1 (hplain _ (List.getElem_mem hi)).1
  have hstretch : ts.extract i (j + 1) = ts[i] :: (ts.drop (i + 1)).take (j - i) := by
    rw [List.extract_eq_take_drop, List.drop_eq_getElem_cons hi, Nat.succ_sub hij, List.take_succ_cons]
  have hsub : (ts.extract i (j + 1)).Sublist ts :=
    (List.take_sublist _ _).trans (List.drop_sublist _ _)
  have hbefore : Bucket p k ((failures (.rateLimit p) k).after {} (ts.take i)) ts[i] := by
    refine bucket_after hp hrefill (fun x _ => bucket_empty p k x)
      (fun x hx => hplain x (List.mem_of_mem_take hx)) ?_
    rw [List.take_append_getElem hi]
    exact hsorted.sublist (List.take_sublist _ _)
  have hlast : ∀ x ∈ ts.extract i (j + 1), x ≤ ts[j] := by
    intro x hx
    rw [List.extract_eq_take_drop, ← List.drop_take] at hx
    exact le_last_of_mem_take hsorted hj x (List.mem_of_mem_drop hx)
  rw [hstretch] at hsub hlast
  have hbound := hbefore.stretch hp hrefill (fun x hx => hplain x (hsub.subset hx))
    (hsorted.sublist hsub) hlast
  rw [Machine.answers_extract, hstretch, hinterval, hsince]
  rw [← Int.mul_add_ediv_right _ _ (Int.ne_of_gt p.tokenInterval_pos)]
  exact Int.le_ediv_of_mul_le p.tokenInterval_pos hbound

/-- Two tokens, one of which comes back each second. The bound is met: of five events in two
and a half seconds, the two tokens and the two that come back let four through. -/
theorem passed_le_bucket_two_seconds :
    let p : RatePolicy := ⟨2, .seconds 2, .proportional⟩
    let k : Key := ⟨.rateLimit, { reference := .domain "acme", subject := "alice" }⟩
    let ts := [0, 500, 900, 1000, 2500].map Instant.ofMillis
    let answers := (failures (.rateLimit p) k).answers {} ts
    (∀ a ∈ answers, a.isOk) ∧ (passed (answers.extract 0 5) : Int) ≤ 2 + 2500000000 / 1000000000 ∧
      passed (answers.extract 0 5) = 4 := by
  intro p k ts answers
  have hbound := passed_le_bucket p (by decide) rfl k ts (by decide) (by decide)
  exact ⟨hbound.1, hbound.2 0 4 (by decide) (by decide), by decide +kernel⟩

/-- One token, which comes back in one second and a half. The first event is let through as
the last second of 2016 begins. By the end of the leap second after it nearly two seconds have
passed, and another event is let through; but the year 2017 begins one second after the
first event, as such times are told, and two have been let through. -/
theorem bucket_exceeded_in_leap_second :
    let p : RatePolicy := ⟨1, ⟨1500000000⟩, .proportional⟩
    let k : Key := ⟨.rateLimit, { reference := .domain "acme", subject := "alice" }⟩
    let ts : List Instant :=
      [.ofMillis 1483228799000, ⟨1483228799999999999, 900000001⟩, .ofMillis 1483228800000]
    let answers := (failures (.rateLimit p) k).answers {} ts
    let interval := 1000000 * max 1 (p.window.nanos / (1000000 * p.limit))
    (Policy.rateLimit p).WellConfigured ∧ ts.Pairwise (· ≤ ·) ∧
      ¬((passed (answers.extract 0 3) : Int) ≤ p.limit + (ts[2].since ts[0]).nanos / interval) := by
  decide +kernel

end Engine

end Gatehouse.Counter
