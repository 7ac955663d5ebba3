import Gatehouse.Proofs.Counter.Effective
import Gatehouse.Proofs.Counter.TokenBucket

/-! How much a token bucket lets through in one window.

A full bucket is spent at once, and then each token as soon as it is back. No run lets more
through in any span as long as the window (`passedWithin_le`), and this one lets through as much
(`exists_passedWithin_eq`). So the limit is kept twice over, once for the bucket and once for the
tokens that come back, exactly if no more than the limit come back between the first and the last
instant of a window (`passedWithin_le_twice_iff`): as a token's share of the window is rounded down
to milliseconds, there are limits for which more do. -/
namespace Gatehouse.Counter

/-- The longest time between two instants in one window; it ends with the calendar. -/
def RatePolicy.longest (p : RatePolicy) : Int :=
  min (p.window.nanos - 1) (Instant.latest.nanos - Instant.earliest.nanos)

theorem RatePolicy.longest_nonneg {p : RatePolicy} (hp : (Policy.rateLimit p).WellConfigured) :
    0 ≤ p.longest := by
  have hcalendar : Instant.earliest.nanos ≤ Instant.latest.nanos := by decide
  have hwindow := hp.2
  unfold longest
  omega

/-- The instants at which the next tokens are back, one after another. -/
def RatePolicy.returns (p : RatePolicy) (t : Instant) : Nat → List Instant
  | 0 => []
  | n + 1 => t.after p.tokenInterval :: p.returns (t.after p.tokenInterval) n

/-- All tokens are spent at once, and so many more as soon as they are back. -/
def RatePolicy.spree (p : RatePolicy) (t : Instant) (n : Nat) : List Instant :=
  List.replicate p.limit.toNat t ++ p.returns t n

namespace Engine

/-- How many events were let through in a span of time, which goes from its start up to the end
without it. -/
def passedWithin (start : Instant) (length : Duration) (ts : List Instant)
    (answers : List (Except Store.Error Decision)) : Nat :=
  passed (((ts.zip answers).filter fun e =>
    start.nanos ≤ e.1.nanos ∧ e.1.nanos < start.nanos + length.nanos).map (·.2))

theorem passed_append (answers answers' : List (Except Store.Error Decision)) :
    passed (answers ++ answers') = passed answers + passed answers' := List.countP_append

theorem passed_cons_of_allowed {d : Decision} (h : d.allowed = true)
    (answers : List (Except Store.Error Decision)) : passed (.ok d :: answers) = passed answers + 1 :=
  List.countP_cons_of_pos h

section Count
variable {start : Instant} {length : Duration} {ts : List Instant}
  {answers : List (Except Store.Error Decision)}

theorem passedWithin_eq_zero (h : ∀ x ∈ ts, start.nanos + length.nanos ≤ x.nanos) :
    passedWithin start length ts answers = 0 := by
  have hnone : (ts.zip answers).filter (fun e =>
      start.nanos ≤ e.1.nanos ∧ e.1.nanos < start.nanos + length.nanos) = [] := by
    apply List.filter_eq_nil_iff.mpr
    intro e he
    have hout := h e.1 (List.of_mem_zip he).1
    simp only [decide_eq_true_eq]
    omega
  rw [passedWithin, hnone]
  rfl

theorem passedWithin_eq_passed (hlength : ts.length = answers.length)
    (h : ∀ x ∈ ts, start.nanos ≤ x.nanos ∧ x.nanos < start.nanos + length.nanos) :
    passedWithin start length ts answers = passed answers := by
  have hall : (ts.zip answers).filter (fun e =>
      start.nanos ≤ e.1.nanos ∧ e.1.nanos < start.nanos + length.nanos) = ts.zip answers :=
    List.filter_eq_self.mpr fun e he => decide_eq_true (h e.1 (List.of_mem_zip he).1)
  rw [passedWithin, hall, List.map_snd_zip (Nat.le_of_eq hlength.symm)]

variable {x : Instant}

/-- Once the span is over no event falls into it. -/
theorem passedWithin_of_over (hsorted : (x :: ts).Pairwise (· ≤ ·))
    (h : start.nanos + length.nanos ≤ x.nanos) : passedWithin start length (x :: ts) answers = 0 := by
  apply passedWithin_eq_zero
  refine List.forall_mem_cons.mpr ⟨h, fun y hy => ?_⟩
  have hle := Instant.nanos_le_of_le ((List.pairwise_cons.mp hsorted).1 y hy)
  omega

/-- An event before the span does not count. -/
theorem passedWithin_cons_of_lt (h : x.nanos < start.nanos) (a : Except Store.Error Decision) :
    passedWithin start length (x :: ts) (a :: answers) = passedWithin start length ts answers := by
  have hout : ¬ (start.nanos ≤ x.nanos ∧ x.nanos < start.nanos + length.nanos) := by omega
  simp only [passedWithin, List.zip_cons_cons, List.filter_cons, decide_eq_true_eq, if_neg hout]

end Count

variable {p : RatePolicy} {k : Key} {s : Memory} {t : Instant}

/-! ### No more than a bucket and what comes back -/

/-- An event adds its price at most to what counts in a span. -/
theorem passedWithin_next_le {d : Decision} {r : Record} {s' : Memory} (start : Instant)
    (length : Duration) (ts : List Instant)
    (hnext : (failures (.rateLimit p) k).next t s = (.ok d, s')) (hallowed : d.allowed = r.allowRequest) :
    (passedWithin start length (t :: ts) ((failures (.rateLimit p) k).answers s (t :: ts)) : Int) *
        p.tokenInterval.nanos ≤
      passedWithin start length ts ((failures (.rateLimit p) k).answers s' ts) *
        p.tokenInterval.nanos + p.price r := by
  have hinterval := p.tokenInterval_pos
  simp only [Machine.answers, hnext, passedWithin, List.zip_cons_cons, List.filter_cons,
    RatePolicy.price, ← hallowed]
  split
  · rw [List.map_cons]
    exact Int.le_of_eq (passed_cons_mul _ _ _)
  · split <;> omega

section Bound
variable (hp : (Policy.rateLimit p).WellConfigured) (hrefill : p.refill = .proportional)
include hp hrefill

/-- What counts in a span of the events after one that left a record costs no more than the
record is worth and the time until the last instant of the span. -/
theorem Bucket.rest_within {r : Record} {u : Int} {start : Instant} {length : Duration}
    {ts : List Instant} (h : Bucket p k s t) (hr : s.find? k = some r) (hplain : ∀ x ∈ ts, x.Plain)
    (hsorted : (t :: ts).Pairwise (· ≤ ·)) (ht : t.nanos ≤ u)
    (hend : ∀ x ∈ ts, x.nanos < start.nanos + length.nanos → x.nanos ≤ u) :
    (passedWithin start length ts ((failures (.rateLimit p) k).answers s ts) : Int) *
      p.tokenInterval.nanos ≤ p.worth r + u := by
  induction ts generalizing s r t with
  | nil =>
    have hworth := (h.flowing r hr).neg_le_worth
    show ((0 : Nat) : Int) * p.tokenInterval.nanos ≤ _
    omega
  | cons x rest ih =>
    obtain ⟨hfirst, hrest⟩ := List.pairwise_cons.mp hsorted
    by_cases hin : x.nanos < start.nanos + length.nanos
    · have hx := h.mono (Instant.nanos_le_of_le (hfirst x List.mem_cons_self))
      obtain ⟨d, r', hnext, hallowed, hfind, hbucket, -, hworth⟩ :=
        hx.next hp hrefill (hplain x List.mem_cons_self)
      have hmore := ih hbucket hfind (fun y hy => hplain y (List.mem_cons_of_mem x hy)) hrest
        (hend x List.mem_cons_self hin) fun y hy => hend y (List.mem_cons_of_mem x hy)
      have hcost := hworth r hr
      have hcount := passedWithin_next_le start length rest hnext hallowed
      omega
    · have hworth := (h.flowing r hr).neg_le_worth
      rw [passedWithin_of_over hrest (Int.not_lt.mp hin)]
      omega

/-- What counts in a span of any events costs no more than a full bucket and the longest time
between two instants of the span. -/
theorem Bucket.stretch_within (start : Instant) {ts : List Instant}
    (hs : ∀ x ∈ ts, Bucket p k s x) (hplain : ∀ x ∈ ts, x.Plain) (hsorted : ts.Pairwise (· ≤ ·)) :
    (passedWithin start p.window ts ((failures (.rateLimit p) k).answers s ts) : Int) *
      p.tokenInterval.nanos ≤ p.limit * p.tokenInterval.nanos + p.longest := by
  have hbucket := Int.mul_nonneg (Int.le_of_lt hp.1) (Int.le_of_lt p.tokenInterval_pos)
  have hlongest := RatePolicy.longest_nonneg hp
  induction ts generalizing s with
  | nil =>
    show ((0 : Nat) : Int) * p.tokenInterval.nanos ≤ _
    omega
  | cons x rest ih =>
    obtain ⟨hfirst, hrest⟩ := List.pairwise_cons.mp hsorted
    obtain ⟨hx, hmore⟩ := List.forall_mem_cons.mp hplain
    obtain ⟨d, r, hnext, hallowed, hfind, hleft, hfull, -⟩ :=
      (hs x List.mem_cons_self).next hp hrefill hx
    by_cases hbefore : x.nanos < start.nanos
    · rw [Machine.answers, hnext, passedWithin_cons_of_lt hbefore]
      exact ih (fun y hy => hleft.mono (Instant.nanos_le_of_le (hfirst y hy))) hmore hrest
    · by_cases hin : x.nanos < start.nanos + p.window.nanos
      · have hends : ∀ y ∈ x :: rest, y.nanos < start.nanos + p.window.nanos →
            y.nanos ≤ min (start.nanos + p.window.nanos - 1) Instant.latest.nanos := fun y hy hyin => by
          have hlast := (hplain y hy).2.2
          omega
        obtain ⟨hend, hrestEnd⟩ := List.forall_mem_cons.mp hends
        have hcost := hleft.rest_within hp hrefill hfind hmore hsorted (hend hin) hrestEnd
        have hcount := passedWithin_next_le start p.window rest hnext hallowed
        have hcalendar := hx.2.1
        unfold RatePolicy.longest
        omega
      · rw [passedWithin_of_over hsorted (Int.not_lt.mp hin)]
        omega

/-- No more is let through in a window than a full bucket and the tokens that come back between
its first and its last instant. -/
theorem passedWithin_le {ts : List Instant} (hsorted : ts.Pairwise (· ≤ ·))
    (hplain : ∀ t ∈ ts, t.Plain) (k : Key) (start : Instant) :
    (passedWithin start p.window ts ((failures (.rateLimit p) k).answers {} ts) : Int) ≤
      p.limit + p.longest / p.tokenInterval.nanos := by
  have hbound := Bucket.stretch_within hp hrefill start (fun x _ => bucket_empty p k x)
    hplain hsorted
  rw [← Int.mul_add_ediv_right _ _ (Int.ne_of_gt p.tokenInterval_pos)]
  apply Int.le_ediv_of_mul_le p.tokenInterval_pos
  exact hbound

end Bound

/-! ### As much as a bucket and what comes back -/

/-- A bucket with so many tokens, from which the next is counted at an instant. -/
structure Poised (k : Key) (s : Memory) (t : Instant) (n : Int) : Prop where
  keyed : s.Keyed
  found : ∃ r, s.find? k = some r ∧ r.tokensLeft = n ∧ r.windowStart = t

section Poised
variable {start : Instant} {n : Int} (hp : (Policy.rateLimit p).WellConfigured)
include hp

/-- An event that finds a token is let through, and leaves the bucket poised. -/
theorem poised_next (hs : s.Keyed) (hn : 0 ≤ n) (htokens : p.available k t s = n + 1)
    (hstart : ((live (.rateLimit p) (s.find? k) t).map (·.windowStart)).getD t = start) :
    ∃ d s', (failures (.rateLimit p) k).next t s = (.ok d, s') ∧ d.allowed = true ∧
      Poised k s' start n := by
  have hleft : (nextRecord (.rateLimit p) k t (s.find? k)).tokensLeft = n := by
    rw [RatePolicy.tokensLeft_nextRecord, htokens]
    omega
  refine ⟨_, _, run_recordFailure hp.not_misconfigured hs, ?_, hs.put _, _,
    find?_put_nextRecord hs, hleft, ?_⟩
  · show (nextRecord _ _ _ _).allowRequest = true
    rw [RatePolicy.allowRequest_nextRecord, hleft]
    exact decide_eq_true hn
  · rw [nextRecord, Policy.applyFailure_windowStart]
    exact hstart

/-- The first event of a key takes a token of a full bucket. -/
theorem poised_first (k : Key) (t : Instant) :
    ∃ d s, (failures (.rateLimit p) k).next t {} = (.ok d, s) ∧ d.allowed = true ∧
      Poised k s t (p.limit - 1) := by
  have hlimit := hp.1
  refine poised_next hp Memory.keyed_empty (by omega) ?_ rfl
  show p.limit = p.limit - 1 + 1
  omega

variable (hrefill : p.refill = .proportional)
include hrefill

/-- An event at the instant from which the next token is counted takes one of those that are
there. -/
theorem Poised.spend (h : Poised k s t (n + 1)) (hn : 0 ≤ n) :
    ∃ d s', (failures (.rateLimit p) k).next t s = (.ok d, s') ∧ d.allowed = true ∧
      Poised k s' t n := by
  obtain ⟨r, hr, htokens, hstart⟩ := h.found
  have hlive : live (.rateLimit p) (s.find? k) t = some r := by
    rw [hr]
    show (Policy.rateLimit p).refresh r t = some r
    rw [Policy.refresh_proportional hrefill]
    exact RatePolicy.refilled_of_none (Policy.tokensBack_self p hstart)
  refine poised_next hp h.keyed hn ?_ ?_
  · rw [RatePolicy.available, hlive]
    show max r.tokensLeft 0 = n + 1
    omega
  · rw [hlive]
    exact hstart

/-- An event at the instant at which a token comes back takes it. -/
theorem Poised.drip (h : Poised k s t 0) (ht : t.Plain)
    (hlast : t.nanos + p.tokenInterval.nanos ≤ Instant.latest.nanos) :
    ∃ d s', (failures (.rateLimit p) k).next (t.after p.tokenInterval) s = (.ok d, s') ∧
      d.allowed = true ∧ Poised k s' (t.after p.tokenInterval) 0 := by
  obtain ⟨r, hr, htokens, rfl⟩ := h.found
  have hback := RatePolicy.tokensBack_after_tokenInterval (p := p) ht hlast
  have hspan : p.tokenSpan 1 = p.tokenInterval := congrArg Duration.mk (Int.mul_one _)
  generalize hu : r.windowStart.after p.tokenInterval = u at hback ⊢
  have hlive : live (.rateLimit p) (s.find? k) u = p.refilled r u := by
    rw [hr]
    exact Policy.refresh_proportional hrefill r u
  by_cases hall : p.limit ≤ 1
  · -- The one token that is back makes a full bucket, and a new record begins.
    have hlimit := hp.1
    rw [RatePolicy.refilled_of_all (by omega) (by omega)] at hlive
    refine poised_next hp h.keyed (Int.le_refl 0) ?_ ?_
    · rw [RatePolicy.available, hlive]
      show p.limit = 0 + 1
      omega
    · rw [hlive]
      rfl
  · rw [RatePolicy.refilled_of_some (by omega) (by omega), hback] at hlive
    refine poised_next hp h.keyed (Int.le_refl 0) ?_ ?_
    · rw [RatePolicy.available, hlive]
      show max (max r.tokensLeft 0 + 1) 0 = 0 + 1
      omega
    · rw [hlive, ← hu, ← hspan]
      rfl

/-! ### The run that gets the most through -/

/-- Tokens that are there may be spent at once. -/
theorem Poised.burst {n : Nat} (h : Poised k s t n) :
    passed ((failures (.rateLimit p) k).answers s (List.replicate n t)) = n ∧
      Poised k ((failures (.rateLimit p) k).after s (List.replicate n t)) t 0 := by
  induction n generalizing s with
  | zero => exact ⟨rfl, h⟩
  | succ n ih =>
    obtain ⟨d, s', hnext, hallowed, hleft⟩ := h.spend hp hrefill (Int.natCast_nonneg n)
    obtain ⟨hpassed, hafter⟩ := ih hleft
    rw [List.replicate_succ, Machine.answers, Machine.after, hnext]
    exact ⟨(passed_cons_of_allowed hallowed _).trans (congrArg Nat.succ hpassed), hafter⟩

/-- Tokens that come back may be spent as soon as they do. -/
theorem Poised.drips {n : Nat} (h : Poised k s t 0) (ht : t.Plain)
    (hlast : t.nanos + n * p.tokenInterval.nanos ≤ Instant.latest.nanos) :
    passed ((failures (.rateLimit p) k).answers s (p.returns t n)) = n := by
  have hinterval := Int.le_of_lt p.tokenInterval_pos
  induction n generalizing s t with
  | zero => rfl
  | succ n ih =>
    rw [Int.natCast_succ, Int.add_mul, Int.one_mul] at hlast
    have hrest := Int.mul_nonneg (Int.natCast_nonneg n) hinterval
    have hnanos := ht.nanos_after hinterval (by omega)
    obtain ⟨d, s', hnext, hallowed, hleft⟩ := h.drip hp hrefill ht (by omega)
    have hpassed := ih hleft (ht.after _) (by omega)
    rw [RatePolicy.returns, Machine.answers, hnext]
    exact (passed_cons_of_allowed hallowed _).trans (congrArg Nat.succ hpassed)

end Poised

/-- Tokens come back in order, and in the time that they take. -/
theorem returns_sorted {n : Nat} (ht : t.Plain)
    (hlast : t.nanos + n * p.tokenInterval.nanos ≤ Instant.latest.nanos) :
    (p.returns t n).Pairwise (· ≤ ·) ∧ ∀ x ∈ p.returns t n,
      x.Plain ∧ t.nanos ≤ x.nanos ∧ x.nanos ≤ t.nanos + n * p.tokenInterval.nanos := by
  have hinterval := Int.le_of_lt p.tokenInterval_pos
  induction n generalizing t with
  | zero => exact ⟨List.Pairwise.nil, fun x hx => (List.not_mem_nil hx).elim⟩
  | succ n ih =>
    rw [Int.natCast_succ, Int.add_mul, Int.one_mul] at hlast ⊢
    have hrest := Int.mul_nonneg (Int.natCast_nonneg n) hinterval
    have hnanos := ht.nanos_after hinterval (by omega)
    have hplain := ht.after p.tokenInterval
    obtain ⟨hsorted, hmore⟩ := ih hplain (by omega)
    refine ⟨List.pairwise_cons.mpr ⟨fun x hx => ?_, hsorted⟩,
      List.forall_mem_cons.mpr ⟨⟨hplain, by omega, by omega⟩, fun x hx => ?_⟩⟩
    · obtain ⟨hx, hle, -⟩ := hmore x hx
      exact (hplain.le_iff hx).mpr hle
    · obtain ⟨hx, hle, hle'⟩ := hmore x hx
      exact ⟨hx, by omega, by omega⟩

/-- All tokens of a full bucket may be spent at once. -/
theorem burst_empty (hp : (Policy.rateLimit p).WellConfigured) (hrefill : p.refill = .proportional)
    (k : Key) (t : Instant) :
    (passed ((failures (.rateLimit p) k).answers {} (List.replicate p.limit.toNat t)) : Int) =
        p.limit ∧
      Poised k ((failures (.rateLimit p) k).after {} (List.replicate p.limit.toNat t)) t 0 := by
  obtain ⟨n, hn⟩ : ∃ n : Nat, p.limit = n + 1 := ⟨(p.limit - 1).toNat, by have hlimit := hp.1; omega⟩
  obtain ⟨d, s, hnext, hallowed, hleft⟩ := poised_first hp k t
  rw [hn, Int.add_sub_cancel] at hleft
  obtain ⟨hpassed, hafter⟩ := hleft.burst hp hrefill
  have hcount : p.limit.toNat = n + 1 := by omega
  rw [hcount, List.replicate_succ, Machine.answers, Machine.after, hnext,
    passed_cons_of_allowed hallowed, hpassed]
  exact ⟨by omega, hafter⟩

theorem spree_sorted {n : Nat} (ht : t.Plain)
    (hlast : t.nanos + n * p.tokenInterval.nanos ≤ Instant.latest.nanos) :
    (p.spree t n).Pairwise (· ≤ ·) ∧ ∀ x ∈ p.spree t n,
      x.Plain ∧ t.nanos ≤ x.nanos ∧ x.nanos ≤ t.nanos + n * p.tokenInterval.nanos := by
  obtain ⟨hsorted, hback⟩ := returns_sorted ht hlast
  have hspent := Int.mul_nonneg (Int.natCast_nonneg n) (Int.le_of_lt p.tokenInterval_pos)
  have hmem : ∀ x ∈ p.spree t n,
      x.Plain ∧ t.nanos ≤ x.nanos ∧ x.nanos ≤ t.nanos + n * p.tokenInterval.nanos := fun x hx => by
    rcases List.mem_append.mp hx with hx | hx
    · rw [List.eq_of_mem_replicate hx]
      exact ⟨ht, Int.le_refl _, by omega⟩
    · exact hback x hx
  refine ⟨List.pairwise_append.mpr ⟨?_, hsorted, fun x hx y hy => ?_⟩, hmem⟩
  · exact List.pairwise_replicate.mpr (.inr (le_refl t))
  · obtain ⟨hy, hle, -⟩ := hback y hy
    rw [List.eq_of_mem_replicate hx]
    exact (ht.le_iff hy).mpr hle

section Attained
variable (hp : (Policy.rateLimit p).WellConfigured) (hrefill : p.refill = .proportional)
include hp hrefill

/-- Every event of such a run is let through. -/
theorem passed_spree {n : Nat} (k : Key) (ht : t.Plain)
    (hlast : t.nanos + n * p.tokenInterval.nanos ≤ Instant.latest.nanos) :
    (passed ((failures (.rateLimit p) k).answers {} (p.spree t n)) : Int) = p.limit + n := by
  obtain ⟨hpassed, hspent⟩ := burst_empty hp hrefill k t
  have hback := hspent.drips hp hrefill ht hlast
  rw [RatePolicy.spree, Machine.answers_append, passed_append, hback, Int.natCast_add, hpassed]

/-- Some run gets as much through in one window as any may. -/
theorem exists_passedWithin_eq (k : Key) :
    ∃ ts : List Instant, ts.Pairwise (· ≤ ·) ∧ (∀ t ∈ ts, t.Plain) ∧
      (passedWithin .earliest p.window ts ((failures (.rateLimit p) k).answers {} ts) : Int) =
        p.limit + p.longest / p.tokenInterval.nanos := by
  have hfirst : Instant.earliest.Plain := by decide
  have hwhole : 0 ≤ p.longest / p.tokenInterval.nanos :=
    Int.ediv_nonneg (RatePolicy.longest_nonneg hp) (Int.le_of_lt p.tokenInterval_pos)
  obtain ⟨n, hn⟩ := Int.eq_ofNat_of_zero_le hwhole
  have htime : n * p.tokenInterval.nanos ≤ p.longest := by
    rw [← hn]
    exact Int.ediv_mul_le _ (Int.ne_of_gt p.tokenInterval_pos)
  have hlast : Instant.earliest.nanos + n * p.tokenInterval.nanos ≤ Instant.latest.nanos := by
    unfold RatePolicy.longest at htime
    omega
  obtain ⟨hsorted, hmem⟩ := spree_sorted hfirst hlast
  refine ⟨p.spree .earliest n, hsorted, fun x hx => (hmem x hx).1, ?_⟩
  have hlength := (Machine.length_answers (failures (.rateLimit p) k) {} (p.spree .earliest n)).symm
  rw [hn, passedWithin_eq_passed hlength fun x hx => ?_, passed_spree hp hrefill k hfirst hlast]
  obtain ⟨-, hle, hle'⟩ := hmem x hx
  unfold RatePolicy.longest at htime
  exact ⟨hle, by omega⟩

end Attained

/-- **Twice the limit in a window, where no more than the limit comes back in it.** Take a rate
limit that gives tokens back one by one, and any span as long as its window. No run of events at
instants in order, outside leap seconds, lets more than twice the limit through in the span,
exactly if no more tokens than the limit come back in the longest time between two of its
instants. A token's time is its share of the window, rounded down to whole milliseconds but to one
at least: where the limit divides the milliseconds of the window no more do, and there are other
limits for which more do. -/
theorem passedWithin_le_twice_iff (p : RatePolicy) (hp : (Policy.rateLimit p).WellConfigured)
    (hrefill : p.refill = .proportional) (k : Key) :
    let interval := 1000000 * max 1 (p.window.nanos / (1000000 * p.limit))
    let longest := min (p.window.nanos - 1) (Instant.latest.nanos - Instant.earliest.nanos)
    (∀ (ts : List Instant) (start : Instant), ts.Pairwise (· ≤ ·) → (∀ t ∈ ts, t.Plain) →
      (passedWithin start p.window ts ((failures (.rateLimit p) k).answers {} ts) : Int) ≤
        2 * p.limit) ↔ longest / interval ≤ p.limit := by
  intro interval longest
  have hinterval : interval = p.tokenInterval.nanos := by
    rw [RatePolicy.tokenInterval_nanos, RatePolicy.intervalMillis_eq hp]
  have hlongest : longest = p.longest := rfl
  rw [hinterval, hlongest]
  constructor
  · intro hall
    obtain ⟨ts, hsorted, hplain, hmost⟩ := exists_passedWithin_eq hp hrefill k
    have htwice := hall ts .earliest hsorted hplain
    omega
  · intro hback ts start hsorted hplain
    have hbound := passedWithin_le hp hrefill hsorted hplain k start
    omega

/-- Four a minute. In the first minute four events pass at once and one more every quarter of a
minute, which is fewer than twice four. -/
theorem passedWithin_le_twice_four_a_minute :
    let p : RatePolicy := ⟨4, .seconds 60, .proportional⟩
    let k : Key := ⟨.rateLimit, { reference := .domain "acme", subject := "alice" }⟩
    let ts := [0, 0, 0, 0, 0, 15000, 30000, 45000, 59999, 60000].map Instant.ofMillis
    let answers := (failures (.rateLimit p) k).answers {} ts
    (passedWithin .epoch p.window ts answers : Int) ≤ 2 * 4 ∧
      passedWithin .epoch p.window ts answers = 7 := by
  intro p k ts answers
  have hall := (passedWithin_le_twice_iff p (by decide) rfl k).mpr (by decide)
  exact ⟨hall ts .epoch (by decide) (by decide), by decide +kernel⟩

/-- Three in five milliseconds, so that a token comes back every millisecond: three events pass at
once, and four more within the five milliseconds. -/
theorem passedWithin_exceeds_twice_the_limit :
    let p : RatePolicy := ⟨3, .ofMillis 5, .proportional⟩
    let k : Key := ⟨.rateLimit, { reference := .domain "acme", subject := "alice" }⟩
    let ts := [0, 0, 0, 1, 2, 3, 4].map Instant.ofMillis
    let answers := (failures (.rateLimit p) k).answers {} ts
    (Policy.rateLimit p).WellConfigured ∧ ts.Pairwise (· ≤ ·) ∧ (∀ t ∈ ts, t.Plain) ∧
      ¬((passedWithin .epoch p.window ts answers : Int) ≤ 2 * p.limit) := by
  decide +kernel

end Engine

end Gatehouse.Counter
