import Gatehouse.Proofs.Counter.Throughput
import Gatehouse.Proofs.Counter.Waiting

/-! Looking at a record at one instant and another.

A record is refreshed whenever it is read, and what is left of it may be read again later. It makes
no difference how often that happens: refreshing at instants on the way comes to what refreshing
once at the last of them does (`refreshAll_eq`), since the tokens that come back take whole
intervals along, and the rest of the time goes on counting. And what was missing is back a window
later (`refilled_a_window_later`), unless the window has fewer milliseconds than the limit has
tokens, each of which takes one at least.

Both hold outside leap seconds, where the time between two instants is what lies between them. -/
namespace Gatehouse.Counter

namespace RatePolicy
variable {p : RatePolicy} {r : Record} {t u : Instant}

/-! ### Tokens given back twice -/

/-- Giving tokens back twice is giving back both at once. -/
theorem restored_restored {m : Int} (hm : 0 ≤ m) (hstart : r.windowStart.Plain)
    (hlast : r.windowStart.nanos + m * p.tokenInterval.nanos ≤ Instant.latest.nanos) (n : Int) :
    p.restored (p.restored r m) n = p.restored r (m + n) := by
  have hspan := Int.mul_nonneg hm (Int.le_of_lt p.tokenInterval_pos)
  have htokens : max (max r.tokensLeft 0 + m) 0 + n = max r.tokensLeft 0 + (m + n) := by omega
  have hmoved : (r.windowStart.after (p.tokenSpan m)).after (p.tokenSpan n) =
      r.windowStart.after (p.tokenSpan (m + n)) := by
    rw [← p.tokenSpan_eq] at hspan hlast
    rw [hstart.after_after hspan hlast]
    exact congrArg _ (congrArg Duration.mk (Int.mul_add _ _ _).symm)
  simp only [restored, htokens, hmoved]

section Twice
variable (hstart : r.windowStart.Plain) (ht : t.Plain) (hu : u.Plain)
  (hle : r.windowStart.nanos ≤ t.nanos) (hle' : t.nanos ≤ u.nanos)
include hstart ht hu hle hle'

/-- Of the tokens that are back at an instant, those are yet to be given back that were not back
at an earlier one. -/
theorem tokensBack_restored : p.tokensBack (p.restored r (p.tokensBack r t)) u =
    p.tokensBack r u - p.tokensBack r t := by
  have hspent := tokensBack_mul_le (p := p) hstart ht hle
  have hmoved := nanos_restored (p := p) hstart ht hle
  have hrest : u.nanos - (r.windowStart.nanos + p.tokensBack r t * p.tokenInterval.nanos) =
      u.nanos - r.windowStart.nanos - p.tokensBack r t * p.tokenInterval.nanos := by omega
  rw [tokensBack_eq (hstart.after _) hu (by omega), hmoved, hrest,
    Int.sub_mul_ediv_right _ _ (Int.ne_of_gt p.tokenInterval_pos),
    ← tokensBack_eq hstart hu (Int.le_trans hle hle')]

theorem tokensBack_mono : p.tokensBack r t ≤ p.tokensBack r u := by
  rw [tokensBack_eq hstart ht hle, tokensBack_eq hstart hu (Int.le_trans hle hle')]
  exact Int.ediv_le_ediv p.tokenInterval_pos (by omega)

/-- What is left of a record to which tokens were given back is what is left of the record
before. -/
theorem refilled_restored (hmissing : max r.tokensLeft 0 + p.tokensBack r t < p.limit)
    (hsome : p.tokensBack r t ≠ 0) :
    p.refilled (p.restored r (p.tokensBack r t)) u = p.refilled r u := by
  have hback := tokensBack_nonneg p r t
  have hmore := tokensBack_mono (p := p) hstart ht hu hle hle'
  have hrest := tokensBack_restored (p := p) hstart ht hu hle hle'
  have hspent := tokensBack_mul_le (p := p) hstart ht hle
  have hlast := ht.2.2
  have htokens : max (p.restored r (p.tokensBack r t)).tokensLeft 0 =
      max r.tokensLeft 0 + p.tokensBack r t :=
    Int.max_eq_left (show 0 ≤ max r.tokensLeft 0 + p.tokensBack r t by omega)
  have hnotnone : p.tokensBack r u ≠ 0 := by omega
  by_cases hall : p.limit ≤ max r.tokensLeft 0 + p.tokensBack r u
  · rw [refilled_of_all hnotnone hall, refilled_of_all (by omega) (by omega)]
  · rw [refilled_of_some hnotnone (Int.not_le.mp hall)]
    by_cases hsame : p.tokensBack r u = p.tokensBack r t
    · rw [refilled_of_none (by omega), hsame]
    · rw [refilled_of_some (by omega) (by omega), hrest,
        restored_restored hback hstart (by omega)]
      congr 2
      omega

end Twice

/-- Giving back tokens at an instant on the way changes nothing about those that are back
later. -/
theorem refilled_refilled (hstart : r.windowStart.Plain) (ht : t.Plain) (hu : u.Plain)
    (hle : t.nanos ≤ u.nanos) : (p.refilled r t).bind (p.refilled · u) = p.refilled r u := by
  by_cases hnone : p.tokensBack r t = 0
  · rw [refilled_of_none hnone]
    rfl
  · have hbegun : r.windowStart.nanos ≤ t.nanos := by
      by_contra hearly
      exact hnone (tokensBack_early p hstart ht (Int.not_le.mp hearly))
    by_cases hall : p.limit ≤ max r.tokensLeft 0 + p.tokensBack r t
    · have hmore := tokensBack_mono (p := p) hstart ht hu hbegun hle
      have hback := tokensBack_nonneg p r t
      rw [refilled_of_all hnone hall, refilled_of_all (by omega) (by omega)]
      rfl
    · have hmissing := Int.not_le.mp hall
      rw [refilled_of_some hnone hmissing]
      exact refilled_restored hstart ht hu hbegun hle hmissing hnone

end RatePolicy

/-! ### Records refreshed on the way -/

namespace Policy

/-- What is left of a record that is looked at at one instant after another. -/
def refreshAll (p : Policy) (r : Record) : List Instant → Option Record
  | [] => some r
  | t :: ts => (p.refresh r t).bind fun left => p.refreshAll left ts

variable {p : Policy} {r : Record} {t u : Instant}

/-- Where no tokens come back one by one, a record that has lapsed has lapsed for good. -/
theorem lapsed_of_le (hmeasures : p.measuresTime = false) (hle : t ≤ u) (h : p.refresh r t = none) :
    p.refresh r u = none := by
  cases p with
  | login q =>
    have hover : r.expireAt ≤ t := by
      by_contra hopen
      simp [refresh, Record.isExpired, hopen] at h
    simp [refresh, Record.isExpired, le_trans hover hle]
  | verify q =>
    have hover : ¬ t ≤ r.updatedAt.after q.reset := fun hopen => by simp [refresh, hopen] at h
    exact if_neg fun hopen => hover (le_trans hle hopen)
  | rateLimit q =>
    cases hrefill : q.refill with
    | fixedWindow =>
      have hover : ¬ t < r.windowStart.after q.window := fun hopen => by
        simp [refresh_fixedWindow hrefill, hopen] at h
      rw [refresh_fixedWindow hrefill]
      exact if_neg fun hopen => hover (lt_of_le_of_lt hle hopen)
    | proportional => simp [measuresTime, hrefill] at hmeasures

/-- What is left of a record leaves later what the record itself does. -/
theorem refresh_refresh (hle : t ≤ u)
    (hplain : p.measuresTime = true → r.windowStart.Plain ∧ t.Plain ∧ u.Plain) :
    (p.refresh r t).bind (p.refresh · u) = p.refresh r u := by
  cases hmeasures : p.measuresTime with
  | false =>
    cases hleft : p.refresh r t with
    | none => exact (lapsed_of_le hmeasures hle hleft).symm
    | some left =>
      rcases refresh_cases hleft with rfl | ⟨q, rfl, hrefill, -⟩
      · rfl
      · simp [measuresTime, hrefill] at hmeasures
  | true =>
    obtain ⟨hstart, ht, hu⟩ := hplain hmeasures
    cases p with
    | login | verify => cases hmeasures
    | rateLimit q =>
      have hrefill : q.refill = .proportional := eq_of_beq hmeasures
      simp only [refresh_proportional hrefill]
      exact RatePolicy.refilled_refilled hstart ht hu (Instant.nanos_le_of_le hle)

theorem plain_windowStart_of_refresh {r' : Record} (h : r.windowStart.Plain)
    (hlive : p.refresh r t = some r') : r'.windowStart.Plain := by
  rcases refresh_cases hlive with rfl | ⟨q, -, -, -, -, rfl⟩
  · exact h
  · exact h.after _

/-- **Refreshing on the way changes nothing.** Whatever a policy counts, and at however many
instants in order a record is looked at, what is left of it at the last of them is what
refreshing it once leaves then. Where tokens come back one by one this is said of instants
outside leap seconds. -/
theorem refreshAll_eq (p : Policy) (r : Record) (stops : List Instant) (now : Instant)
    (hsorted : (stops ++ [now]).Pairwise (· ≤ ·))
    (hplain : p.measuresTime = true → r.windowStart.Plain ∧ ∀ t ∈ stops ++ [now], t.Plain) :
    p.refreshAll r (stops ++ [now]) = p.refresh r now := by
  induction stops generalizing r with
  | nil =>
    show (p.refresh r now).bind some = _
    exact Option.bind_fun_some _
  | cons t rest ih =>
    obtain ⟨hfirst, hrest⟩ := List.pairwise_cons.mp hsorted
    have hnow : now ∈ rest ++ [now] := List.mem_append_right _ List.mem_cons_self
    have htwice : (p.refresh r t).bind (p.refresh · now) = p.refresh r now :=
      refresh_refresh (hfirst now hnow) fun hmeasures => by
        obtain ⟨hstart, hall⟩ := hplain hmeasures
        exact ⟨hstart, hall t List.mem_cons_self, hall now (List.mem_cons_of_mem t hnow)⟩
    rw [← htwice]
    show (p.refresh r t).bind (fun left => p.refreshAll left (rest ++ [now])) = _
    apply Option.bind_congr
    intro left hleft
    apply ih left hrest
    intro hmeasures
    obtain ⟨hstart, hall⟩ := hplain hmeasures
    exact ⟨plain_windowStart_of_refresh hstart hleft, fun x hx => hall x (List.mem_cons_of_mem t hx)⟩

/-- Four a minute, and the last event found no token. Looked at after twenty and thirty-five
seconds, the record has three tokens after fifty, as if it had not been looked at before. -/
theorem refreshAll_four_a_minute :
    let p : Policy := .rateLimit ⟨4, .seconds 60, .proportional⟩
    let k : Key := ⟨.rateLimit, { reference := .domain "acme", subject := "alice" }⟩
    let r : Record := { Record.fresh k .epoch with attempts := 5, tokensLeft := -1 }
    let stops := [Instant.ofMillis 20000, .ofMillis 35000]
    p.refreshAll r (stops ++ [.ofMillis 50000]) = p.refresh r (.ofMillis 50000) ∧
      (p.refresh r (.ofMillis 50000)).map (·.tokensLeft) = some 3 := by
  intro p k r stops
  exact ⟨refreshAll_eq p r stops (.ofMillis 50000) (by decide) (fun _ => by decide),
    by decide +kernel⟩

/-- A token comes back in one second and a half, and none is left as the last second of 2016
begins. By the end of the leap second after it nearly two seconds have passed, and a token is
back; but the year 2017 is a tenth of a second old when one second and a tenth have passed, as such
times are told, and a record not looked at before has no token back. -/
theorem refreshed_in_leap_second :
    let p : Policy := .rateLimit ⟨3, .ofMillis 4500, .proportional⟩
    let k : Key := ⟨.rateLimit, { reference := .domain "acme", subject := "alice" }⟩
    let r : Record := { Record.fresh k (.ofMillis 1483228799000) with attempts := 3 }
    let first : Instant := ⟨1483228799999999999, 900000001⟩
    let second : Instant := .ofMillis 1483228800100
    p.WellConfigured ∧ -1 ≤ r.tokensLeft ∧ r.windowStart ≤ first ∧ first ≤ second ∧
      ((p.refresh r first).bind (p.refresh · second)).map (·.tokensLeft) = some 1 ∧
      (p.refresh r second).map (·.tokensLeft) = some 0 := by
  decide +kernel

end Policy

/-! ### A window later -/

/-- All tokens are back within a window or, where the limit has more tokens than the window has
milliseconds, within one millisecond for each of them. -/
theorem RatePolicy.limit_mul_tokenInterval_le {p : RatePolicy}
    (hp : (Policy.rateLimit p).WellConfigured) :
    p.limit * p.tokenInterval.nanos ≤ max p.window.nanos (p.limit * 1000000) := by
  have hlimit := hp.1
  rw [tokenInterval_nanos, intervalMillis_eq hp]
  rcases Int.le_total 1 (p.window.nanos / (1000000 * p.limit)) with hshare | hshort
  · have hspent := Int.ediv_mul_le p.window.nanos (b := 1000000 * p.limit) (by omega)
    rw [Int.max_eq_right hshare]
    calc p.limit * (1000000 * (p.window.nanos / (1000000 * p.limit)))
      _ = p.window.nanos / (1000000 * p.limit) * (1000000 * p.limit) := by ac_rfl
      _ ≤ p.window.nanos := hspent
      _ ≤ max p.window.nanos (p.limit * 1000000) := Int.le_max_left _ _
  · rw [Int.max_eq_left hshort, Int.mul_one]
    exact Int.le_max_right _ _

namespace Engine
variable {p : RatePolicy} {k : Key}

/-- **A window later everything is back.** Take any record that events, evaluations, resets and
purges lead to under a rate limit that gives tokens back one by one, at instants outside leap
seconds. From a window after its start, or from `limit` milliseconds after it where these are
more, it has lapsed: the key reports all tokens, and the next event takes the first of them. -/
theorem refilled_a_window_later (p : RatePolicy) (hp : (Policy.rateLimit p).WellConfigured)
    (hrefill : p.refill = .proportional) (k : Key) (s : Memory) (hs : Reachable (.rateLimit p) k s)
    (r : Record) (hr : s.find? k = some r) (now : Instant) (hnow : now.Plain)
    (hlater : r.windowStart.nanos + max p.window.nanos (p.limit * 1000000) ≤ now.nanos) :
    (Policy.rateLimit p).refresh r now = none ∧
      (∃ d, (s.run (evaluate (.rateLimit p) k now)).1 = .ok d ∧ d.tokensLeft = some p.limit) ∧
      ∃ d, (s.run (recordFailure (.rateLimit p) k now)).1 = .ok d ∧
        d.tokensLeft = some (p.limit - 1) := by
  have hok := hp.not_misconfigured
  have hkept := hs.holds hp
  have hback : p.limit ≤ p.tokensBack r now := by
    apply RatePolicy.le_tokensBack (hkept.all r hr).start.1 hnow.1 (Int.le_of_lt hp.1)
    rw [RatePolicy.tokenSpan_eq]
    exact Int.le_trans (Int.add_le_add_left (RatePolicy.limit_mul_tokenInterval_le hp) _) hlater
  have hlapsed : (Policy.rateLimit p).refresh r now = none := by
    have hlimit := hp.1
    rw [Policy.refresh_proportional hrefill]
    exact RatePolicy.refilled_of_all (by omega) (by omega)
  have hlive : live (.rateLimit p) (s.find? k) now = none := by
    rw [hr]
    exact hlapsed
  refine ⟨hlapsed, ⟨_, congrArg Prod.fst (run_evaluate hok), ?_⟩,
    ⟨_, congrArg Prod.fst (run_recordFailure hok hkept.keyed), ?_⟩⟩
  · rw [hlive]
    rfl
  · rw [nextRecord, hlive]
    rfl

/-- Four a minute, and of five events at one instant the last is refused. A minute later all four
tokens are back. -/
theorem refilled_a_minute_later :
    let p : RatePolicy := ⟨4, .seconds 60, .proportional⟩
    let k : Key := ⟨.rateLimit, { reference := .domain "acme", subject := "alice" }⟩
    let s := (counter (.rateLimit p) k).after {} (List.replicate 5 (.failed, .epoch))
    let r : Record := { Record.fresh k .epoch with
      attempts := 5, tokensLeft := -1, allowRequest := false, expireAt := .ofMillis 60000 }
    s.find? k = some r ∧ (Policy.rateLimit p).refresh r (.ofMillis 60000) = none ∧
      (∃ d, (s.run (evaluate (.rateLimit p) k (.ofMillis 60000))).1 = .ok d ∧
        d.tokensLeft = some 4) ∧
      ∃ d, (s.run (recordFailure (.rateLimit p) k (.ofMillis 60000))).1 = .ok d ∧
        d.tokensLeft = some 3 := by
  intro p k s r
  have hr : s.find? k = some r := by decide +kernel
  have hs : Reachable (.rateLimit p) k s := ⟨_, by decide, rfl⟩
  exact ⟨hr, refilled_a_window_later p (by decide) rfl k s hs r hr (.ofMillis 60000) (by decide)
    (by decide)⟩

theorem after_failed (p : Policy) (k : Key) (s : Memory) (ts : List Instant) :
    (counter p k).after s (ts.map (.failed, ·)) = (failures p k).after s ts := by
  induction ts generalizing s with
  | nil => rfl
  | cons t rest ih => exact ih _

/-- Of 1001 tokens a second, all of which are spent at once, 1000 are back a second later, as each
takes a millisecond. And the one token of a second that was taken halfway through the leap second
after 2016 is not back halfway through the first second of 2017: that is a second later as spans
are added, but no time has passed as it is measured. -/
theorem missing_a_second_later :
    let k : Key := ⟨.rateLimit, { reference := .domain "acme", subject := "alice" }⟩
    let thousand : RatePolicy := ⟨1001, .seconds 1, .proportional⟩
    let one : RatePolicy := ⟨1, .seconds 1, .proportional⟩
    let halfway : Instant := .ofMillis 1483228800500
    ((Policy.rateLimit thousand).WellConfigured ∧ ∃ s r,
      Reachable (.rateLimit thousand) k s ∧ s.find? k = some r ∧
        r.windowStart.after thousand.window ≤ .ofMillis 1000 ∧
        ((Policy.rateLimit thousand).refresh r (.ofMillis 1000)).map (·.tokensLeft) = some 1000) ∧
      (Policy.rateLimit one).WellConfigured ∧
      ∃ r ∈ ((counter (.rateLimit one) k).after {} [(.failed, ⟨1483228799999999999, 500000001⟩)]).find? k,
        r.windowStart.after one.window ≤ halfway ∧
        ((Policy.rateLimit one).refresh r halfway).map (·.tokensLeft) = some 0 := by
  intro k thousand one halfway
  refine ⟨⟨by decide, ?_⟩, by decide, by decide +kernel⟩
  obtain ⟨-, hspent⟩ := burst_empty (p := thousand) (by decide) rfl k .epoch
  obtain ⟨r, hr, htokens, hstart⟩ := hspent.found
  have hback : thousand.tokensBack r (.ofMillis 1000) = 1000 := by
    rw [RatePolicy.tokensBack, hstart]
    decide
  refine ⟨_, r, ⟨_, fun e he => ?_, (after_failed _ k {} _).symm⟩, hr, ?_, ?_⟩
  · obtain ⟨t, ht, rfl⟩ := List.mem_map.mp he
    rw [List.eq_of_mem_replicate ht]
    decide
  · rw [hstart]
    decide
  · have hmissing : max r.tokensLeft 0 + thousand.tokensBack r (.ofMillis 1000) < thousand.limit := by
      rw [htokens, hback]
      decide
    rw [Policy.refresh_proportional rfl, RatePolicy.refilled_of_some (by omega) hmissing, hback]
    show some (max r.tokensLeft 0 + 1000) = some 1000
    rw [htokens]
    rfl

end Engine

end Gatehouse.Counter
