import Gatehouse.Proofs.Counter.Effective
import Gatehouse.Proofs.Guard.Window
import Gatehouse.Proofs.Settings.Checked
import Mathlib.Data.List.InsertIdx

/-! Refusals change nothing.

A refused event is written down: the record counts it, tells that it was refused, and when. But
which events are let through later turns on the start of the window and on the tokens that can be
taken, and a refused event leaves both as they were (`RatePolicy.sameAllowance_of_refused`). So
whoever goes on asking while there are no tokens neither loses nor gains by it: with one refused
event left out of a run, all others are answered as before (`answers_without_refused`). -/
namespace Gatehouse

/-! ### What decides about events -/

namespace Counter

/-- What of a record decides which events a rate limit lets through. -/
structure Allowance where
  start : Instant
  /-- The tokens that can be taken: none, also where an event was refused. -/
  tokens : Int

/-- What of a record decides about events. -/
def Record.allowance (r : Record) : Allowance := ⟨r.windowStart, max r.tokensLeft 0⟩

namespace RatePolicy
variable {p : RatePolicy} {k : Key} {s s' : Memory} {now : Instant} {r r' : Record}

/-- What is left of records that decide alike decides alike. -/
theorem allowance_refresh (h : r.allowance = r'.allowance) :
    ((Policy.rateLimit p).refresh r now).map (·.allowance) =
      ((Policy.rateLimit p).refresh r' now).map (·.allowance) := by
  have hstart : r.windowStart = r'.windowStart := congrArg Allowance.start h
  have htokens : max r.tokensLeft 0 = max r'.tokensLeft 0 := congrArg Allowance.tokens h
  cases hrefill : p.refill with
  | fixedWindow =>
    rw [Policy.refresh_fixedWindow hrefill, Policy.refresh_fixedWindow hrefill, hstart]
    split
    · exact congrArg some h
    · rfl
  | proportional =>
    have hback : p.tokensBack r now = p.tokensBack r' now := by
      rw [tokensBack, tokensBack, hstart]
    rw [Policy.refresh_proportional hrefill, Policy.refresh_proportional hrefill]
    simp only [refilled, hback, htokens, hstart]
    split
    · exact congrArg some h
    · split
      · rfl
      · rfl

/-- Under a key of two stores stand records that decide alike, or none. -/
structure SameAllowance (k : Key) (s s' : Memory) : Prop where
  keyed : s.Keyed
  keyed' : s'.Keyed
  same : (s.find? k).map (·.allowance) = (s'.find? k).map (·.allowance)

theorem SameAllowance.live (h : SameAllowance k s s') (p : RatePolicy) (now : Instant) :
    (Engine.live (.rateLimit p) (s.find? k) now).map (·.allowance) =
      (Engine.live (.rateLimit p) (s'.find? k) now).map (·.allowance) := by
  have hsame := h.same
  cases hr : s.find? k <;> cases hr' : s'.find? k <;> simp only [hr, hr'] at hsame
  · rfl
  · cases hsame
  · cases hsame
  · exact allowance_refresh (Option.some.inj hsame)

/-- The window of an event is the live one, or begins with the event. -/
theorem windowStart_nextRecord (p : RatePolicy) (k : Key) (now : Instant) (stored : Option Record) :
    (Engine.nextRecord (.rateLimit p) k now stored).windowStart =
      ((Engine.live (.rateLimit p) stored now).map (·.allowance)).elim now (·.start) := by
  rw [Engine.nextRecord, Policy.applyFailure_windowStart]
  cases Engine.live (.rateLimit p) stored now <;> rfl

theorem available_eq (p : RatePolicy) (k : Key) (now : Instant) (s : Memory) :
    p.available k now s =
      ((Engine.live (.rateLimit p) (s.find? k) now).map (·.allowance)).elim p.limit (·.tokens) := by
  rw [available]
  cases Engine.live (.rateLimit p) (s.find? k) now <;> rfl

section Next
variable (h : SameAllowance k s s') (p : RatePolicy) (now : Instant)
include h

theorem SameAllowance.windowStart_nextRecord :
    (Engine.nextRecord (.rateLimit p) k now (s.find? k)).windowStart =
      (Engine.nextRecord (.rateLimit p) k now (s'.find? k)).windowStart := by
  rw [RatePolicy.windowStart_nextRecord, RatePolicy.windowStart_nextRecord, h.live]

theorem SameAllowance.tokensLeft_nextRecord :
    (Engine.nextRecord (.rateLimit p) k now (s.find? k)).tokensLeft =
      (Engine.nextRecord (.rateLimit p) k now (s'.find? k)).tokensLeft := by
  rw [RatePolicy.tokensLeft_nextRecord, RatePolicy.tokensLeft_nextRecord, available_eq,
    available_eq, h.live]

/-- An event keeps stores alike. -/
theorem SameAllowance.put :
    SameAllowance k (s.put (Engine.nextRecord (.rateLimit p) k now (s.find? k)))
      (s'.put (Engine.nextRecord (.rateLimit p) k now (s'.find? k))) where
  keyed := h.keyed.put _
  keyed' := h.keyed'.put _
  same := by
    rw [Engine.find?_put_nextRecord h.keyed, Engine.find?_put_nextRecord h.keyed',
      Option.map_some, Option.map_some, Record.allowance, Record.allowance,
      h.windowStart_nextRecord, h.tokensLeft_nextRecord]

end Next

/-- An event is refused where a record without tokens is live and no token has come back. -/
theorem stored_of_refused (hlimit : 0 < p.limit)
    (hrefused : (Engine.nextRecord (.rateLimit p) k now (s.find? k)).allowRequest = false) :
    ∃ r, s.find? k = some r ∧ Engine.live (.rateLimit p) (some r) now = some r ∧
      r.tokensLeft ≤ 0 := by
  have hnone : p.available k now s ≤ 0 := by
    rw [allowRequest_nextRecord, tokensLeft_nextRecord, decide_eq_false_iff_not] at hrefused
    omega
  rw [available] at hnone
  cases hlive : Engine.live (.rateLimit p) (s.find? k) now with
  | none =>
    rw [hlive] at hnone
    exact absurd hlimit (Int.not_lt.mpr hnone)
  | some r =>
    rw [hlive] at hnone
    obtain ⟨r₀, hfound, hrefresh⟩ := Option.bind_eq_some_iff.mp hlive
    rcases Policy.refresh_cases hrefresh with rfl | ⟨q, -, -, hback, -, rfl⟩
    · have hnone : max r.tokensLeft 0 ≤ 0 := hnone
      exact ⟨r, hfound, hfound ▸ hlive, by omega⟩
    · have hnonneg := q.tokensBack_nonneg r₀ now
      have hnone : max (max r₀.tokensLeft 0 + q.tokensBack r₀ now) 0 ≤ 0 := hnone
      omega

/-- **A refused event leaves what decides about events as it was.** -/
theorem sameAllowance_of_refused (hs : s.Keyed) (hlimit : 0 < p.limit)
    (hrefused : (Engine.nextRecord (.rateLimit p) k now (s.find? k)).allowRequest = false) :
    SameAllowance k (s.put (Engine.nextRecord (.rateLimit p) k now (s.find? k))) s where
  keyed := hs.put _
  keyed' := hs
  same := by
    obtain ⟨r, hfound, hlive, htokens⟩ := stored_of_refused hlimit hrefused
    have hnext : (Engine.nextRecord (.rateLimit p) k now (some r)).allowance =
        ⟨r.windowStart, max (max (r.tokensLeft - 1) (-1)) 0⟩ := by
      rw [Engine.nextRecord, hlive]
      rfl
    have hsame : max (max (r.tokensLeft - 1) (-1)) 0 = max r.tokensLeft 0 := by omega
    rw [Engine.find?_put_nextRecord hs, hfound, Option.map_some, Option.map_some, hnext, hsame]
    rfl

end RatePolicy

end Counter

/-! ### The guard of one caller -/

namespace Guard.RateLimit

open Counter (Decision Memory)
open Counter.Engine (nextRecord)
open Counter.RatePolicy (SameAllowance)

/-- What a caller is told of an event. -/
structure Reply where
  allowed : Bool
  tokensLeft : Option Int
  retryAfterSecs : Nat
  deriving DecidableEq, Repr

/-- What a decision tells a caller. -/
def Reply.of (d : Decision) : Reply := ⟨d.allowed, d.tokensLeft, d.retryAfterSecs⟩

/-- The guard of one caller, over a store in memory where nothing goes wrong. -/
def taker (s : RateLimitSettings) (who : Criteria) :
    Machine Instant Memory (Except Failure Reply) where
  next now store :=
    let (o, store') := store.run (tryConsume s who now)
    (o.result.map Reply.of, store')

section Taker
variable {s : RateLimitSettings} {who : Criteria} {now : Instant} {store store' : Memory}

theorem next_taker (hs : s.enabled = true) (hp : (policy s).WellConfigured)
    (hstore : store.Keyed) :
    let r := nextRecord (policy s) (key who) now (store.find? (key who))
    (taker s who).next now store = (.ok (.of ((policy s).decideLive r now)), store.put r) := by
  simp only [taker, run_tryConsume hs hp hstore]
  rfl

/-- What is told of an event depends on the start of its window and the tokens left. -/
theorem reply_of_decideLive (h : SameAllowance (key who) store store') (s : RateLimitSettings)
    (now : Instant) :
    Reply.of ((policy s).decideLive
        (nextRecord (policy s) (key who) now (store.find? (key who))) now) =
      .of ((policy s).decideLive
        (nextRecord (policy s) (key who) now (store'.find? (key who))) now) := by
  have hstart := h.windowStart_nextRecord s.policy now
  have htokens := h.tokensLeft_nextRecord s.policy now
  have hallow : (nextRecord (policy s) (key who) now (store.find? (key who))).allowRequest =
      (nextRecord (policy s) (key who) now (store'.find? (key who))).allowRequest := by
    rw [policy, Counter.RatePolicy.allowRequest_nextRecord,
      Counter.RatePolicy.allowRequest_nextRecord, htokens]
  rw [policy] at hallow ⊢
  simp only [Reply.of, Counter.Policy.decideLive, Counter.Policy.retryAt,
    Counter.RatePolicy.nextTokenAt, hallow, htokens, hstart]

/-- Stores that decide alike answer alike. -/
def allowanceSimulation (who : Criteria) (hs : s.enabled = true) (hp : (policy s).WellConfigured) :
    Machine.Simulation (taker s who) (taker s who) (fun _ => True) where
  Rel := SameAllowance (key who)
  answer now store store' _ h := by
    rw [next_taker hs hp h.keyed, next_taker hs hp h.keyed', reply_of_decideLive h]
  step now store store' _ h := by
    rw [next_taker hs hp h.keyed, next_taker hs hp h.keyed']
    exact h.put s.policy now

theorem keyed_next (hs : s.enabled = true) (hp : (policy s).WellConfigured)
    (hstore : store.Keyed) (now : Instant) : ((taker s who).next now store).2.Keyed := by
  rw [next_taker hs hp hstore]
  exact hstore.put _

theorem keyed_after (hs : s.enabled = true) (hp : (policy s).WellConfigured)
    (hstore : store.Keyed) (ts : List Instant) : ((taker s who).after store ts).Keyed :=
  @Machine.after_keeps _ _ _ (taker s who) (fun _ => True) Memory.Keyed
    (fun now _ _ hstore => keyed_next hs hp hstore now) store hstore ts fun _ _ => trivial

theorem ok_taker (hs : s.enabled = true) (hp : (policy s).WellConfigured) (hstore : store.Keyed)
    (ts : List Instant) : ∀ a ∈ (taker s who).answers store ts, ∃ r, a = .ok r := by
  induction ts generalizing store with
  | nil => exact fun _ ha => absurd ha List.not_mem_nil
  | cons t rest ih =>
    rw [Machine.answers, next_taker hs hp hstore]
    intro a ha
    rcases List.mem_cons.mp ha with rfl | ha
    · exact ⟨_, rfl⟩
    · exact ih (hstore.put _) a ha

end Taker

/-- **A refused event may be left out of a run**, and all others are told the same: whether they
are allowed, how many tokens are left, and how long to wait. This holds for all settings of a
rate limit that is in force and has passed its check. -/
theorem answers_without_refused (s : RateLimitSettings) (who : Criteria) (hs : s.enabled = true)
    (hcheck : s.check = .ok ()) (ts : List Instant) (i : Nat) {r : Reply}
    (hr : ((taker s who).answers {} ts)[i]? = some (.ok r)) (hrefused : r.allowed = false) :
    (∀ a ∈ (taker s who).answers {} ts, ∃ r, a = .ok r) ∧
      (taker s who).answers {} (ts.eraseIdx i) = ((taker s who).answers {} ts).eraseIdx i := by
  obtain ⟨hlimit, hperiod⟩ := RateLimitSettings.check_eq_ok_iff.mp hcheck hs
  have hp : (policy s).WellConfigured := ⟨hlimit, s.timeUnit.span_pos hperiod⟩
  refine ⟨ok_taker hs hp Memory.keyed_empty ts, ?_⟩
  have hlt : i < ts.length := by
    rw [← (taker s who).length_answers {} ts]
    exact (List.getElem?_eq_some_iff.mp hr).1
  have he : ts[i]? = some ts[i] := List.getElem?_eq_getElem hlt
  have hkeyed : ((taker s who).after {} (ts.take i)).Keyed :=
    keyed_after hs hp Memory.keyed_empty _
  rw [Machine.answers_getElem? _ _ he, next_taker hs hp hkeyed] at hr
  cases hr
  refine Machine.answers_eraseIdx _ _ he ?_
  rw [next_taker hs hp hkeyed]
  exact (allowanceSimulation who hs hp).answers_eq
    (Counter.RatePolicy.sameAllowance_of_refused hkeyed hlimit hrefused) fun _ _ => trivial

/-- One event a minute, given back when the minute is over. Two are refused before that; without
the first of them the second is told the same, and so is the one that is let through. -/
theorem one_a_minute_without_refused :
    let s : RateLimitSettings :=
      { enabled := true, limit := 1, timePeriod := 1, refill := .proportional }
    let who : Criteria := { reference := .domain "acme", subject := "alice" }
    let told (ts : List Instant) := ((taker s who).answers {} ts).map Except.toOption
    told [.ofMillis 0, .ofMillis 30000, .ofMillis 59001, .ofMillis 60000] =
        [some ⟨true, some 0, 0⟩, some ⟨false, some (-1), 30⟩, some ⟨false, some (-1), 1⟩,
          some ⟨true, some 0, 0⟩] ∧
      told [.ofMillis 0, .ofMillis 59001, .ofMillis 60000] =
        [some ⟨true, some 0, 0⟩, some ⟨false, some (-1), 1⟩, some ⟨true, some 0, 0⟩] := by
  intro s who told
  let ts : List Instant := [.ofMillis 0, .ofMillis 30000, .ofMillis 59001, .ofMillis 60000]
  have hall : told ts = [some ⟨true, some 0, 0⟩, some ⟨false, some (-1), 30⟩,
      some ⟨false, some (-1), 1⟩, some ⟨true, some 0, 0⟩] := by
    decide +kernel
  have hsecond : (((taker s who).answers {} ts)[1]?).bind Except.toOption =
      some ⟨false, some (-1), 30⟩ := by
    decide +kernel
  obtain ⟨a, ha, hok⟩ := Option.bind_eq_some_iff.mp hsecond
  cases a with
  | error e => cases hok
  | ok r =>
    cases hok
    obtain ⟨-, hrest⟩ := answers_without_refused s who rfl rfl ts 1 ha rfl
    refine ⟨hall, ?_⟩
    show ((taker s who).answers {} (ts.eraseIdx 1)).map Except.toOption = _
    rw [hrest, ← List.eraseIdx_map]
    exact congrArg (List.eraseIdx · 1) hall

end Guard.RateLimit

end Gatehouse
