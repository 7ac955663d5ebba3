import Gatehouse.Guard.Throttle
import Gatehouse.Proofs.Counter.Effective
import Gatehouse.Settings.Config
import Mathlib.Data.List.Basic

/-! The handler behind a rate limit.

A request under a rate limit reaches its handler only with a token that the store has
taken note of. Whatever becomes of the calls to the store, one request after another
(`exchanges`), a request's handler is run once if the one write that had its effect left a
token or took the last, and else not at all; and whoever is turned away is told why: that
there is no token, and how long to wait, or that the store took too long or failed
(`Throttled`). -/
namespace Gatehouse.Guard.Throttle

open Counter (Decision Key Memory Outcome RatePolicy Record runOn turnsAfter)
open Counter.Engine (nextRecord recordFailure)
open Store (Turns)

/-! ### The handler behind the gate -/

/-- The answer to a request whose handler may do something when it is run. -/
def serve {m : Type → Type} [Monad m] (handler : m Response) : Gate → m Response
  | .open => handler
  | .admitted tokens => do
    let handled ← handler
    return { handled with remaining := tokens.map Int.toNat }
  | .refused f => pure f.response

theorem serve_pure {m : Type → Type} [Monad m] [LawfulMonad m] (handled : Response) (g : Gate) :
    serve (pure handled : m Response) g = pure (respond handled g) := by
  cases g <;> simp [serve, respond]

/-- A handler that counts how often it is run. -/
def counting : StateM Nat Response := fun n => (default, n + 1)

/-- How often the handler is run. -/
def handlings (g : Gate) : Nat := (serve counting g 0).2

@[simp] theorem handlings_open : handlings .open = 1 := rfl

@[simp] theorem handlings_admitted (tokens : Option Int) : handlings (.admitted tokens) = 1 := rfl

@[simp] theorem handlings_refused (f : Failure) : handlings (.refused f) = 0 := rfl

theorem handlings_le_one (g : Gate) : handlings g ≤ 1 := by
  cases g <;> simp

/-! ### Requests, one after another -/

/-- A request that arrives: whose settings hold, what it falls under, and when. -/
structure Arrival where
  provider : SettingsProvider
  who : Option Criteria
  now : Instant

/-- The rate limit that holds for a criteria. -/
def Arrival.settings (a : Arrival) (who : Criteria) : RateLimitSettings :=
  (a.provider who.reference who.client).rateLimit

/-- What a request comes to at the gate. -/
abbrev Exchange : Type := Outcome (Gate × List Audit.Report)

/-- Requests that arrive one after another, each with the turns and the store that are left;
`none` where a call is never answered. -/
def exchanges (limit : Option Nat) : List Arrival → Memory → Turns → Option (List Exchange)
  | [], _, _ => some []
  | a :: rest, s, turns => do
    let o ← runOn limit (gate a.settings a.who a.now) s turns
    let os ← exchanges limit rest o.store (turnsAfter turns o.calls)
    return o :: os

/-- The records that a request has put in the store. -/
def effects (limit : Option Nat) (o : Exchange) : List Record :=
  o.calls.filterMap (Counter.Call.wrote limit)

/-! ### What becomes of a request under a rate limit -/

/-- The ways in which a request under a rate limit can end. -/
inductive Ended (limit : Option Nat) (p : RatePolicy) (now : Instant) (o : Exchange) : Prop where
  /-- It has taken a token. -/
  | passed (r : Record) : effects limit o = [r] → 0 ≤ r.tokensLeft →
      o.result.1 = .admitted (some r.tokensLeft) → Ended limit p now o
  /-- There was no token, and it is told when there is one again. -/
  | denied (r : Record) (f : Failure) : effects limit o = [r] → r.tokensLeft < 0 →
      o.result.1 = .refused f → f.response.status = 429 →
      f.response.retryAfter = some (Counter.secondsUntil (p.nextTokenAt r) now) →
      Ended limit p now o
  /-- The rate limit makes no sense. -/
  | senseless (f : Failure) : p.isMisconfigured = true → o.calls = [] →
      o.result.1 = .refused f → f.response.status = 429 → f.response.retryAfter = some 0 →
      Ended limit p now o
  /-- The last call to the store failed, and nothing was taken. -/
  | failed (c : Counter.Call) (e : Store.Error) (f : Failure) : effects limit o = [] →
      o.calls.getLast? = some c → c.error = some e → o.result.1 = .refused f →
      f.response.status = (if e.kind = .timeout then 504 else 500) →
      f.response.retryAfter = none → Ended limit p now o

/-- What holds of a request under a rate limit, however its calls go. -/
structure Throttled (limit : Option Nat) (p : RatePolicy) (k : Key) (now : Instant)
    (o : Exchange) : Prop where
  once : handlings o.result.1 ≤ 1
  /-- The handler is run exactly if the one effective write had a token to take. -/
  handled_iff : handlings o.result.1 = 1 ↔ ∃ r, effects limit o = [r] ∧ 0 ≤ r.tokensLeft
  one_effect : (effects limit o).length ≤ 1
  /-- A write that has an effect takes one of the tokens that it finds. -/
  one_token : ∀ c ∈ o.calls, ∀ r, c.wrote limit = some r →
    r.tokensLeft = p.available k now c.found - 1
  ended : Ended limit p now o

variable {limit : Option Nat} {p : RatePolicy} {k : Key} {now : Instant} {s : Memory}
  {turns : Turns}

/-- The ways to end tell whether the handler was run. -/
theorem Ended.handled_iff {o : Exchange} (h : Ended limit p now o) :
    handlings o.result.1 = 1 ↔ ∃ r, effects limit o = [r] ∧ 0 ≤ r.tokensLeft := by
  cases h with
  | passed r heffects htokens hgate =>
    rw [hgate]
    exact iff_of_true rfl ⟨r, heffects, htokens⟩
  | denied r f heffects htokens hgate =>
    rw [hgate]
    refine iff_of_false (by simp) ?_
    rintro ⟨r', heffects', htokens'⟩
    cases heffects.symm.trans heffects'
    omega
  | senseless f _ hcalls hgate =>
    rw [hgate]
    refine iff_of_false (by simp) ?_
    rintro ⟨r, heffects, -⟩
    rw [effects, hcalls] at heffects
    cases heffects
  | failed c e f heffects _ _ hgate =>
    rw [hgate]
    refine iff_of_false (by simp) ?_
    rintro ⟨r, heffects', -⟩
    cases heffects.symm.trans heffects'

theorem Ended.length_effects {o : Exchange} (h : Ended limit p now o) :
    (effects limit o).length ≤ 1 := by
  cases h with
  | passed r heffects => simp [heffects]
  | denied r f heffects => simp [heffects]
  | senseless f _ hcalls => simp [effects, hcalls]
  | failed c e f heffects => simp [heffects]

/-! ### The gate -/

/-- What the gate makes of the engine's result. -/
def judged (settings : RateLimitSettings) (who : Criteria) :
    Except Store.Error Decision → Gate × List Audit.Report
  | .error e => (.refused (.ofStore e), [])
  | .ok d =>
    (if d.allowed then .admitted d.tokensLeft else .refused (.rateLimitExceeded d.retryAfterSecs),
      if d.allowed then [] else [RateLimit.exceededReport settings who d])

/-- Under a rate limit, the gate asks the engine for a token. -/
theorem gate_eq {settings : Criteria → RateLimitSettings} {who : Criteria}
    (henabled : (settings who).enabled = true) :
    gate settings (some who) now =
      (recordFailure (RateLimit.policy (settings who)) (RateLimit.key who) now).bind fun x =>
        .done (judged (settings who) who x) := by
  rw [gate, RateLimit.tryConsume, if_pos henabled, Action.reporting, Store.Program.bind_assoc]
  congr 1
  funext x
  cases x <;> rfl

/-- The engine's outcome, as the gate passes it on. -/
theorem runOn_gate {settings : Criteria → RateLimitSettings} {who : Criteria}
    (henabled : (settings who).enabled = true) :
    runOn limit (gate settings (some who) now) s turns =
      (runOn limit (recordFailure (RateLimit.policy (settings who)) (RateLimit.key who) now) s
        turns).map fun o => ⟨judged (settings who) who o.result, o.store, o.calls⟩ := by
  rw [gate_eq henabled, Counter.runOn_bind_done]

theorem response_ofStore (e : Store.Error) :
    (Failure.ofStore e).response.status = (if e.kind = .timeout then 504 else 500) ∧
      (Failure.ofStore e).response.retryAfter = none := by
  unfold Failure.ofStore
  split <;> exact ⟨rfl, rfl⟩

/-- A decision about a record that allows what has a token. -/
theorem judged_decide (settings : RateLimitSettings) (who : Criteria) (p : RatePolicy)
    (now : Instant) {r : Record} (hallowed : r.allowRequest = decide (0 ≤ r.tokensLeft)) :
    (judged settings who (.ok ((Counter.Policy.rateLimit p).decide (some r) now))).1 =
      if 0 ≤ r.tokensLeft then .admitted (some r.tokensLeft)
      else .refused (.rateLimitExceeded (Counter.secondsUntil (p.nextTokenAt r) now)) := by
  by_cases htokens : 0 ≤ r.tokensLeft
  · rw [decide_eq_true htokens] at hallowed
    simp [judged, Counter.Policy.decide, Counter.Policy.decideLive, Counter.Policy.kind, hallowed,
      htokens]
  · rw [decide_eq_false htokens] at hallowed
    simp [judged, Counter.Policy.decide, Counter.Policy.decideLive, Counter.Policy.retryAt,
      hallowed, htokens]

/-- The engine's outcome is how the request ends. -/
theorem ended_of_story (settings : RateLimitSettings) (who : Criteria)
    {o : Outcome (Except Store.Error Decision)}
    (hstory : Counter.Engine.Story limit k 1 2 o.calls o.result o.store)
    (heffective : Counter.Engine.Effective (.rateLimit settings.policy) k now limit o) :
    Ended limit settings.policy now ⟨judged settings who o.result, o.store, o.calls⟩ := by
  have heffects := hstory.filterMap_wrote
  cases hresult : o.result with
  | error e =>
    obtain ⟨c, e', hlast, herror, htimeout⟩ := hstory.last_failed hresult
    obtain ⟨hstatus, hretry⟩ := response_ofStore e
    rw [hresult] at heffects
    exact .failed c e' (.ofStore e) heffects hlast herror rfl (by simp only [hstatus, htimeout])
      hretry
  | ok d =>
    obtain ⟨c, r, hlast, hwrote, hrecord, -⟩ := hstory.last_wrote hresult
    rw [hresult, Counter.Engine.decided, hrecord] at heffects
    obtain ⟨r', rfl⟩ := heffective.decided d hresult
    cases hrecord
    have hallowed : r.allowRequest = decide (0 ≤ r.tokensLeft) := by
      rw [heffective.wrote c (List.mem_of_getLast? hlast) r hwrote]
      exact RatePolicy.allowRequest_nextRecord _ _ _ _
    have hgate := judged_decide settings who settings.policy now hallowed
    by_cases htokens : 0 ≤ r.tokensLeft
    · rw [if_pos htokens] at hgate
      exact .passed r heffects htokens hgate
    · rw [if_neg htokens] at hgate
      exact .denied r _ heffects (Int.not_le.mp htokens) hgate rfl rfl

/-- Whatever becomes of its calls, a request under a rate limit is throttled. -/
theorem throttled_gate (settings : Criteria → RateLimitSettings) {who : Criteria}
    (henabled : (settings who).enabled = true) (hs : s.Keyed) (hturns : turns.Answered limit) :
    ∃ o, runOn limit (gate settings (some who) now) s turns = some o ∧
      Throttled limit (settings who).policy (RateLimit.key who) now o := by
  rw [runOn_gate henabled]
  cases hp : (RateLimit.policy (settings who)).isMisconfigured with
  | true =>
    rw [recordFailure, if_pos hp]
    have hended : Ended limit (settings who).policy now
        ⟨judged (settings who) who (.ok .misconfigured), s, []⟩ :=
      .senseless _ hp rfl rfl rfl rfl
    exact ⟨_, rfl, handlings_le_one _, hended.handled_iff, hended.length_effects,
      fun _ hc => (List.not_mem_nil hc).elim, hended⟩
  | false =>
    rw [Counter.Engine.recordFailure_eq hp]
    obtain ⟨o, ho, hstory⟩ := Counter.Engine.runOn_rounds (RateLimit.policy (settings who)) now
      (RateLimit.key who) 1 2 hs hturns
    have heffective := Counter.Engine.runOn_rounds_effective hs ho
    have hended := ended_of_story (settings who) who hstory heffective
    rw [ho]
    refine ⟨_, rfl, handlings_le_one _, hended.handled_iff, hended.length_effects, ?_, hended⟩
    intro c hc r hr
    rw [heffective.wrote c hc r hr]
    exact RatePolicy.tokensLeft_nextRecord _ _ _ _

/-! ### Runs of requests -/

/-- **The handler is reached only with a token that was taken.** Whatever the store in memory
holds, every record under its own key, and whatever becomes of the calls, as long as each is
answered: every request of a run that falls under a rate limit is throttled. -/
theorem handled_only_with_token (limit : Option Nat) (arrivals : List Arrival) (s : Memory)
    (hs : s.Keyed) (turns : Turns) (hturns : turns.Answered limit) :
    ∃ os, exchanges limit arrivals s turns = some os ∧
      List.Forall₂ (fun a o => ∀ who, a.who = some who → (a.settings who).enabled = true →
        Throttled limit (a.settings who).policy (RateLimit.key who) a.now o) arrivals os := by
  induction arrivals generalizing s turns with
  | nil => exact ⟨[], rfl, .nil⟩
  | cons a rest ih =>
    obtain ⟨o, ho⟩ := Counter.runOn_isSome (gate a.settings a.who a.now) s hturns
    obtain ⟨os, hos, hrest⟩ := ih o.store (hs.runOn ho) (turnsAfter turns o.calls)
      (Counter.answered_turnsAfter hturns)
    refine ⟨o :: os, by simp [exchanges, ho, hos], .cons (fun who hwho henabled => ?_) hrest⟩
    obtain ⟨o', ho', hthrottled⟩ := throttled_gate a.settings henabled hs hturns
    rw [hwho, ho'] at ho
    cases ho
    exact hthrottled

/-- Two tokens a minute. Another writer takes the first of them while the first request is
served; the second request waits for a find that never returns; for the third there is no
token; the write of the fourth, which is somebody else's, fails; and when the minute is over
there are tokens again. -/
theorem five_requests_throttled :
    let provider : SettingsProvider := fun _ _ =>
      { rateLimit := { enabled := true, limit := 2, timePeriod := 1 } }
    let request (subject : String) (secs : Int) : Arrival :=
      ⟨provider, some { reference := .domain "acme", subject }, .ofMillis (1000 * secs)⟩
    let arrivals := [request "alice" 0, request "alice" 1, request "alice" 2, request "bob" 3,
      request "alice" 60]
    let turns : Turns := fun operation n =>
      if operation = "create" then if n = 0 then .raced else .fails .backend
      else if operation = "find" ∧ n = 2 then .hangs else .served
    let seen (o : Exchange) :=
      let r := respond ⟨200, "", "", none, none⟩ o.result.1
      (handlings o.result.1, r.status, r.retryAfter, r.remaining)
    (Memory.Keyed {} ∧ turns.Answered (some 50000000)) ∧
      ∃ os, exchanges (some 50000000) arrivals {} turns = some os ∧
        List.Forall₂ (fun a o => ∀ who, a.who = some who → (a.settings who).enabled = true →
          Throttled (some 50000000) (a.settings who).policy (RateLimit.key who) a.now o)
          arrivals os ∧
        os.map seen = [(1, 200, none, some 0), (0, 504, none, none), (0, 429, some 58, none),
          (0, 500, none, none), (1, 200, none, some 1)] := by
  intro provider request arrivals turns seen
  have hs : Memory.Keyed {} := Counter.Memory.keyed_empty
  have hturns : turns.Answered (some 50000000) := nofun
  obtain ⟨os, hos, hthrottled⟩ :=
    handled_only_with_token (some 50000000) arrivals {} hs turns hturns
  have hseen : (exchanges (some 50000000) arrivals {} turns).map (List.map seen) =
      some [(1, 200, none, some 0), (0, 504, none, none), (0, 429, some 58, none),
        (0, 500, none, none), (1, 200, none, some 1)] := by decide +kernel
  rw [hos] at hseen
  exact ⟨⟨hs, hturns⟩, os, hos, hthrottled, Option.some.inj hseen⟩

end Gatehouse.Guard.Throttle
