import Gatehouse.Proofs.Counter.Effective
import Gatehouse.Proofs.Guard.Isolation
import Gatehouse.Proofs.Guard.Window
import Gatehouse.Proofs.Settings.Checked

/-! Looking at a rate limit before a token is taken.

A peek repeats whether the last event was let through, and an event is let through with the last
token as with any other. So the tokens that a peek reports tell what an event would come to, and
whether it allows tells it too, but for the moment at which the last token is gone and none has
been asked for in vain (`peek_agrees_iff`). What carries this over whole runs is that a stored
record allows exactly if its tokens are not below none (`Record.AllowsByTokens`), whichever call
of a guard wrote it. -/
namespace Gatehouse

/-! ### Records that allow by their tokens -/

namespace Counter

/-- The record lets its subject through exactly if no event found it without tokens. -/
def Record.AllowsByTokens (r : Record) : Prop := r.allowRequest = decide (0 ≤ r.tokensLeft)

namespace RatePolicy
variable {p : RatePolicy} {k : Key} {s : Memory} {now : Instant} {r r' : Record}

/-- Giving tokens back lets the subject through. -/
theorem allowsByTokens_refresh (h : r.AllowsByTokens)
    (hlive : (Policy.rateLimit p).refresh r now = some r') : r'.AllowsByTokens := by
  rcases Policy.refresh_cases hlive with rfl | ⟨q, -, -, -, -, rfl⟩
  · exact h
  · have hback := q.tokensBack_nonneg r now
    have htokens : 0 ≤ max r.tokensLeft 0 + q.tokensBack r now := by omega
    exact (decide_eq_true htokens).symm

/-- What is decided without an event is whether tokens are not below none, and what an event is
answered is whether there was one to take. -/
theorem decide_allowed (now : Instant) (hlimit : 0 < p.limit) (hs : ∀ r ∈ s.find? k, r.AllowsByTokens) :
    let peeked := (Policy.rateLimit p).decide (Engine.live (.rateLimit p) (s.find? k) now) now
    ∃ n, peeked.tokensLeft = some n ∧ peeked.allowed = decide (0 ≤ n) ∧
      (Engine.nextRecord (.rateLimit p) k now (s.find? k)).allowRequest = decide (0 < n) := by
  intro peeked
  have htokens := tokensLeft_nextRecord p k now s
  rw [allowRequest_nextRecord, htokens, available]
  unfold peeked
  cases hlive : Engine.live (.rateLimit p) (s.find? k) now with
  | none =>
    have hsome : 0 ≤ p.limit := Int.le_of_lt hlimit
    refine ⟨p.limit, rfl, (decide_eq_true hsome).symm, ?_⟩
    rw [decide_eq_decide]
    show 0 ≤ p.limit - 1 ↔ 0 < p.limit
    omega
  | some r =>
    obtain ⟨r₀, hfound, hrefresh⟩ := Option.bind_eq_some_iff.mp hlive
    refine ⟨r.tokensLeft, rfl, allowsByTokens_refresh (hs r₀ hfound) hrefresh, ?_⟩
    rw [decide_eq_decide]
    show 0 ≤ max r.tokensLeft 0 - 1 ↔ 0 < r.tokensLeft
    omega

end RatePolicy

end Counter

namespace Guard

open Counter (Memory Record)
open Counter.Engine (nextRecord)

/-! ### What calls leave -/

namespace RateLimit
variable {s : RateLimitSettings} {who : Criteria} {now : Instant} {store : Memory}

/-- Taking a token leaves the store as it was, or the next record. -/
theorem snd_run_tryConsume (s : RateLimitSettings) (who : Criteria) (now : Instant)
    (hstore : store.Keyed) :
    (store.run (tryConsume s who now)).2 = store ∨
      (store.run (tryConsume s who now)).2 =
        store.put (nextRecord (policy s) (key who) now (store.find? (key who))) := by
  cases henabled : s.enabled with
  | false =>
    refine .inl ?_
    simp only [tryConsume, henabled, Bool.false_eq_true, if_false]
    rfl
  | true =>
    simp only [tryConsume, henabled, if_true, Action.snd_run_reporting]
    cases hp : (policy s).isMisconfigured with
    | true => exact .inl (by rw [Counter.Engine.run_recordFailure_misconfigured hp])
    | false => exact .inr (by rw [Counter.Engine.run_recordFailure hp hstore])

theorem snd_run_peek : (store.run (peek s who now)).2 = store := by
  cases henabled : s.enabled with
  | false =>
    simp only [peek, henabled, Bool.false_eq_true, if_false]
    rfl
  | true =>
    cases hp : (policy s).isMisconfigured with
    | true =>
      simp only [peek, henabled, if_true, Action.quiet, Action.snd_run_reporting]
      rw [Counter.Engine.run_evaluate_misconfigured hp]
    | false => rw [run_peek henabled hp]

end RateLimit

/-- What a call leaves under the tokens of its criteria: what was found, the record of an event,
or nothing. -/
theorem find?_next_tokens {c : Call} {store : Memory} (hstore : store.Keyed)
    (hkind : c.operation.kind = .rateLimit) :
    (services.next c store).2.find? c.key = store.find? c.key ∨
      (services.next c store).2.find? c.key = none ∨
      ∃ s : RateLimitSettings, (services.next c store).2.find? c.key =
        some (nextRecord (RateLimit.policy s) c.key c.now (store.find? c.key)) := by
  obtain ⟨provider, operation, who, now⟩ := c
  have htake : ∀ s : RateLimitSettings,
      (store.run (RateLimit.tryConsume s who now)).2.find? (RateLimit.key who) =
          store.find? (RateLimit.key who) ∨
        (store.run (RateLimit.tryConsume s who now)).2.find? (RateLimit.key who) =
          some (nextRecord (RateLimit.policy s) (RateLimit.key who) now
            (store.find? (RateLimit.key who))) := fun s => by
    rcases RateLimit.snd_run_tryConsume s who now hstore with h | h
    · exact .inl (congrArg (Memory.find? · _) h)
    · rw [h, Counter.Engine.find?_put_nextRecord hstore]
      exact .inr rfl
  cases operation with
  | takeToken =>
    simp only [services, Call.action, Action.snd_run_andThen]
    exact (htake _).imp id fun h => .inr ⟨_, h⟩
  | demandToken =>
    simp only [services, Call.action, RateLimit.consume, Action.snd_run_andThen]
    exact (htake _).imp id fun h => .inr ⟨_, h⟩
  | peekTokens =>
    refine .inl ?_
    simp only [services, Call.action, Action.snd_run_andThen, RateLimit.snd_run_peek]
  | resetTokens =>
    simp only [services, Call.action, RateLimit.reset, Action.snd_run_andThen,
      Action.snd_run_reporting]
    exact .inr (.inl (store.find?_erase _))
  | _ => cases hkind

/-- What stands under the tokens of a criteria allows by its tokens. -/
structure Truthful (who : Criteria) (store : Memory) : Prop where
  keyed : store.Keyed
  allows : ∀ r ∈ store.find? (RateLimit.key who), r.AllowsByTokens

variable {who : Criteria} {store : Memory}

theorem truthful_empty (who : Criteria) : Truthful who {} :=
  ⟨Memory.keyed_empty, fun r hr => by cases hr⟩

/-- Whatever a guard is asked to do, a record that it leaves allows by its tokens. -/
theorem Truthful.next (h : Truthful who store) (c : Call) : Truthful who (services.next c store).2 where
  keyed := h.keyed.run _
  allows := by
    by_cases hkey : c.key = RateLimit.key who
    · have hkind : c.operation.kind = .rateLimit := congrArg Counter.Key.kind hkey
      have hcases := find?_next_tokens h.keyed hkind
      rw [hkey] at hcases
      intro r hr
      rcases hcases with hsame | hnone | ⟨s, hnext⟩
      · exact h.allows r (hsame ▸ hr)
      · rw [hnone] at hr
        cases hr
      · rw [hnext] at hr
        cases hr
        exact Counter.RatePolicy.allowRequest_nextRecord _ _ _ _
    · intro r hr
      exact h.allows r ((c.confined_action.run_other h.keyed (Ne.symm hkey)) ▸ hr)

theorem Truthful.after (h : Truthful who store) (cs : List Call) :
    Truthful who (services.after store cs) :=
  Machine.after_keeps (fun c _ _ hs => hs.next c) h fun _ _ => trivial

/-! ### What a peek tells of an event -/

namespace RateLimit

/-- **A peek tells what an event would come to, but for the last token.** After any run of calls of
the guards, whoever tells the settings, take any checked rate limit in force. A peek and an event
at one instant are both answered. The event is let through exactly if the peek reports tokens, and
the two decide alike exactly if the peek reports anything but no token: where the last event took
the last token, a peek repeats that it was let through. -/
theorem peek_agrees_iff (cs : List Call) (s : RateLimitSettings) (who : Criteria) (now : Instant)
    (henabled : s.enabled = true) (hchecked : s.check = .ok ()) :
    let store := services.after {} cs
    ∃ peeked taken n, (store.run (peek s who now)).1.result = .ok peeked ∧
      (store.run (tryConsume s who now)).1.result = .ok taken ∧ peeked.tokensLeft = some n ∧
      (taken.allowed = true ↔ 0 < n) ∧ (peeked.allowed = taken.allowed ↔ n ≠ 0) := by
  intro store
  obtain ⟨hlimit, hperiod⟩ := RateLimitSettings.check_eq_ok_iff.mp hchecked henabled
  have hp : (policy s).WellConfigured := ⟨hlimit, s.timeUnit.span_pos hperiod⟩
  have hstore : Truthful who store := (truthful_empty who).after cs
  obtain ⟨n, htokens, hpeek, htake⟩ := Counter.RatePolicy.decide_allowed
    (p := s.policy) now hlimit hstore.allows
  refine ⟨_, _, n, congrArg (·.1.result) (run_peek henabled hp.not_misconfigured),
    congrArg (·.1.result) (run_tryConsume henabled hp hstore.keyed), htokens, ?_, ?_⟩
  · show (nextRecord (.rateLimit s.policy) _ _ _).allowRequest = true ↔ _
    rw [htake, decide_eq_true_iff]
  · calc _ ↔ decide (0 ≤ n) = decide (0 < n) := by rw [← hpeek, ← htake]; rfl
      _ ↔ (0 ≤ n ↔ 0 < n) := decide_eq_decide
      _ ↔ n ≠ 0 := by omega

/-- Of two tokens a minute one is gone. A peek reports the other, and an event takes it. -/
theorem peek_agrees_about_second_token :
    let s : RateLimitSettings := { enabled := true, limit := 2, timePeriod := 1 }
    let who : Criteria := { reference := .domain "acme", subject := "alice" }
    let store := services.after {}
      [⟨{ rateLimit := s : GuardSettings }.everywhere, .takeToken, who, .epoch⟩]
    s.check = .ok () ∧
      ∃ peeked taken, (store.run (peek s who (.ofMillis 30000))).1.result = .ok peeked ∧
        (store.run (tryConsume s who (.ofMillis 30000))).1.result = .ok taken ∧
        peeked.tokensLeft = some 1 ∧ taken.allowed = true ∧ peeked.allowed = taken.allowed := by
  intro s who store
  obtain ⟨peeked, taken, n, hpeeked, htaken, htokens, hallowed, hagree⟩ :=
    peek_agrees_iff [⟨{ rateLimit := s : GuardSettings }.everywhere, .takeToken, who, .epoch⟩]
      s who (.ofMillis 30000) rfl rfl
  have hone : (store.run (peek s who (.ofMillis 30000))).1.result.toOption.bind (·.tokensLeft) =
      some 1 := by decide +kernel
  rw [hpeeked] at hone
  have hn : n = 1 := Option.some_inj.mp (htokens.symm.trans hone)
  exact ⟨rfl, peeked, taken, hpeeked, htaken, hone, hallowed.mpr (by omega),
    hagree.mpr (by omega)⟩

/-- One token a minute, which the first event takes. A peek at the same instant allows, and
another event is refused. -/
theorem peek_allows_after_last_token :
    let s : RateLimitSettings := { enabled := true, limit := 1, timePeriod := 1 }
    let who : Criteria := { reference := .domain "acme", subject := "alice" }
    let store := services.after {}
      [⟨{ rateLimit := s : GuardSettings }.everywhere, .takeToken, who, .epoch⟩]
    s.enabled = true ∧ s.check = .ok () ∧
      (store.run (peek s who .epoch)).1.result.toOption.map (·.allowed) = some true ∧
      (store.run (tryConsume s who .epoch)).1.result.toOption.map (·.allowed) = some false :=
  ⟨rfl, rfl, by decide +kernel, by decide +kernel⟩

end RateLimit

end Guard

end Gatehouse
