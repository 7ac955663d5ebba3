import Gatehouse.Proofs.Counter.Coherence
import Gatehouse.Proofs.Counter.Login
import Gatehouse.Proofs.Guard.Decay
import Gatehouse.Proofs.Guard.Isolation
import Gatehouse.Proofs.Guard.Lockout
import Mathlib.Data.List.Induction

/-! Thresholds that change.

Whoever tells the settings is asked on every call, so each call may come with a threshold of its
own. A failure settles whether its counter lets the subject through, under the threshold of that
failure, and until the next one this stands (`Settled`): checks report it beside a threshold that
may be another by now. So what a failure allows is below the threshold it reports, and what a
check allows is below the one of the last failure (`allowed_below_threshold`). The report of a
lock looks for the one count that is the threshold, and a threshold that moves can pass it by:
`lock_told_iff` says when a lock is told and nothing else is. -/
namespace Gatehouse

/-! ### What a failure settles -/

namespace Counter.Policy
variable {p : Policy} (live : Option Record) (k : Key) (now : Instant)

/-- A failed login leaves an account locked that was, or that has reached the threshold. -/
theorem login_denies_iff (q : LoginPolicy) :
    ((login q).applyFailure live k now).allowRequest = false ↔
      (∃ r ∈ live, r.allowRequest = false) ∨
        q.maxAttempts ≤ ((login q).applyFailure live k now).attempts := by
  cases live with
  | none => by_cases hmax : q.maxAttempts ≤ countUp 0 <;> simp [applyFailure, Record.fresh, hmax]
  | some r =>
    cases hallow : r.allowRequest with
    | false => simp [applyFailure, hallow]
    | true =>
      by_cases hmax : q.maxAttempts ≤ countUp r.attempts <;> simp [applyFailure, hallow, hmax]

/-- A failed verification leaves a factor closed that has reached the threshold. -/
theorem verify_denies_iff (q : VerifyPolicy) :
    ((verify q).applyFailure live k now).allowRequest = false ↔
      q.maxAttempts ≤ ((verify q).applyFailure live k now).attempts := by
  simp [applyFailure]

/-- What a failure lets through is below the threshold. -/
theorem applyFailure_allows (hp : p.kind ≠ .rateLimit)
    (h : (p.applyFailure live k now).allowRequest = true) :
    (p.applyFailure live k now).attempts < p.maxAttempts := by
  by_contra hreached
  rw [Nat.not_lt] at hreached
  refine Bool.false_ne_true (Eq.trans (Eq.symm ?_) h)
  cases p with
  | login q => exact (login_denies_iff live k now q).mpr (.inr hreached)
  | verify q => exact (verify_denies_iff live k now q).mpr hreached
  | rateLimit q => exact absurd rfl hp

/-- What a failure does not let through has reached the threshold, or was not let through
before. -/
theorem applyFailure_denies (hp : p.kind ≠ .rateLimit)
    (h : (p.applyFailure live k now).allowRequest = false) :
    p.maxAttempts ≤ (p.applyFailure live k now).attempts ∨ ∃ r ∈ live, r.allowRequest = false := by
  cases p with
  | login q => exact ((login_denies_iff live k now q).mp h).symm
  | verify q => exact .inl ((verify_denies_iff live k now q).mp h)
  | rateLimit q => exact absurd rfl hp

theorem decide_maxAttempts (p : Policy) (live : Option Record) (now : Instant) :
    (p.decide live now).maxAttempts = p.maxAttempts := by
  cases live with
  | none => cases p <;> rfl
  | some r => rfl

theorem decide_none_attempts (p : Policy) (now : Instant) : (p.decide none now).attempts = 0 := by
  cases p <;> rfl

end Counter.Policy

/-- Where no tokens come back, what is live is what was found. -/
theorem Counter.Engine.stored_of_live {p : Counter.Policy} {stored : Option Counter.Record}
    {now : Instant} {r : Counter.Record}
    (hp : p.kind ≠ .rateLimit) (h : live p stored now = some r) : stored = some r := by
  obtain ⟨r₀, hstored, hlive⟩ := Option.bind_eq_some_iff.mp h
  rcases Counter.Policy.refresh_cases hlive with rfl | ⟨q, rfl, -⟩
  · exact hstored
  · exact absurd rfl hp

namespace Guard

open Counter (Decision Memory Policy Record)
open Counter.Engine (live nextRecord stored_of_live)

/-! ### Calls that decide and calls that count -/

/-- Whether an operation counts a failure. -/
def Operation.counts : Operation → Bool
  | countLogin | countVerification => true
  | _ => false

namespace Call

/-- What the provider tells a call. -/
def settings (c : Call) : GuardSettings := c.provider c.who.reference c.who.client

/-- The policy under which a call about logins or verifications decides, where one is in
force. -/
def policy? (c : Call) : Option Policy :=
  match c.operation with
  | .countLogin | .checkAccount =>
    if c.settings.login.enabled then some (Login.policy c.settings.login) else none
  | .countVerification | .checkVerification =>
    if c.settings.verify.enabled then some (Verify.policy c.settings.verify) else none
  | _ => none

/-- The threshold under which a call counts a failure, if it counts one. -/
def threshold? (c : Call) : Option Nat :=
  if c.operation.counts then c.policy?.map (·.maxAttempts) else none

/-- What a call that counts a failure reports when the threshold is reached. -/
def report (c : Call) (d : Decision) : Audit.Report :=
  match c.operation with
  | .countVerification => Verify.exhaustedReport c.who d
  | _ => Login.lockReport c.settings.login c.who d

end Call

/-- The threshold of the last failure that calls counted on a key. -/
def lastThreshold (k : Counter.Key) (cs : List Call) : Option Nat :=
  cs.foldl (fun last c => if c.key = k then c.threshold?.or last else last) none

theorem lastThreshold_concat (k : Counter.Key) (cs : List Call) (c : Call) :
    lastThreshold k (cs ++ [c]) =
      if c.key = k then c.threshold?.or (lastThreshold k cs) else lastThreshold k cs := by
  rw [lastThreshold, List.foldl_append]
  rfl

section Next
variable {c : Call} {p : Policy} {store : Memory}

theorem Call.kind_policy? (hp : c.policy? = some p) :
    p.kind = c.key.kind ∧ p.kind ≠ .rateLimit := by
  obtain ⟨provider, operation, who, now⟩ := c
  cases operation with
  | countLogin | checkAccount | countVerification | checkVerification =>
    obtain ⟨-, hpolicy⟩ := Option.ite_none_right_eq_some.mp hp
    cases hpolicy
    exact ⟨rfl, nofun⟩
  | _ => cases hp

theorem Call.configured_policy? (hp : c.policy? = some p) : p.isMisconfigured = false := by
  cases p with
  | login | verify => rfl
  | rateLimit => exact absurd rfl (kind_policy? hp).2

/-- The calls of the engine that a call with a policy comes to. -/
theorem Call.action_eq (hp : c.policy? = some p) :
    c.action = (Action.reporting
      (if c.operation.counts then Counter.Engine.recordFailure p c.key c.now
        else Counter.Engine.evaluate p c.key c.now) .ok
      fun d => if c.operation.counts && reachesThreshold d then [c.report d] else []).andThen
        fun d => .ok (some d) := by
  obtain ⟨provider, operation, who, now⟩ := c
  cases operation with
  | countLogin | checkAccount | countVerification | checkVerification =>
    obtain ⟨hs, hpolicy⟩ := Option.ite_none_right_eq_some.mp hp
    cases hpolicy
    simp only [settings] at hs
    simp only [action, Login.failed, Login.check, Verify.failed, Verify.check, hs, if_true]
    rfl
  | _ => cases hp

/-- A call that counts a failure decides on the record that it leaves. -/
theorem next_counted (hp : c.policy? = some p) (hcounts : c.operation.counts = true)
    (hstore : store.Keyed) :
    let r := nextRecord p c.key c.now (store.find? c.key)
    let d := p.decide (some r) c.now
    services.next c store =
      ((c.key, ⟨.ok (some d), if reachesThreshold d then [c.report d] else []⟩), store.put r) := by
  have hrun : store.run (Counter.Engine.recordFailure p c.key c.now) = _ :=
    Counter.Engine.run_recordFailure (Call.configured_policy? hp) hstore
  intro r d
  simp only [services, Call.action_eq hp, hcounts, if_true, Bool.true_and]
  rw [Action.run_andThen (Action.run_reporting hrun _ _)]

/-- A check decides on what is live, and leaves it. -/
theorem next_checked (hp : c.policy? = some p) (hcounts : c.operation.counts = false) :
    services.next c store =
      ((c.key, ⟨.ok (some (p.decide (live p (store.find? c.key) c.now) c.now)), []⟩), store) := by
  have hrun : store.run (Counter.Engine.evaluate p c.key c.now) = _ :=
    Counter.Engine.run_evaluate (Call.configured_policy? hp)
  simp only [services, Call.action_eq hp, hcounts, Bool.false_eq_true, if_false, Bool.false_and]
  rw [Action.run_andThen (Action.run_reporting hrun _ _)]

/-- A call that counts no failure leaves what is under its key, or nothing. -/
theorem next_uncounted (store : Memory) (hkind : c.key.kind ≠ .rateLimit)
    (h : c.threshold? = none) :
    (services.next c store).2.find? c.key = store.find? c.key ∨
      (services.next c store).2.find? c.key = none := by
  cases hpolicy : c.policy? with
  | some p =>
    have hcounts : c.operation.counts = false := by
      by_contra hcounts
      simp [Call.threshold?, hpolicy, hcounts] at h
    rw [next_checked hpolicy hcounts]
    exact .inl rfl
  | none =>
    obtain ⟨provider, operation, who, now⟩ := c
    cases operation with
    | countLogin | checkAccount | countVerification | checkVerification =>
      have hs := mt (ite_eq_right_iff.mp hpolicy) (Option.some_ne_none _)
      simp only [Call.settings] at hs
      simp only [services, Call.action, Login.failed, Login.check, Verify.failed, Verify.check, hs]
      exact .inl rfl
    | ensureUnlocked =>
      simp only [services, Call.action, Login.ensureUnlocked, Login.check]
      split <;> exact .inl rfl
    | passLogin =>
      simp only [services, Call.action, Login.succeeded]
      split
      · rw [Action.run_andThen (Login.run_clear who now store _ .successfulLogin)]
        exact .inr (Memory.find?_erase store _)
      · exact .inl rfl
    | unlockAccount =>
      simp only [services, Call.action, Login.unlock]
      rw [Action.run_andThen (Login.run_clear who now store _ .adminAction)]
      exact .inr (Memory.find?_erase store _)
    | _ => exact absurd rfl hkind

end Next

/-! ### What failures have settled -/

/-- What is known of a record that calls left under a key: it lets its subject through below the
threshold of the last failure, or some failure reached its own. -/
structure Settled (k : Counter.Key) (cs : List Call) (r : Record) : Prop where
  attempts_le : r.attempts ≤ Counter.maxAttempts
  allows : r.allowRequest = true → ∃ m ∈ lastThreshold k cs, r.attempts < m
  denies : r.allowRequest = false → ∃ c ∈ cs, c.key = k ∧ ∃ m ∈ c.threshold?, m ≤ r.attempts

section Run
variable {k : Counter.Key} {cs : List Call} {c : Call} {store : Memory}

/-- A call that counts no failure on the key leaves what is known of its record. -/
theorem Settled.concat {r : Record} (h : Settled k cs r)
    (hc : lastThreshold k (cs ++ [c]) = lastThreshold k cs) : Settled k (cs ++ [c]) r where
  attempts_le := h.attempts_le
  allows hallows := by
    rw [hc]
    exact h.allows hallows
  denies hdenies := by
    obtain ⟨c', hc', hreached⟩ := h.denies hdenies
    exact ⟨c', List.mem_append_left _ hc', hreached⟩

/-- A failure settles its counter under its own threshold. -/
theorem settled_nextRecord {p : Policy} (hp : c.policy? = some p)
    (hcounts : c.operation.counts = true) {stored : Option Record}
    (h : ∀ r ∈ stored, Settled c.key cs r) :
    Settled c.key (cs ++ [c]) (nextRecord p c.key c.now stored) := by
  have hkind := (Call.kind_policy? hp).2
  have hthreshold : c.threshold? = some p.maxAttempts := by
    rw [Call.threshold?, if_pos hcounts, hp]
    rfl
  refine ⟨?_, fun hallows => ?_, fun hdenies => ?_⟩
  · rw [nextRecord, Policy.applyFailure_attempts]
    exact Policy.countUp_le_maxAttempts _
  · refine ⟨p.maxAttempts, ?_, Policy.applyFailure_allows _ _ _ hkind hallows⟩
    rw [lastThreshold_concat, if_pos rfl, hthreshold]
    rfl
  · rcases Policy.applyFailure_denies _ _ _ hkind hdenies with hreached | ⟨r, hlive, hlocked⟩
    · exact ⟨c, List.mem_append_right _ (List.mem_singleton_self c), rfl, _, hthreshold, hreached⟩
    · -- The count goes on from that of a failure that reached its threshold.
      have hr := h r (stored_of_live hkind hlive)
      obtain ⟨c', hc', hkey, m, hm, hreached⟩ := hr.denies hlocked
      refine ⟨c', List.mem_append_left _ hc', hkey, m, hm, hreached.trans ?_⟩
      rw [nextRecord, Policy.applyFailure_attempts, hlive]
      exact Policy.le_countUp hr.attempts_le

/-- A call keeps what is known of the record under a key. -/
theorem settled_next (hkind : k.kind ≠ .rateLimit) (hstore : store.Keyed)
    (h : ∀ r ∈ store.find? k, Settled k cs r) :
    ∀ r ∈ (services.next c store).2.find? k, Settled k (cs ++ [c]) r := by
  by_cases hc : c.key = k
  · subst hc
    cases hthreshold : c.threshold? with
    | none =>
      have hsame : lastThreshold c.key (cs ++ [c]) = lastThreshold c.key cs := by
        rw [lastThreshold_concat, if_pos rfl, hthreshold]
        rfl
      intro r hr
      rcases next_uncounted store hkind hthreshold with hleft | hleft
      · rw [hleft] at hr
        exact (h r hr).concat hsame
      · rw [hleft] at hr
        cases hr
    | some m =>
      obtain ⟨hcounts, hm⟩ := Option.ite_none_right_eq_some.mp hthreshold
      obtain ⟨p, hp, -⟩ := Option.map_eq_some_iff.mp hm
      rw [next_counted hp hcounts hstore, Counter.Engine.find?_put_nextRecord hstore]
      intro r hr
      cases hr
      exact settled_nextRecord hp hcounts h
  · have hsame : lastThreshold k (cs ++ [c]) = lastThreshold k cs := by
      rw [lastThreshold_concat, if_neg hc]
    have hother := c.confined_action.run_other hstore (Ne.symm hc)
    intro r hr
    exact (h r (hother ▸ hr)).concat hsame

/-- What is known of the record that a run leaves under a key. -/
theorem settled_after (hkind : k.kind ≠ .rateLimit) (cs : List Call) :
    (services.after {} cs).Keyed ∧ ∀ r ∈ (services.after {} cs).find? k, Settled k cs r := by
  induction cs using List.reverseRecOn with
  | nil => exact ⟨Memory.keyed_empty, fun r hr => by cases hr⟩
  | append_singleton cs c ih =>
    obtain ⟨hkeyed, hsettled⟩ := ih
    rw [Machine.after_append]
    exact ⟨hkeyed.run _, settled_next hkind hkeyed hsettled⟩

end Run

/-! ### Allowed below the threshold -/

/-- **What is allowed is below a threshold.** Take any run of calls of the guards, whoever tells the
settings, and any call in it that decides about logins or verifications. It ends with a decision.
If that is to allow, then the attempts are fewer than the threshold it reports; or the call is a
check, the attempts are no fewer than that threshold, but fewer than the one under which the last
failure was counted. -/
theorem allowed_below_threshold (cs : List Call) (i : Nat) (c : Call) (p : Policy)
    (hc : cs[i]? = some c) (hp : c.policy? = some p) (hmax : 1 ≤ p.maxAttempts) :
    ∃ d reports, (services.answers {} cs)[i]? = some (c.key, ⟨.ok (some d), reports⟩) ∧
      d.maxAttempts = p.maxAttempts ∧
      (d.allowed = true → d.attempts < d.maxAttempts ∨
        c.operation.counts = false ∧ d.maxAttempts ≤ d.attempts ∧
          ∃ m ∈ lastThreshold c.key (cs.take i), d.attempts < m) := by
  obtain ⟨hsame, hkind⟩ := Call.kind_policy? hp
  obtain ⟨hkeyed, hsettled⟩ := settled_after (hsame ▸ hkind) (cs.take i)
  rw [Machine.answers_getElem? _ _ hc]
  cases hcounts : c.operation.counts with
  | true =>
    rw [next_counted hp hcounts hkeyed]
    refine ⟨_, _, rfl, rfl, fun hallowed => .inl ?_⟩
    exact Policy.applyFailure_allows _ _ _ hkind hallowed
  | false =>
    rw [next_checked hp hcounts]
    refine ⟨_, _, rfl, Policy.decide_maxAttempts _ _ _, fun hallowed => ?_⟩
    rw [Policy.decide_maxAttempts]
    cases hlive : live p ((services.after {} (cs.take i)).find? c.key) c.now with
    | none =>
      rw [Policy.decide_none_attempts]
      exact .inl hmax
    | some r =>
      rw [hlive] at hallowed
      have hbelow := (hsettled r (stored_of_live hkind hlive)).allows hallowed
      exact (Nat.lt_or_ge r.attempts p.maxAttempts).imp_right fun hreached =>
        ⟨rfl, hreached, hbelow⟩

/-- Two failed logins under a threshold of three: a check under a threshold of one allows. -/
theorem allowed_below_threshold_of_three :
    let under (n : Nat) : SettingsProvider :=
      ({ login := { maxAttempts := n } } : GuardSettings).everywhere
    let alice : Criteria := { reference := .domain "acme", subject := "alice" }
    let call (n : Nat) (o : Operation) : Call := ⟨under n, o, alice, .ofMillis 0⟩
    let k : Counter.Key := ⟨.login, alice⟩
    let cs := [call 3 .countLogin, call 3 .countLogin, call 1 .checkAccount]
    ∃ d reports, (services.answers {} cs)[2]? = some (k, ⟨.ok (some d), reports⟩) ∧
      d.maxAttempts = 1 ∧ d.allowed = true ∧ d.attempts = 2 ∧
      ∃ m ∈ lastThreshold k (cs.take 2), d.attempts < m := by
  intro under alice call k cs
  obtain ⟨d, reports, hanswer, hmax, hbelow⟩ := allowed_below_threshold cs 2 (call 1 .checkAccount)
    (Login.policy { maxAttempts := 1 }) rfl rfl (by decide)
  have hseen : ((services.answers {} cs)[2]?).map (fun a => a.2.result.toOption.join.map
      fun d => (d.allowed, d.attempts)) = some (some (true, 2)) := by decide +kernel
  rw [hanswer] at hseen
  obtain ⟨hallowed, hattempts⟩ : d.allowed = true ∧ d.attempts = 2 := by
    simpa [Except.toOption] using hseen
  have hlimit : d.maxAttempts = 1 := hmax
  rcases hbelow hallowed with hlt | ⟨-, -, hlast⟩
  · omega
  · exact ⟨d, reports, hanswer, hlimit, hallowed, hattempts, hlast⟩

/-- What a failure allowed under a threshold of three is still allowed when the threshold has become
one: the decision reports as many attempts as it may. -/
theorem allowed_at_lowered_threshold :
    let under (n : Nat) : SettingsProvider :=
      ({ verify := { maxAttempts := n } } : GuardSettings).everywhere
    let alice : Criteria := { reference := .domain "acme", subject := "alice" }
    let call (n : Nat) (o : Operation) : Call := ⟨under n, o, alice, .ofMillis 0⟩
    let cs := [call 3 .countVerification, call 1 .checkVerification]
    (services.answers {} cs).map (fun a => a.2.result.toOption.join.map
        fun d => (d.allowed, d.attempts, d.maxAttempts)) =
      [some (true, 1, 3), some (true, 1, 1)] := by
  decide +kernel

/-! ### Locks and what is told of them -/

/-- An account is locked at an instant by what is stored of it. -/
def Locked (stored : Option Record) (now : Instant) : Prop :=
  ∃ r ∈ stored, now < r.expireAt ∧ r.allowRequest = false

instance (stored : Option Record) (now : Instant) : Decidable (Locked stored now) :=
  inferInstanceAs (Decidable (∃ r ∈ stored, _))

/-- A call locks an account that is not locked. -/
def Locks (c : Call) (store : Memory) : Prop :=
  ¬ Locked (store.find? c.key) c.now ∧ Locked ((services.next c store).2.find? c.key) c.now

instance (c : Call) (store : Memory) : Decidable (Locks c store) :=
  inferInstanceAs (Decidable (_ ∧ _))

/-- Reports tell of a lock. -/
def TellLock (reports : List Audit.Report) : Prop := ∃ r ∈ reports, r.kind = .accountLocked

instance (reports : List Audit.Report) : Decidable (TellLock reports) :=
  inferInstanceAs (Decidable (∃ r ∈ reports, _))

theorem Login.kind_policy (s : LoginSettings) : (Login.policy s).kind ≠ .rateLimit :=
  fun h => by cases h

section Lock
variable {c : Call} {store : Memory} {stored : Option Record} {now : Instant}

theorem locked_iff (s : LoginSettings) :
    Locked stored now ↔ ∃ r ∈ live (Login.policy s) stored now, r.allowRequest = false := by
  constructor
  · rintro ⟨r, rfl, hlasts, hlocked⟩
    exact ⟨r, (Counter.LoginPolicy.live_some _ _ r).trans (if_pos hlasts), hlocked⟩
  · rintro ⟨r, hlive, hlocked⟩
    obtain ⟨hstored, hlasts⟩ := Counter.LoginPolicy.live_eq_some _ _ hlive
    exact ⟨r, hstored, hlasts, hlocked⟩

/-- A failed login leaves a lock where one was, or where the threshold is reached. -/
theorem denies_nextRecord_iff (s : LoginSettings) (k : Counter.Key) (now : Instant)
    (stored : Option Record) :
    (nextRecord (Login.policy s) k now stored).allowRequest = false ↔
      Locked stored now ∨
        s.maxAttempts ≤ (nextRecord (Login.policy s) k now stored).attempts := by
  rw [locked_iff s]
  exact Policy.login_denies_iff _ _ _ _

/-- A lock that a failed login begins lasts, unless the calendar ends. -/
theorem lasts_nextRecord_iff {s : LoginSettings} (hlockout : 0 < s.accountBlockedDurationSecs)
    (hnow : now ≤ .latest) (k : Counter.Key) (hopen : ¬ Locked stored now)
    (hlocked : (nextRecord (Login.policy s) k now stored).allowRequest = false) :
    now < (nextRecord (Login.policy s) k now stored).expireAt ↔ now ≠ .latest := by
  rcases Counter.LoginPolicy.nextRecord_cases s.policy k now stored with
    ⟨r₀, hlive, hlocked₀, -, -⟩ | ⟨-, -, hexpire⟩ | ⟨-, hallows, -⟩
  · exact absurd ((locked_iff s).mpr ⟨r₀, hlive, hlocked₀⟩) hopen
  · rw [show (nextRecord (Login.policy s) k now stored).expireAt = _ from hexpire]
    constructor
    · rintro hlasts rfl
      exact absurd hlasts (not_lt.mpr (Instant.after_le_latest (le_refl _) _))
    · intro hne
      exact Instant.lt_after (lt_of_le_of_ne hnow hne) (Duration.ofSetting_pos hlockout)
  · exact absurd (hallows.symm.trans hlocked) (by decide)

theorem Call.policy?_countLogin (hop : c.operation = .countLogin)
    (hs : c.settings.login.enabled = true) : c.policy? = some (Login.policy c.settings.login) := by
  rw [Call.policy?, hop]
  exact if_pos hs

/-- A failed login decides on the record that it leaves, and reports a lock where the count is the
threshold. -/
theorem next_countLogin (hop : c.operation = .countLogin) (hs : c.settings.login.enabled = true)
    (hstore : store.Keyed) :
    let r := nextRecord (Login.policy c.settings.login) c.key c.now (store.find? c.key)
    let d := (Login.policy c.settings.login).decide (some r) c.now
    services.next c store =
      ((c.key, ⟨.ok (some d), if reachesThreshold d then [Login.lockReport c.settings.login c.who d]
        else []⟩), store.put r) := by
  have hcounts : c.operation.counts = true := by
    rw [hop]
    rfl
  have hreport (d : Decision) : c.report d = Login.lockReport c.settings.login c.who d := by
    rw [Call.report, hop]
  simpa only [hreport] using next_counted (Call.policy?_countLogin hop hs) hcounts hstore

/-- A failed login locks an account that is open by reaching the threshold or passing it, unless
the calendar ends. -/
theorem locks_iff (hop : c.operation = .countLogin) (hs : c.settings.login.enabled = true)
    (hstore : store.Keyed)
    (hlockout : 0 < c.settings.login.accountBlockedDurationSecs) (hnow : c.now ≤ .latest) :
    Locks c store ↔ ¬ (Locked (store.find? c.key) c.now ∨ c.now = .latest) ∧
      c.settings.login.maxAttempts ≤
        (nextRecord (Login.policy c.settings.login) c.key c.now (store.find? c.key)).attempts := by
  rw [Locks, next_countLogin hop hs hstore, Counter.Engine.find?_put_nextRecord hstore]
  have hdenies := denies_nextRecord_iff c.settings.login c.key c.now (store.find? c.key)
  constructor
  · rintro ⟨hopen, r, hr, hlasts, hlocked⟩
    cases hr
    have hne := (lasts_nextRecord_iff hlockout hnow c.key hopen hlocked).mp hlasts
    exact ⟨not_or.mpr ⟨hopen, hne⟩, (hdenies.mp hlocked).resolve_left hopen⟩
  · rintro ⟨hfree, hreached⟩
    obtain ⟨hopen, hne⟩ := not_or.mp hfree
    have hlocked := hdenies.mpr (.inr hreached)
    exact ⟨hopen, _, rfl, (lasts_nextRecord_iff hlockout hnow c.key hopen hlocked).mpr hne, hlocked⟩

/-- A failed login tells of a lock just if its count is the threshold. -/
theorem tellLock_iff (hop : c.operation = .countLogin) (hs : c.settings.login.enabled = true)
    (hstore : store.Keyed) :
    TellLock (services.next c store).1.2.reports ↔
      (nextRecord (Login.policy c.settings.login) c.key c.now (store.find? c.key)).attempts =
        c.settings.login.maxAttempts := by
  have hdenies := denies_nextRecord_iff c.settings.login c.key c.now (store.find? c.key)
  rw [next_countLogin hop hs hstore]
  generalize nextRecord (Login.policy c.settings.login) c.key c.now (store.find? c.key) = r
    at hdenies ⊢
  have hreaches : reachesThreshold ((Login.policy c.settings.login).decide (some r) c.now) =
      (!r.allowRequest && r.attempts == c.settings.login.maxAttempts) := rfl
  rw [hreaches]
  constructor
  · rintro ⟨report, hmem, -⟩
    split at hmem
    · next hboth => exact eq_of_beq (Bool.and_eq_true_iff.mp hboth).2
    · cases hmem
  · intro hreached
    have hlocked := hdenies.mpr (.inr (Nat.le_of_eq hreached.symm))
    rw [hlocked, hreached, beq_self_eq_true]
    exact ⟨_, List.mem_singleton_self _, rfl⟩

/-- One failed login tells of a lock just where it locks, if its count does not pass the threshold;
or, where it cannot lock, if its count is not the threshold. -/
theorem tellLock_iff_locks_iff (hop : c.operation = .countLogin)
    (hs : c.settings.login.enabled = true) (hstore : store.Keyed)
    (hlockout : 0 < c.settings.login.accountBlockedDurationSecs) (hnow : c.now ≤ .latest) :
    let r := nextRecord (Login.policy c.settings.login) c.key c.now (store.find? c.key)
    (TellLock (services.next c store).1.2.reports ↔ Locks c store) ↔
      if Locked (store.find? c.key) c.now ∨ c.now = .latest then
        r.attempts ≠ c.settings.login.maxAttempts
      else r.attempts ≤ c.settings.login.maxAttempts := by
  rw [tellLock_iff hop hs hstore, locks_iff hop hs hstore hlockout hnow]
  split
  · next hover => simp only [hover, not_true_eq_false, false_and, iff_false, ne_eq]
  · next hfree =>
    rw [and_iff_right hfree]
    omega

/-- A count that goes past the threshold in one step was allowed below a higher one. -/
theorem lowered_of_passed {k : Counter.Key} {cs : List Call} (s : LoginSettings) (now : Instant)
    (hsettled : ∀ r ∈ stored, Settled k cs r) (hopen : ¬ Locked stored now)
    (hmax : 1 ≤ s.maxAttempts)
    (hpassed : s.maxAttempts < (nextRecord (Login.policy s) k now stored).attempts) :
    ∃ m ∈ lastThreshold k cs, s.maxAttempts < m := by
  rw [nextRecord, Policy.applyFailure_attempts] at hpassed
  cases hlive : live (Login.policy s) stored now with
  | none =>
    rw [hlive] at hpassed
    exact absurd (Nat.lt_of_lt_of_le hpassed (Policy.countUp_le 0)) (Nat.not_lt.mpr hmax)
  | some r =>
    rw [hlive] at hpassed
    have hallows : r.allowRequest = true := by
      by_contra hdenied
      exact hopen ((locked_iff s).mpr ⟨r, hlive, Bool.eq_false_iff.mpr hdenied⟩)
    have hstored := stored_of_live (Login.kind_policy s) hlive
    obtain ⟨m, hm, hbelow⟩ := (hsettled r hstored).allows hallows
    have hstep : Policy.countUp r.attempts ≤ r.attempts + 1 := Policy.countUp_le _
    exact ⟨m, hm, Nat.lt_of_lt_of_le hpassed (hstep.trans hbelow)⟩

/-- A count that reaches the threshold under a lock was denied at a lower one. -/
theorem raised_of_locked {k : Counter.Key} {cs : List Call} (s : LoginSettings) (now : Instant)
    (hsettled : ∀ r ∈ stored, Settled k cs r) (hlocked : Locked stored now)
    (hreached : (nextRecord (Login.policy s) k now stored).attempts = s.maxAttempts)
    (hlast : s.maxAttempts < Counter.maxAttempts) :
    ∃ c ∈ cs, c.key = k ∧ ∃ m ∈ c.threshold?, m < s.maxAttempts := by
  obtain ⟨r, hlive, hdenied⟩ := (locked_iff s).mp hlocked
  have hstored := stored_of_live (Login.kind_policy s) hlive
  obtain ⟨c, hc, hkey, m, hm, hbelow⟩ := (hsettled r hstored).denies hdenied
  rw [nextRecord, Policy.applyFailure_attempts, hlive] at hreached
  change Policy.countUp r.attempts = _ at hreached
  refine ⟨c, hc, hkey, m, hm, ?_⟩
  rw [Policy.countUp] at hreached
  omega

end Lock

/-- **When a lock is told.** Take any run of calls of the guards, whoever tells the settings, and
any failed login in it that is counted. It ends with a decision. Where the account is open, it tells of
a lock just if it locks, as long as its count does not pass the threshold; where the account is
locked, or the calendar ends, as long as its count is not the threshold. So a lock goes untold only
if the threshold is lower than under the last failure, and one is told of that is none only if the
threshold is higher than under some failure before, or the calendar or the counting ends. Under one
threshold all along, what is told is what happens. -/
theorem lock_told_iff (cs : List Call) (i : Nat) (c : Call) (hc : cs[i]? = some c)
    (hop : c.operation = .countLogin) (hs : c.settings.login.enabled = true)
    (hmax : 1 ≤ c.settings.login.maxAttempts)
    (hlockout : 0 < c.settings.login.accountBlockedDurationSecs) (hnow : c.now ≤ .latest) :
    let store := services.after {} (cs.take i)
    ∃ d reports, (services.answers {} cs)[i]? = some (c.key, ⟨.ok (some d), reports⟩) ∧
      d.maxAttempts = c.settings.login.maxAttempts ∧
      ((TellLock reports ↔ Locks c store) ↔
        if Locked (store.find? c.key) c.now ∨ c.now = .latest then d.attempts ≠ d.maxAttempts
        else d.attempts ≤ d.maxAttempts) ∧
      (Locks c store → ¬ TellLock reports →
        ∃ m ∈ lastThreshold c.key (cs.take i), d.maxAttempts < m) ∧
      (TellLock reports → ¬ Locks c store → c.now ≠ .latest → d.maxAttempts < Counter.maxAttempts →
        ∃ c' ∈ cs.take i, c'.key = c.key ∧ ∃ m ∈ c'.threshold?, m < d.maxAttempts) := by
  dsimp only
  obtain ⟨hsame, hkind⟩ := Call.kind_policy? (Call.policy?_countLogin hop hs)
  obtain ⟨hkeyed, hsettled⟩ := settled_after (hsame ▸ hkind) (cs.take i)
  have hlocks := locks_iff hop hs hkeyed hlockout hnow
  have htell := tellLock_iff hop hs hkeyed
  have hlowered := lowered_of_passed c.settings.login c.now hsettled
  have hraised := raised_of_locked c.settings.login c.now hsettled
  have hstep := tellLock_iff_locks_iff hop hs hkeyed hlockout hnow
  rw [next_countLogin hop hs hkeyed] at htell hstep
  rw [Machine.answers_getElem? _ _ hc, next_countLogin hop hs hkeyed]
  refine ⟨_, _, rfl, rfl, ?_, ?_, ?_⟩
  · exact hstep
  · intro hlock huntold
    obtain ⟨hfree, hreached⟩ := hlocks.mp hlock
    have hpassed := lt_of_le_of_ne hreached fun heq => huntold (htell.mpr heq.symm)
    exact hlowered (not_or.mp hfree).1 hmax hpassed
  · intro htold hlock hne hlast
    have hreached := htell.mp htold
    have hlocked : Locked ((services.after {} (cs.take i)).find? c.key) c.now := by
      by_contra hopen
      exact hlock (hlocks.mpr ⟨not_or.mpr ⟨hopen, hne⟩, Nat.le_of_eq hreached.symm⟩)
    exact hraised hlocked hreached hlast

/-- A failure under a lock is told as one that locks when the threshold was raised to its count. -/
theorem lock_told_again_under_raised_threshold :
    let under (n : Nat) : SettingsProvider :=
      ({ login := { maxAttempts := n } } : GuardSettings).everywhere
    let alice : Criteria := { reference := .domain "acme", subject := "alice" }
    let call (n : Nat) : Call := ⟨under n, .countLogin, alice, .ofMillis 0⟩
    let cs := [call 1, call 2]
    ∃ d reports, (services.answers {} cs)[1]? = some ((call 2).key, ⟨.ok (some d), reports⟩) ∧
      TellLock reports ∧ ¬ Locks (call 2) (services.after {} [call 1]) ∧
      ∃ c ∈ [call 1], c.key = (call 2).key ∧ ∃ m ∈ c.threshold?, m < d.maxAttempts := by
  intro under alice call cs
  obtain ⟨d, reports, hanswer, hmax, -, -, hraised⟩ := lock_told_iff cs 1 (call 2) rfl rfl rfl
    (by decide) (by decide) (by decide)
  have hseen : ((services.answers {} cs)[1]?).map (fun a => decide (TellLock a.2.reports)) =
    some true := by decide +kernel
  have hlock : ¬ Locks (call 2) (services.after {} [call 1]) := by decide +kernel
  rw [hanswer] at hseen
  have htold : TellLock reports := by simpa using hseen
  exact ⟨d, reports, hanswer, htold, hlock,
    hraised htold hlock (by decide) (by rw [hmax]; decide)⟩

/-- A failure locks an account and is not told when the threshold was lowered below its count. -/
theorem locked_untold_under_lowered_threshold :
    let under (n : Nat) : SettingsProvider :=
      ({ login := { maxAttempts := n } } : GuardSettings).everywhere
    let alice : Criteria := { reference := .domain "acme", subject := "alice" }
    let call (n : Nat) : Call := ⟨under n, .countLogin, alice, .ofMillis 0⟩
    let store := services.after {} [call 5, call 5, call 5]
    Locks (call 2) store ∧ ¬ TellLock (services.next (call 2) store).1.2.reports := by
  decide +kernel

end Guard

end Gatehouse
