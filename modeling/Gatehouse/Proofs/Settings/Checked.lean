import Gatehouse.Guard.Login
import Gatehouse.Guard.RateLimit
import Gatehouse.Guard.Verify
import Gatehouse.Proofs.Counter.Coherence
import Gatehouse.Proofs.Counter.Lasting
import Gatehouse.Proofs.Table
import Gatehouse.Settings.Config

/-! What a configuration without defects is good for.

A check passes where every part of it does, so that whatever settings hold for an owner and
a client, be they the defaults, a domain's or an application's, have passed the check of
their own (`Config.check_settingsFor`). Checked settings stand for policies that make sense
(`GuardSettings.sound_of_check`): every number that must be positive is, and so is every span
that it stands for, however large. -/
namespace Gatehouse

namespace Settings

/-! ### Checks, part by part -/

section Parts
variable {a b : Check} {condition : Bool} {d : Defect}

theorem require_eq_ok_iff : require condition d = .ok () ↔ condition = true := by
  cases condition <;> simp [require]

theorem bind_eq_ok_iff : (a >>= fun _ => b) = .ok () ↔ a = .ok () ∧ b = .ok () := by
  cases a with
  | error e => simp [bind, Except.bind]
  | ok u => simp [bind, Except.bind]

theorem mapError_eq_ok_iff (f : Defect → Defect) : a.mapError f = .ok () ↔ a = .ok () := by
  cases a <;> simp [Except.mapError]

/-- A check of every member of a list. -/
theorem forM_eq_ok_iff {α : Type} {l : List α} {f : α → Check} :
    l.forM f = .ok () ↔ ∀ x ∈ l, f x = .ok () := by
  induction l with
  | nil => simp [List.forM, pure, Except.pure]
  | cons x rest ih =>
    show (f x >>= fun _ => rest.forM f) = .ok () ↔ _
    rw [bind_eq_ok_iff, ih, List.forall_mem_cons]

end Parts

end Settings

open Settings

theorem LoginSettings.check_eq_ok_iff {s : LoginSettings} : s.check = .ok () ↔
    0 < s.maxAttempts ∧ 0 < s.accountBlockedDurationSecs ∧ 0 < s.attemptsResetTimeSecs := by
  simp only [check, bind_eq_ok_iff, require_eq_ok_iff, decide_eq_true_eq]

theorem VerifySettings.check_eq_ok_iff {s : VerifySettings} :
    s.check = .ok () ↔ 0 < s.maxAttempts ∧ 0 < s.resetTimeSecs := by
  simp only [check, bind_eq_ok_iff, require_eq_ok_iff, decide_eq_true_eq]

theorem RateLimitSettings.check_eq_ok_iff {s : RateLimitSettings} :
    s.check = .ok () ↔ (s.enabled = true → 0 < s.limit ∧ 0 < s.timePeriod) := by
  cases henabled : s.enabled with
  | false => simp [check, henabled, pure, Except.pure]
  | true => simp [check, henabled, bind_eq_ok_iff, require_eq_ok_iff]

theorem PasswordHistorySettings.check_eq_ok_iff {s : PasswordHistorySettings} :
    s.check = .ok () ↔ (s.enabled = true → 0 < s.oldPasswords) := by
  cases henabled : s.enabled <;> simp [check, henabled, require_eq_ok_iff]

theorem ConsistencySettings.check_eq_ok_iff {s : ConsistencySettings} :
    s.check = .ok () ↔ 0 < s.contextTtlSecs := by
  simp only [check, require_eq_ok_iff, decide_eq_true_eq]

theorem GuardSettings.check_eq_ok_iff {s : GuardSettings} : s.check = .ok () ↔
    s.login.check = .ok () ∧ s.verify.check = .ok () ∧ s.rateLimit.check = .ok () ∧
      s.passwordHistory.check = .ok () ∧ s.consistency.check = .ok () := by
  simp only [check, bind_eq_ok_iff, mapError_eq_ok_iff]

/-! ### A checked configuration -/

namespace Config

theorem checkDomain_eq_ok_iff {id : String} {domain : DomainConfig} :
    checkDomain id domain = .ok () ↔
      domain.settings.check = .ok () ∧ ∀ e ∈ domain.applications.toList, e.2.check = .ok () := by
  simp only [checkDomain, bind_eq_ok_iff, mapError_eq_ok_iff, forM_eq_ok_iff]

variable {c : Config}

/-- All sections of settings in a checked configuration are checked. -/
theorem sections_of_check (h : c.check = .ok ()) : c.defaults.check = .ok () ∧
    ∀ e ∈ c.domains.toList, e.2.settings.check = .ok () ∧
      ∀ a ∈ e.2.applications.toList, a.2.check = .ok () := by
  simp only [check, bind_eq_ok_iff, mapError_eq_ok_iff, forM_eq_ok_iff, checkDomain_eq_ok_iff] at h
  exact ⟨h.1, h.2.1⟩

/-- Whatever settings hold for an owner and a client are checked. -/
theorem check_settingsFor (h : c.check = .ok ()) (reference : Reference) (client : Option String) :
    (c.settingsFor reference client).check = .ok () := by
  obtain ⟨hdefaults, hdomains⟩ := sections_of_check h
  rw [settingsFor]
  cases hdomain : c.domains.find? reference.id with
  | none => exact hdefaults
  | some domain =>
    obtain ⟨hsettings, happlications⟩ := hdomains _ (Table.mem_of_find? hdomain)
    show ((client.bind domain.applications.find?).getD domain.settings).check = .ok ()
    cases hclient : client.bind domain.applications.find? with
    | none => exact hsettings
    | some settings =>
      obtain ⟨name, -, hfound⟩ := Option.bind_eq_some_iff.mp hclient
      exact happlications _ (Table.mem_of_find? hfound)

end Config

/-! ### The policies of checked settings -/

/-- A positive number of units is a positive span, however many they are. -/
theorem TimeUnit.span_pos (u : TimeUnit) {amount : Int} (h : 0 < amount) :
    0 < (u.span amount).nanos := by
  have hproduct := Int.mul_pos h u.length_pos
  obtain ⟨n, hn⟩ := Int.eq_ofNat_of_zero_le (Int.le_of_lt hproduct)
  rw [span_eq_clamp, ← Duration.seconds_eq_clamp, hn]
  exact Duration.seconds_pos (by omega)

namespace GuardSettings

/-- The policy of each kind of counter. -/
def policy (s : GuardSettings) : Counter.Kind → Counter.Policy
  | .login => Guard.Login.policy s.login
  | .verify => Guard.Verify.policy s.verify
  | .rateLimit => Guard.RateLimit.policy s.rateLimit

/-- Whether the policy of a kind of counter may be consulted: a rate limit only where it is in
force. -/
def InForce (s : GuardSettings) (kind : Counter.Kind) : Prop :=
  kind = .rateLimit → s.rateLimit.enabled = true

instance (s : GuardSettings) (kind : Counter.Kind) : Decidable (s.InForce kind) :=
  inferInstanceAs (Decidable (_ → _))

/-- Settings without defects, and what they stand for. -/
structure Sound (s : GuardSettings) : Prop where
  checked : s.check = .ok ()
  login : 1 ≤ s.login.policy.maxAttempts ∧ 0 < s.login.policy.lockout.nanos ∧
    0 < s.login.policy.reset.nanos
  verify : 1 ≤ s.verify.policy.maxAttempts ∧ 0 < s.verify.policy.reset.nanos
  rateLimit : s.rateLimit.enabled = true → s.rateLimit.policy.isMisconfigured = false ∧
    0 < s.rateLimit.policy.limit ∧ 0 < s.rateLimit.policy.window.nanos
  passwordHistory : s.passwordHistory.enabled = true → 1 ≤ s.passwordHistory.oldPasswords
  contextTtl : 0 < s.consistency.contextTtl.nanos

variable {s : GuardSettings}

theorem sound_of_check (h : s.check = .ok ()) : s.Sound := by
  obtain ⟨hlogin, hverify, hrate, hhistory, hconsistency⟩ := check_eq_ok_iff.mp h
  obtain ⟨hlogins, hblocked, hreset⟩ := LoginSettings.check_eq_ok_iff.mp hlogin
  obtain ⟨hverifications, hdecay⟩ := VerifySettings.check_eq_ok_iff.mp hverify
  refine ⟨h, ⟨hlogins, Duration.ofSetting_pos hblocked, Duration.ofSetting_pos hreset⟩,
    ⟨hverifications, Duration.ofSetting_pos hdecay⟩, fun henabled => ?_,
    PasswordHistorySettings.check_eq_ok_iff.mp hhistory,
    Duration.ofSetting_pos (ConsistencySettings.check_eq_ok_iff.mp hconsistency)⟩
  obtain ⟨hlimit, hperiod⟩ := RateLimitSettings.check_eq_ok_iff.mp hrate henabled
  have hwindow : 0 < s.rateLimit.policy.window.nanos := s.rateLimit.timeUnit.span_pos hperiod
  have hp : (Counter.Policy.rateLimit s.rateLimit.policy).WellConfigured := ⟨hlimit, hwindow⟩
  exact ⟨hp.not_misconfigured, hlimit, hwindow⟩

/-- The policies that may be consulted make sense. -/
theorem Sound.wellConfigured (h : s.Sound) {kind : Counter.Kind} (hforce : s.InForce kind) :
    (s.policy kind).WellConfigured := by
  cases kind with
  | login => exact h.login.2
  | verify => exact h.verify.2
  | rateLimit => exact (h.rateLimit (hforce rfl)).2

end GuardSettings

namespace Config
open Counter (Key)
open Counter.Engine (Event counters Decides)

/-- The settings that hold for a counter. -/
def settingsOf (c : Config) (k : Key) : GuardSettings :=
  c.settingsFor k.criteria.reference k.criteria.client

/-- The policy that holds for a counter. -/
def policyOf (c : Config) (k : Key) : Counter.Policy := (c.settingsOf k).policy k.kind

/-- An event that the policy of its counter covers: a rate limit is in force, and the instant
lies before the end of the calendar, and outside leap seconds where tokens come back one by
one. -/
structure Covers (c : Config) (e : Key × Event × Instant) : Prop where
  inForce : (c.settingsOf e.1).InForce e.1.kind
  serves : (c.policyOf e.1).Serves e.2.2

/-- **A checked configuration stands for policies that make sense.** Whatever settings hold
for an owner and a client, they have no defect, and their policies allow something and are
measured in positive spans. So whatever has happened to the counters of a store, the engine
neither refuses because a policy makes no sense, nor writes a record that is over at once. -/
theorem checked_policies_sound (c : Config) (hc : c.check = .ok ()) :
    (∀ reference client, (c.settingsFor reference client).Sound) ∧
      ∀ (es : List (Key × Event × Instant)) (e : Key × Event × Instant), (∀ x ∈ es, c.Covers x) →
        c.Covers e → Decides (c.policyOf e.1) e.2
          ((counters c.policyOf).next e ((counters c.policyOf).after {} es)).1 := by
  have hsound : ∀ reference client, (c.settingsFor reference client).Sound := fun _ _ =>
    GuardSettings.sound_of_check (check_settingsFor hc _ _)
  refine ⟨hsound, fun es e hes he => ?_⟩
  have hsensible : ∀ x, c.Covers x → Counter.Engine.Sensible c.policyOf x := fun x hx =>
    ⟨(hsound _ _).wellConfigured hx.inForce, hx.serves⟩
  exact Counter.Engine.decides_after (fun x hx => hsensible x (hes x hx)) (hsensible e he)

/-- A client of a domain has three tries to log in, and has failed twice. -/
theorem checked_policies_sound_for_a_client :
    let c : Config :=
      { domains := .ofList [("acme",
          { applications := .ofList [("web", { login := { maxAttempts := 3 } })] })] }
    let k : Key :=
      ⟨.login, { reference := .domain "acme", client := some "web", subject := "alice" }⟩
    let es : List (Key × Event × Instant) :=
      [(k, .failed, .ofMillis 0), (k, .failed, .ofMillis 1000)]
    let e : Key × Event × Instant := (k, .failed, .ofMillis 2000)
    (c.check = .ok () ∧ (∀ x ∈ es, c.Covers x) ∧ c.Covers e) ∧
      c.policyOf k = .login ⟨3, .seconds 7200, .seconds 43200⟩ ∧
      (c.settingsFor (.domain "acme") (some "web")).Sound ∧
      Decides (c.policyOf k) e.2
        ((counters c.policyOf).next e ((counters c.policyOf).after {} es)).1 := by
  intro c k es e
  have hc : c.check = .ok () := rfl
  have hcovers : ∀ n ∈ [0, 1000, 2000], c.Covers (k, .failed, .ofMillis n) := fun n hn =>
    ⟨nofun, ⟨by revert n; decide, nofun⟩⟩
  have hes : ∀ x ∈ es, c.Covers x :=
    List.forall_mem_cons.mpr
      ⟨hcovers 0 (by decide), List.forall_mem_singleton.mpr (hcovers 1000 (by decide))⟩
  have he : c.Covers e := hcovers 2000 (by decide)
  obtain ⟨hsound, hdecides⟩ := checked_policies_sound c hc
  exact ⟨⟨hc, hes, he⟩, rfl, hsound _ _, hdecides es e hes he⟩

/-- In a leap second the token that comes back next is counted from a moment too early: a
record may be over at once, though the configuration has no defect. -/
theorem lapsed_after_leap_second :
    let limited : RateLimitSettings := ⟨true, 2, 1, .seconds, .proportional⟩
    let c : Config := { defaults := { rateLimit := limited } }
    let k : Key := ⟨.rateLimit, { reference := .domain "acme", subject := "alice" }⟩
    let within : Instant := ⟨1483228799999999999, 500000001⟩
    let now : Instant := .ofMillis 1483228801000
    let store := (counters c.policyOf).after {} [(k, .failed, within), (k, .failed, within)]
    let answer := ((counters c.policyOf).next (k, .failed, now) store).1
    let record := (answer.bind Except.toOption).bind Counter.Decision.record
    c.check = .ok () ∧ (c.settingsOf k).InForce k.kind ∧ within < .latest ∧ now < .latest ∧
      record.map (·.expireAt) = some now ∧ record.bind ((c.policyOf k).refresh · now) = none :=
  ⟨rfl, by decide, by decide, by decide, by decide +kernel, by decide +kernel⟩

end Config

end Gatehouse
