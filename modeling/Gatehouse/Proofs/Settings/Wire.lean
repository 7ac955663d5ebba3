import Gatehouse.Proofs.Json.Codec
import Gatehouse.Proofs.Json.Reading
import Gatehouse.Settings.Wire

/-! Settings read once are read for good.

What is read of settings, in whatever manner and with whatever left out, fits what it is written
with (`Fits`): numbers have the width that they are read with, and domains and applications are
in order. What fits is kept: every member is written, the defaults that were filled in among
them, and is read back as it was, though a domain's settings stand beside its applications in
one object. So a configuration that has been read once does not change when it is written and
read again (`settings_read_for_good`). -/
namespace Gatehouse

open Json.Codec

/-! ### Sections of settings -/

/-- Numbers of a lockout fit 32 and 64 bits. -/
structure LoginSettings.Fits (s : LoginSettings) : Prop where
  maxAttempts : s.maxAttempts < Nat.pow 2 32
  blocked : s.accountBlockedDurationSecs < Nat.pow 2 64
  reset : s.attemptsResetTimeSecs < Nat.pow 2 64

theorem LoginSettings.codec_keeps {s : LoginSettings} (h : s.Fits) : codec.Keeps 1 s :=
  keeps_record (by decide) <|
    .field (keeps_bool s.enabled) (Nat.le_refl 0) <|
    .field (keeps_nat h.maxAttempts (by decide)) (Nat.le_refl 0) <|
    .field (keeps_nat h.blocked (by decide)) (Nat.le_refl 0) <|
    .field (keeps_nat h.reset (by decide)) (Nat.le_refl 0) .nil

theorem LoginSettings.codec_yields : codec.Yields Fits :=
  yields_record ⟨by decide, by decide, by decide⟩ <|
    .free (fun _ _ hs => { hs with }) <|
    .field (yields_nat _) (fun _ _ hv hs => { hs with maxAttempts := hv }) <|
    .field (yields_nat _) (fun _ _ hv hs => { hs with blocked := hv }) <|
    .field (yields_nat _) (fun _ _ hv hs => { hs with reset := hv }) .nil

/-- Numbers of verifications fit 32 and 64 bits. -/
structure VerifySettings.Fits (s : VerifySettings) : Prop where
  maxAttempts : s.maxAttempts < Nat.pow 2 32
  reset : s.resetTimeSecs < Nat.pow 2 64

theorem VerifySettings.codec_keeps {s : VerifySettings} (h : s.Fits) : codec.Keeps 1 s :=
  keeps_record (by decide) <|
    .field (keeps_bool s.enabled) (Nat.le_refl 0) <|
    .field (keeps_nat h.maxAttempts (by decide)) (Nat.le_refl 0) <|
    .field (keeps_nat h.reset (by decide)) (Nat.le_refl 0) .nil

theorem VerifySettings.codec_yields : codec.Yields Fits :=
  yields_record ⟨by decide, by decide⟩ <|
    .free (fun _ _ hs => { hs with }) <|
    .field (yields_nat _) (fun _ _ hv hs => { hs with maxAttempts := hv }) <|
    .field (yields_nat _) (fun _ _ hv hs => { hs with reset := hv }) .nil

/-- Numbers of a rate limit fit 64 bits. -/
structure RateLimitSettings.Fits (s : RateLimitSettings) : Prop where
  limit : -Nat.pow 2 63 ≤ s.limit ∧ s.limit < Nat.pow 2 63
  timePeriod : -Nat.pow 2 63 ≤ s.timePeriod ∧ s.timePeriod < Nat.pow 2 63

theorem RateLimitSettings.codec_keeps {s : RateLimitSettings} (h : s.Fits) : codec.Keeps 1 s :=
  keeps_record (by decide) <|
    .field (keeps_bool s.enabled) (Nat.le_refl 0) <|
    .field (keeps_int64 h.limit.1 h.limit.2) (Nat.le_refl 0) <|
    .field (keeps_int64 h.timePeriod.1 h.timePeriod.2) (Nat.le_refl 0) <|
    .field (keeps_choice (by cases s.timeUnit <;> rfl)) (Nat.le_refl 0) <|
    .field (keeps_choice (by cases s.refill <;> rfl)) (Nat.le_refl 0) .nil

theorem RateLimitSettings.codec_yields : codec.Yields Fits :=
  yields_record ⟨by decide, by decide⟩ <|
    .free (fun _ _ hs => { hs with }) <|
    .field yields_int64 (fun _ _ hv hs => { hs with limit := hv }) <|
    .field yields_int64 (fun _ _ hv hs => { hs with timePeriod := hv }) <|
    .free (fun _ _ hs => { hs with }) <|
    .free (fun _ _ hs => { hs with }) .nil

/-- The number of passwords fits 16 bits. -/
structure PasswordHistorySettings.Fits (s : PasswordHistorySettings) : Prop where
  oldPasswords : s.oldPasswords < Nat.pow 2 16

theorem PasswordHistorySettings.codec_keeps {s : PasswordHistorySettings} (h : s.Fits) :
    codec.Keeps 1 s :=
  keeps_record (by decide) <|
    .field (keeps_bool s.enabled) (Nat.le_refl 0) <|
    .field (keeps_nat h.oldPasswords (by decide)) (Nat.le_refl 0) .nil

theorem PasswordHistorySettings.codec_yields : codec.Yields Fits :=
  yields_record ⟨by decide⟩ <|
    .free (fun _ _ hs => { hs with }) <|
    .field (yields_nat _) (fun _ _ hv _ => ⟨hv⟩) .nil

/-- Numbers of flows fit 32 and 64 bits. -/
structure ConsistencySettings.Fits (s : ConsistencySettings) : Prop where
  maxRetries : s.maxRetries < Nat.pow 2 32
  retryInterval : s.retryIntervalMs < Nat.pow 2 64
  contextTtl : s.contextTtlSecs < Nat.pow 2 64

theorem ConsistencySettings.codec_keeps {s : ConsistencySettings} (h : s.Fits) :
    codec.Keeps 1 s :=
  keeps_record (by decide) <|
    .field (keeps_nat h.maxRetries (by decide)) (Nat.le_refl 0) <|
    .field (keeps_nat h.retryInterval (by decide)) (Nat.le_refl 0) <|
    .field (keeps_nat h.contextTtl (by decide)) (Nat.le_refl 0) .nil

theorem ConsistencySettings.codec_yields : codec.Yields Fits :=
  yields_record ⟨by decide, by decide, by decide⟩ <|
    .field (yields_nat _) (fun _ _ hv hs => { hs with maxRetries := hv }) <|
    .field (yields_nat _) (fun _ _ hv hs => { hs with retryInterval := hv }) <|
    .field (yields_nat _) (fun _ _ hv hs => { hs with contextTtl := hv }) .nil

/-! ### Settings and domains -/

/-- Each section of settings fits. -/
structure GuardSettings.Fits (s : GuardSettings) : Prop where
  login : s.login.Fits
  verify : s.verify.Fits
  rateLimit : s.rateLimit.Fits
  passwordHistory : s.passwordHistory.Fits
  consistency : s.consistency.Fits

theorem GuardSettings.fits_default : Fits {} :=
  ⟨⟨by decide, by decide, by decide⟩, ⟨by decide, by decide⟩, ⟨by decide, by decide⟩,
    ⟨by decide⟩, ⟨by decide, by decide, by decide⟩⟩

theorem GuardSettings.codec_keeps {s : GuardSettings} (h : s.Fits) : codec.Keeps 2 s :=
  keeps_record (by decide) <|
    .field (LoginSettings.codec_keeps h.login) (Nat.le_refl 1) <|
    .field (VerifySettings.codec_keeps h.verify) (Nat.le_refl 1) <|
    .field (RateLimitSettings.codec_keeps h.rateLimit) (Nat.le_refl 1) <|
    .field (PasswordHistorySettings.codec_keeps h.passwordHistory) (Nat.le_refl 1) <|
    .field (ConsistencySettings.codec_keeps h.consistency) (Nat.le_refl 1) .nil

theorem GuardSettings.codec_yields : codec.Yields Fits :=
  yields_record fits_default <|
    .field LoginSettings.codec_yields (fun _ _ hv hs => { hs with login := hv }) <|
    .field VerifySettings.codec_yields (fun _ _ hv hs => { hs with verify := hv }) <|
    .field RateLimitSettings.codec_yields (fun _ _ hv hs => { hs with rateLimit := hv }) <|
    .field PasswordHistorySettings.codec_yields
      (fun _ _ hv hs => { hs with passwordHistory := hv }) <|
    .field ConsistencySettings.codec_yields (fun _ _ hv hs => { hs with consistency := hv }) .nil

/-- The settings of a domain fit, and so do those of its applications, which are in order. -/
structure DomainConfig.Fits (d : DomainConfig) : Prop where
  settings : d.settings.Fits
  applications : d.applications.Each GuardSettings.Fits

/-- No section of settings has the name under which a domain's applications stand. -/
theorem DomainConfig.codec_keeps {d : DomainConfig} (h : d.Fits) : codec.Keeps 4 d := by
  refine keeps_sharing ((GuardSettings.codec_keeps h.settings).mono (by decide)) rfl ?_ (by decide)
    (.field (keeps_table h.applications.ordered fun e he =>
      GuardSettings.codec_keeps (h.applications.values e he)) (Nat.le_refl 3) .nil) rfl
  simp [encodeFields, field]

theorem DomainConfig.codec_yields : codec.Yields Fits :=
  yields_sharing (Q := fun d => d.applications.Each GuardSettings.Fits)
    (Table.each_empty _)
    (.field (yields_table GuardSettings.codec_yields) (fun _ _ hv _ => hv) .nil)
    GuardSettings.codec_yields fun _ _ hs hd => ⟨hs, hd⟩

/-! ### Whole configurations -/

theorem ServiceConfig.codec_keeps (c : ServiceConfig) : codec.Keeps 1 c :=
  keeps_record (by decide) <|
    .field (keeps_string c.name) (Nat.le_refl 0) <|
    .field (keeps_string c.logLevel) (Nat.le_refl 0) .nil

theorem AuditConfig.codec_keeps {c : AuditConfig} (h : c.queueCapacity < Nat.pow 2 64) :
    codec.Keeps 1 c :=
  keeps_record (by decide) <|
    .field (keeps_bool c.enabled) (Nat.le_refl 0) <|
    .field (keeps_nat h (by decide)) (Nat.le_refl 0) .nil

theorem AuditConfig.codec_yields : codec.Yields fun c => c.queueCapacity < Nat.pow 2 64 :=
  yields_record (by decide) <|
    .free (fun _ _ hs => hs) <|
    .field (yields_nat _) (fun _ _ hv _ => hv) .nil

/-- Numbers of a cost fit 32 bits. -/
structure Credential.Cost.Fits (c : Credential.Cost) : Prop where
  memory : c.memory < Nat.pow 2 32
  passes : c.passes < Nat.pow 2 32
  lanes : c.lanes < Nat.pow 2 32

theorem Credential.Cost.codec_keeps {c : Credential.Cost} (h : c.Fits) : codec.Keeps 1 c :=
  keeps_record (by decide) <|
    .field (keeps_nat h.memory (by decide)) (Nat.le_refl 0) <|
    .field (keeps_nat h.passes (by decide)) (Nat.le_refl 0) <|
    .field (keeps_nat h.lanes (by decide)) (Nat.le_refl 0) .nil

theorem Credential.Cost.codec_yields : codec.Yields Fits :=
  yields_record ⟨by decide, by decide, by decide⟩ <|
    .field (yields_nat _) (fun _ _ hv hs => { hs with memory := hv }) <|
    .field (yields_nat _) (fun _ _ hv hs => { hs with passes := hv }) <|
    .field (yields_nat _) (fun _ _ hv hs => { hs with lanes := hv }) .nil

/-- Numbers of a store's settings fit 32 and 64 bits. -/
structure RedisConfig.Fits (c : RedisConfig) : Prop where
  maxConnections : c.maxConnections < Nat.pow 2 64
  maxRetries : c.maxRetries < Nat.pow 2 32
  retryDelay : c.retryDelayMs < Nat.pow 2 64

theorem RedisConfig.codec_keeps {c : RedisConfig} (h : c.Fits) : codec.Keeps 1 c :=
  keeps_record (by decide) <|
    .field (keeps_string c.url) (Nat.le_refl 0) <|
    .field (keeps_string c.keyPrefix) (Nat.le_refl 0) <|
    .field (keeps_nat h.maxConnections (by decide)) (Nat.le_refl 0) <|
    .field (keeps_nat h.maxRetries (by decide)) (Nat.le_refl 0) <|
    .field (keeps_nat h.retryDelay (by decide)) (Nat.le_refl 0) .nil

theorem RedisConfig.codec_yields : codec.Yields Fits :=
  yields_record ⟨by decide, by decide, by decide⟩ <|
    .free (fun _ _ hs => { hs with }) <|
    .free (fun _ _ hs => { hs with }) <|
    .field (yields_nat _) (fun _ _ hv hs => { hs with maxConnections := hv }) <|
    .field (yields_nat _) (fun _ _ hv hs => { hs with maxRetries := hv }) <|
    .field (yields_nat _) (fun _ _ hv hs => { hs with retryDelay := hv }) .nil

/-- Each section of a configuration fits, and so do its domains, which are in order. -/
structure Config.Fits (c : Config) : Prop where
  defaults : c.defaults.Fits
  domains : c.domains.Each DomainConfig.Fits
  queueCapacity : c.audit.queueCapacity < Nat.pow 2 64
  credential : c.credential.Fits
  redis : ∀ r ∈ c.redis, r.Fits

theorem Config.codec_keeps {c : Config} (h : c.Fits) : codec.Keeps 6 c := by
  have hredis : (option RedisConfig.codec).Keeps 1 c.redis := by
    cases hc : c.redis with
    | none => exact keeps_none.mono (by decide)
    | some r => exact keeps_some (RedisConfig.codec_keeps (h.redis r hc)) Json.noConfusion
  exact keeps_record (by decide) <|
    .field (ServiceConfig.codec_keeps c.service) (by decide) <|
    .field (GuardSettings.codec_keeps h.defaults) (by decide) <|
    .field (keeps_table h.domains.ordered fun e he =>
      DomainConfig.codec_keeps (h.domains.values e he)) (Nat.le_refl 5) <|
    .field (AuditConfig.codec_keeps h.queueCapacity) (by decide) <|
    .field (Credential.Cost.codec_keeps h.credential) (by decide) <|
    .field hredis (by decide) .nil

theorem Config.codec_yields : codec.Yields Fits :=
  yields_record
    ⟨GuardSettings.fits_default, Table.each_empty _, by decide, ⟨by decide, by decide, by decide⟩,
      nofun⟩ <|
    .free (fun _ _ hs => { hs with }) <|
    .field GuardSettings.codec_yields (fun _ _ hv hs => { hs with defaults := hv }) <|
    .field (yields_table DomainConfig.codec_yields) (fun _ _ hv hs => { hs with domains := hv }) <|
    .field AuditConfig.codec_yields (fun _ _ hv hs => { hs with queueCapacity := hv }) <|
    .field Credential.Cost.codec_yields (fun _ _ hv hs => { hs with credential := hv }) <|
    .field (yields_option RedisConfig.codec_yields) (fun _ _ hv hs => { hs with redis := hv }) .nil

/-! ### Read, written and read again -/

namespace Json.Codec
variable {α : Type} {c : Codec α} {P : α → Prop} {n : Nat}

/-- What a codec has read of anything, it reads again from the value that it writes of it, and
from that value's text. -/
def Settles (c : Codec α) : Prop :=
  ∀ m room d a, c.read m room d = .ok a → c.ofJson (c.encode a) = .ok a ∧
    c.ofText (c.toText a) = .ok a

theorem settles_of_yields (hyields : c.Yields P) (hkeeps : ∀ a, P a → c.Keeps n a)
    (hn : n ≤ levels) : c.Settles := fun m room d a hread =>
  have h := hkeeps a (hyields m room d a hread)
  ⟨h.ofJson_encode hn, h.ofText_toText hn⟩

end Json.Codec

/-- **Settings read once are read for good.** Whatever settings, domain or configuration is
read, with whatever left out and whatever unknown beside it, is the one that is read again after
it was written with all defaults filled in; and so the same settings hold for every owner and
client. -/
theorem settings_read_for_good :
    GuardSettings.codec.Settles ∧ DomainConfig.codec.Settles ∧ Config.codec.Settles ∧
      ∀ m room d c, Config.codec.read m room d = .ok c → ∀ reference client,
        (Config.codec.ofText (Config.codec.toText c)).map (·.settingsFor reference client) =
          .ok (c.settingsFor reference client) := by
  have hconfig : Config.codec.Settles :=
    settles_of_yields Config.codec_yields (fun _ h => Config.codec_keeps h) (by decide)
  refine ⟨settles_of_yields GuardSettings.codec_yields (fun _ h => GuardSettings.codec_keeps h)
    (by decide), settles_of_yields DomainConfig.codec_yields
      (fun _ h => DomainConfig.codec_keeps h) (by decide), hconfig, ?_⟩
  intro m room d c hread reference client
  rw [(hconfig m room d c hread).2]
  rfl

/-- A domain with an unknown member, one section as an array, and two applications, of which
one sets nothing. -/
theorem settings_read_for_good_two_applications :
    let v : Json := .obj [
      ("comment", .arr [.null]),
      ("domains", .obj [
        ("acme", .obj [
          ("applications", .obj [
            ("web", .obj [("login", .obj [("max_attempts", .int 3), ("mode", .str "strict")])]),
            ("api", .obj [])]),
          ("since", .int 2024),
          ("verify", .arr [.bool false])])])]
    let c : Config := { domains := .ofList [("acme", {
      settings := { verify := { enabled := false } }
      applications := .ofList [("web", { login := { maxAttempts := 3 } }), ("api", {})] })] }
    Config.codec.ofJson v = .ok c ∧ Config.codec.ofJson (Config.codec.encode c) = .ok c ∧
      Config.codec.ofText (Config.codec.toText c) = .ok c ∧
      (Config.codec.ofText (Config.codec.toText c)).map
        (·.settingsFor (.domain "acme") (some "web")) = .ok { login := { maxAttempts := 3 } } := by
  intro v c
  have hread : Config.codec.ofJson v = .ok c := rfl
  have hback := settings_read_for_good.2.2.1 _ _ _ c hread
  exact ⟨hread, hback.1, hback.2,
    settings_read_for_good.2.2.2 _ _ _ c hread (.domain "acme") (some "web")⟩

end Gatehouse
