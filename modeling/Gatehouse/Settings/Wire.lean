import Gatehouse.Json.Codec
import Gatehouse.Settings.Config

/-! Settings as members of JSON objects or of layered sources. Whatever is left out has
its default. -/
namespace Gatehouse

open Json Json.Codec

/-- Settings of a lockout. -/
def LoginSettings.codec : Codec LoginSettings :=
  record {} [
    field "enabled" .defaulted bool enabled fun v s => { s with enabled := v },
    field "max_attempts" .defaulted word32 maxAttempts fun v s => { s with maxAttempts := v },
    field "account_blocked_duration_secs" .defaulted word64 accountBlockedDurationSecs
      fun v s => { s with accountBlockedDurationSecs := v },
    field "attempts_reset_time_secs" .defaulted word64 attemptsResetTimeSecs
      fun v s => { s with attemptsResetTimeSecs := v }]

/-- Settings of verifications. -/
def VerifySettings.codec : Codec VerifySettings :=
  record {} [
    field "enabled" .defaulted bool enabled fun v s => { s with enabled := v },
    field "max_attempts" .defaulted word32 maxAttempts fun v s => { s with maxAttempts := v },
    field "reset_time_secs" .defaulted word64 resetTimeSecs fun v s => { s with resetTimeSecs := v }]

/-- Units of time, by name. -/
def TimeUnit.codec : Codec TimeUnit := choice name [seconds, minutes, hours, days]

/-- Ways to give tokens back, by name. -/
def Counter.Refill.codec : Codec Counter.Refill := choice name [fixedWindow, proportional]

/-- Settings of a rate limit. -/
def RateLimitSettings.codec : Codec RateLimitSettings :=
  record {} [
    field "enabled" .defaulted bool enabled fun v s => { s with enabled := v },
    field "limit" .defaulted int64 limit fun v s => { s with limit := v },
    field "time_period" .defaulted int64 timePeriod fun v s => { s with timePeriod := v },
    field "time_unit" .defaulted TimeUnit.codec timeUnit fun v s => { s with timeUnit := v },
    field "refill" .defaulted Counter.Refill.codec refill fun v s => { s with refill := v }]

/-- Settings of a password history. -/
def PasswordHistorySettings.codec : Codec PasswordHistorySettings :=
  record {} [
    field "enabled" .defaulted bool enabled fun v s => { s with enabled := v },
    field "old_passwords" .defaulted word16 oldPasswords fun v s => { s with oldPasswords := v }]

/-- Settings of flows. -/
def ConsistencySettings.codec : Codec ConsistencySettings :=
  record {} [
    field "max_retries" .defaulted word32 maxRetries fun v s => { s with maxRetries := v },
    field "retry_interval_ms" .defaulted word64 retryIntervalMs
      fun v s => { s with retryIntervalMs := v },
    field "context_ttl_secs" .defaulted word64 contextTtlSecs
      fun v s => { s with contextTtlSecs := v }]

/-- The settings of one domain or application. -/
def GuardSettings.codec : Codec GuardSettings :=
  record {} [
    field "login" .defaulted LoginSettings.codec login fun v s => { s with login := v },
    field "verify" .defaulted VerifySettings.codec verify fun v s => { s with verify := v },
    field "rate_limit" .defaulted RateLimitSettings.codec rateLimit
      fun v s => { s with rateLimit := v },
    field "password_history" .defaulted PasswordHistorySettings.codec passwordHistory
      fun v s => { s with passwordHistory := v },
    field "consistency" .defaulted ConsistencySettings.codec consistency
      fun v s => { s with consistency := v }]

/-- A domain: its own settings stand beside its applications in one object. -/
def DomainConfig.codec : Codec DomainConfig :=
  sharing {} GuardSettings.codec settings (fun v d => { d with settings := v }) [
    field "applications" .defaulted (table GuardSettings.codec) applications
      fun v d => { d with applications := v }]

/-- Who the service is. -/
def ServiceConfig.codec : Codec ServiceConfig :=
  record {} [
    field "name" .defaulted string name fun v s => { s with name := v },
    field "log_level" .defaulted string logLevel fun v s => { s with logLevel := v }]

/-- Settings of the audit trail. -/
def AuditConfig.codec : Codec AuditConfig :=
  record {} [
    field "enabled" .defaulted bool enabled fun v s => { s with enabled := v },
    field "queue_capacity" .defaulted word64 queueCapacity fun v s => { s with queueCapacity := v }]

/-- The cost of a hash. -/
def Credential.Cost.codec : Codec Credential.Cost :=
  record standard [
    field "memory_cost_kib" .defaulted word32 memory fun v c => { c with memory := v },
    field "time_cost" .defaulted word32 passes fun v c => { c with passes := v },
    field "parallelism" .defaulted word32 lanes fun v c => { c with lanes := v }]

/-- Settings of a store behind a network address, which they must name. -/
def RedisConfig.codec : Codec RedisConfig :=
  record { url := "" } [
    field "url" .required string url fun v c => { c with url := v },
    field "key_prefix" .defaulted string keyPrefix fun v c => { c with keyPrefix := v },
    field "max_connections" .defaulted word64 maxConnections
      fun v c => { c with maxConnections := v },
    field "max_retries" .defaulted word32 maxRetries fun v c => { c with maxRetries := v },
    field "retry_delay_ms" .defaulted word64 retryDelayMs fun v c => { c with retryDelayMs := v }]

/-- A whole configuration. -/
def Config.codec : Codec Config :=
  record {} [
    field "service" .defaulted ServiceConfig.codec service fun v c => { c with service := v },
    field "defaults" .defaulted GuardSettings.codec defaults fun v c => { c with defaults := v },
    field "domains" .defaulted (table DomainConfig.codec) domains fun v c => { c with domains := v },
    field "audit" .defaulted AuditConfig.codec audit fun v c => { c with audit := v },
    field "credential" .defaulted Credential.Cost.codec credential
      fun v c => { c with credential := v },
    field "redis" .defaulted (option RedisConfig.codec) redis fun v c => { c with redis := v }]

end Gatehouse
