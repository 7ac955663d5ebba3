import Gatehouse.Reference
import Gatehouse.Settings.Guard
import Gatehouse.Table
import Gatehouse.Text.Blank

/-! A service's whole configuration, and which settings hold for whom: those of the
application, else those of its domain, else the defaults. -/
namespace Gatehouse

open Settings (Check Defect require)

/-- The settings of a domain and of its applications. -/
structure DomainConfig where
  settings : GuardSettings := {}
  applications : Table GuardSettings := .empty
  deriving DecidableEq, Repr, Inhabited

/-- Who the service is and how much it logs. -/
structure ServiceConfig where
  name : String := "authguard"
  logLevel : String := "info"
  deriving DecidableEq, Repr, Inhabited

/-- Whether events are reported, and how many may wait. -/
structure AuditConfig where
  enabled : Bool := true
  queueCapacity : Nat := 1024
  deriving DecidableEq, Repr, Inhabited

/-- A store behind a network address. -/
structure RedisConfig where
  url : String
  keyPrefix : String := "authguard"
  maxConnections : Nat := 16
  maxRetries : Nat := 3
  retryDelayMs : Nat := 500
  deriving DecidableEq, Repr, Inhabited

/-- Finds what is wrong. -/
def RedisConfig.check (c : RedisConfig) : Check := do
  require (!c.url.isEmpty) (.isEmpty "url")
  require (!c.keyPrefix.isEmpty) (.isEmpty "key_prefix")
  require (!c.keyPrefix.toList.any Text.isBlank) (.hasBlank "key_prefix")
  require (0 < c.maxConnections) (.notPositive "max_connections")

/-- Finds what is wrong with a cost. -/
def Credential.Cost.check (c : Credential.Cost) : Check :=
  match c.problem? with
  | some problem => .error (.cost problem)
  | none => .ok ()

/-- The configuration of a service. -/
structure Config where
  service : ServiceConfig := {}
  /-- What holds where no domain or application says otherwise. -/
  defaults : GuardSettings := {}
  domains : Table DomainConfig := .empty
  audit : AuditConfig := {}
  credential : Credential.Cost := .standard
  redis : Option RedisConfig := none
  deriving DecidableEq, Repr, Inhabited

namespace Config

/-- The settings that hold for an owner, or for a client of it. -/
def settingsFor (c : Config) (reference : Reference) (client : Option String) : GuardSettings :=
  match c.domains.find? reference.id with
  | none => c.defaults
  | some domain => (client.bind domain.applications.find?).getD domain.settings

/-- Finds what is wrong with a domain or one of its applications. -/
def checkDomain (id : String) (domain : DomainConfig) : Check := do
  domain.settings.check.mapError fun d => .under "domains" (.under id d)
  domain.applications.toList.forM fun (client, settings) =>
    settings.check.mapError fun d =>
      .under "domains" (.under id (.under "applications" (.under client d)))

/-- Finds the first thing that is wrong, section by section. -/
def check (c : Config) : Check := do
  c.defaults.check.mapError (.under "defaults")
  c.domains.toList.forM fun (id, domain) => checkDomain id domain
  c.credential.check.mapError (.inSection "credential")
  match c.redis with
  | some redis => redis.check.mapError (.inSection "redis")
  | none => .ok ()

end Config

/-- Whoever tells which settings hold for an owner and a client. -/
abbrev SettingsProvider : Type := Reference → Option String → GuardSettings

/-- The same settings for everybody. -/
def GuardSettings.everywhere (s : GuardSettings) : SettingsProvider := fun _ _ => s

end Gatehouse
