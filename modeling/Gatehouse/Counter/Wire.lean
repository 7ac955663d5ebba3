import Gatehouse.Counter.Record
import Gatehouse.Json.Codec

/-! Keys and records of counters as JSON. -/
namespace Gatehouse

open Json Json.Codec

/-- Kinds of owner, by name. -/
def ReferenceType.codec : Codec ReferenceType :=
  choice name [domain, application, organization]

/-- Owners. -/
def Reference.codec : Codec Reference :=
  record default [
    field "reference_type" .required ReferenceType.codec type fun v r => { r with type := v },
    field "id" .required string id fun v r => { r with id := v }]

/-- Criteria; the parts that may be absent may be left out. -/
def Criteria.codec : Codec Criteria :=
  record default [
    field "reference" .required Reference.codec reference fun v c => { c with reference := v },
    field "client" .optional (option string) client fun v c => { c with client := v },
    field "identity_provider" .optional (option string) identityProvider
      fun v c => { c with identityProvider := v },
    field "factor" .optional (option string) factor fun v c => { c with factor := v },
    field "subject" .required string subject fun v c => { c with subject := v }]

namespace Counter

/-- Kinds of counter, by name. -/
def Kind.codec : Codec Kind := choice name [login, verify, rateLimit]

/-- Keys. -/
def Key.codec : Codec Key :=
  record default [
    field "kind" .required Kind.codec kind fun v k => { k with kind := v },
    field "criteria" .required Criteria.codec criteria fun v k => { k with criteria := v }]

/-- Records. -/
def Record.codec : Codec Record :=
  record default [
    field "key" .required Key.codec key fun v r => { r with key := v },
    field "attempts" .required word32 attempts fun v r => { r with attempts := v },
    field "tokens_left" .required int64 tokensLeft fun v r => { r with tokensLeft := v },
    field "allow_request" .required bool allowRequest fun v r => { r with allowRequest := v },
    field "window_start" .required instant windowStart fun v r => { r with windowStart := v },
    field "created_at" .required instant createdAt fun v r => { r with createdAt := v },
    field "updated_at" .required instant updatedAt fun v r => { r with updatedAt := v },
    field "expire_at" .required instant expireAt fun v r => { r with expireAt := v }]

end Counter

end Gatehouse
