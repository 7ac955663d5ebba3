import Gatehouse.Audit.Wire

/-! Entries of password histories, and their order: by the time they were made, then by
identifier. -/
namespace Gatehouse.History

/-- A password that a user had. -/
structure Entry where
  id : Uuid
  reference : Reference
  userId : String
  encodedPassword : String
  createdAt : Instant
  deriving DecidableEq, Repr, Inhabited

namespace Entry

/-- Whether an entry is not newer than another. -/
def notNewer (a b : Entry) : Bool :=
  decide (a.createdAt < b.createdAt) || (a.createdAt == b.createdAt && decide (a.id.value ≤ b.id.value))

/-- Entries, oldest first. -/
def oldestFirst (entries : List Entry) : List Entry := entries.mergeSort notNewer

open Json Json.Codec

/-- Entries as JSON. -/
def codec : Codec Entry :=
  record default [
    field "id" .required Uuid.codec id fun v e => { e with id := v },
    field "reference" .required Reference.codec reference fun v e => { e with reference := v },
    field "user_id" .required string userId fun v e => { e with userId := v },
    field "encoded_password" .required string encodedPassword
      fun v e => { e with encodedPassword := v },
    field "created_at" .required instant createdAt fun v e => { e with createdAt := v }]

end Entry

end Gatehouse.History
