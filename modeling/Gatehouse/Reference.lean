/-! Owners: the domain, application or organization that a counter, a flow or a
password history belongs to. -/
namespace Gatehouse

/-- Kinds of owner. -/
inductive ReferenceType where
  /-- A security domain. -/
  | domain
  /-- A client registered in a domain. -/
  | application
  /-- Several domains together. -/
  | organization
  deriving DecidableEq, Repr, Inhabited

/-- The name of a kind of owner. -/
def ReferenceType.name : ReferenceType → String
  | domain => "domain"
  | application => "application"
  | organization => "organization"

/-- An owner, by kind and identifier. -/
structure Reference where
  type : ReferenceType
  id : String
  deriving DecidableEq, Repr, Inhabited

namespace Reference

/-- The security domain of an identifier. -/
def domain (id : String) : Reference := ⟨.domain, id⟩

/-- Kind and identifier with a colon between them. -/
def label (r : Reference) : String := r.type.name ++ ":" ++ r.id

end Reference

end Gatehouse
