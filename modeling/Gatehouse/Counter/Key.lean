import Gatehouse.Reference

/-! Keys of counters.

A counter belongs to one kind of limit and one criteria: an owner, a subject, and
perhaps a client, an identity provider and a factor. Its storage key is one text, the
seven parts with colons between them. Percent signs and colons within a part are
escaped, an absent part is a dash, and a part that is nothing but a dash is escaped
too, so that the parts can be told back from the text. -/
namespace Gatehouse

/-- Whom a counter counts for. -/
structure Criteria where
  reference : Reference
  client : Option String := none
  identityProvider : Option String := none
  factor : Option String := none
  subject : String
  deriving DecidableEq, Repr, Inhabited

namespace Counter

/-- What a counter counts. -/
inductive Kind where
  /-- Failed logins. -/
  | login
  /-- Failed verifications of a second factor. -/
  | verify
  /-- Events under a rate limit. -/
  | rateLimit
  deriving DecidableEq, Repr, Inhabited

/-- The name of a kind of counter. -/
def Kind.name : Kind → String
  | login => "login"
  | verify => "verify"
  | rateLimit => "rate_limit"

/-- What identifies one counter. -/
structure Key where
  kind : Kind
  criteria : Criteria
  deriving DecidableEq, Repr, Inhabited

namespace Key

/-- A character within a part: percent signs and colons are escaped. -/
def escapeChar (c : Char) : List Char :=
  if c = '%' then ['%', '2', '5'] else if c = ':' then ['%', '3', 'A'] else [c]

/-- A part of a storage key; a dash alone is escaped. -/
def escape (s : List Char) : List Char :=
  if s = ['-'] then ['%', '2', 'D'] else s.flatMap escapeChar

/-- A part that may be absent, and is then a dash. -/
def escapeOption : Option String → List Char
  | some s => escape s.toList
  | none => ['-']

/-- The parts of a storage key in order. -/
def parts (k : Key) : List (List Char) :=
  let c := k.criteria
  [k.kind.name.toList, c.reference.type.name.toList, escape c.reference.id.toList,
    escapeOption c.client, escapeOption c.identityProvider, escapeOption c.factor,
    escape c.subject.toList]

/-- The text under which a counter is stored. -/
def storageKey (k : Key) : String := String.ofList (List.intercalate [':'] k.parts)

end Key

end Counter

end Gatehouse
