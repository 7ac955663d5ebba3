import Gatehouse.Failure

/-! Comparators: how passwords are encoded, and how a password is compared with an
encoded one. -/
namespace Gatehouse.Credential

/-- Encodes passwords, with a salt, and compares them with encoded ones. -/
structure Comparator where
  encode : (salt : List UInt8) → String → Except Failure String
  matchesEncoded : String → (encoded : String) → Except Failure Bool

namespace Comparator

/-- Whether a password is any of several encoded ones; the first match or failure
decides. -/
def matchesAny (c : Comparator) (candidate : String) : List String → Except Failure Bool
  | [] => .ok false
  | e :: rest => do
    if ← c.matchesEncoded candidate e then .ok true else c.matchesAny candidate rest

/-- What encoding fails with. -/
def encodeFailed (source : String) : Failure := .credential "Failed to hash credential" source

/-- What comparing with something that is no encoded password fails with. -/
def notEncoded (source : String) : Failure := .credential "Invalid credential hash format" source

/-- What comparing fails with otherwise. -/
def compareFailed (source : String) : Failure :=
  .credential "Credential verification failed" source

end Comparator

end Gatehouse.Credential
