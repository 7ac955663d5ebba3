import Gatehouse.Credential.Argon2
import Gatehouse.Credential.Comparator
import Gatehouse.Credential.Phc

/-! The comparator that hashes passwords with Argon2. New passwords are hashed at the cost
chosen; a password is compared at the cost, and by the variant and version, that the
encoded one tells. -/
namespace Gatehouse.Credential.Argon2
open Text

/-- The number of bytes of a new hash. -/
def newSize : Nat := 32

/-- The bytes of a text. -/
def bytesOf (s : String) : List UInt8 := s.toUTF8.toList

/-- Encodes a password at a cost. -/
def encode (cost : Cost) (salt : List UInt8) (raw : String) : String :=
  let p : Params := { variant := .id, version := latestVersion, cost, size := newSize }
  Phc.write p.variant.name.toList p.version
    [(['m'], decimal cost.memory), (['t'], decimal cost.passes), (['p'], decimal cost.lanes)]
    salt (hash p (bytesOf raw) salt)

/-- The cost and the data that parameters tell, of two of one name the later; a parameter
of another name is refused. -/
def ofParams (size : Nat) : List (List Char × List Char) → Params → Option Params
  | [], p => some { p with size := size }
  | (name, value) :: rest, p => do
    let p ←
      if name = ['m'] then (Phc.number? value).map fun n => { p with cost := { p.cost with memory := n } }
      else if name = ['t'] then (Phc.number? value).map fun n => { p with cost := { p.cost with passes := n } }
      else if name = ['p'] then (Phc.number? value).map fun n => { p with cost := { p.cost with lanes := n } }
      else if name = "keyid".toList then
        ((Base64.decode value).filter (·.length ≤ 8)).map fun _ => p
      else if name = "data".toList then
        ((Base64.decode value).filter (·.length ≤ 32)).map fun data => { p with data := data }
      else none
    ofParams size rest p

/-- What an encoded password says of how it was made; `none` where it could not have
been. -/
def paramsOf (e : Phc) (size : Nat) : Option Params := do
  let variant ← Variant.all.find? (·.name.toList == e.algorithm)
  let version := e.version.getD latestVersion
  if version ≠ latestVersion ∧ version ≠ oldVersion then none
  else
    let p ← ofParams size e.params { variant, version, cost := .standard, size }
    if p.cost.problem?.isSome then none else some p

/-- The bytes of a salt, of which there must be eight. -/
def saltOf (s : List Char) : Option (List UInt8) := (Base64.decode s).filter (8 ≤ ·.length)

/-- Whether a password is the one that was encoded. Something without salt or hash is
no password's encoding. -/
def matchesEncoded (candidate encoded : String) : Except Failure Bool :=
  match Phc.ofText? encoded with
  | none => .error (Comparator.notEncoded "invalid encoded password")
  | some e =>
    match e.salt, e.hash with
    | some salt, some expected =>
      match paramsOf e expected.length, saltOf salt with
      | some p, some salt => .ok (hash p (bytesOf candidate) salt == expected)
      | _, _ => .error (Comparator.compareFailed "unusable parameters")
    | _, _ => .ok false

/-- The comparator of a cost that can be used. -/
def comparator (cost : Cost) : Except Failure Comparator :=
  match cost.problem? with
  | some problem => .error (.invalidConfiguration ("Invalid Argon2 parameters: " ++ problem.message))
  | none => .ok { encode := fun salt raw => .ok (encode cost salt raw), matchesEncoded }

end Gatehouse.Credential.Argon2
