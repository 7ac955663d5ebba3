import Gatehouse.Text.Base64
import Gatehouse.Text.Digits

/-! Encoded passwords: the algorithm, its version and parameters, the salt and the hash,
each after a dollar sign. -/
namespace Gatehouse.Credential
open Text

/-- The parts of an encoded password; all but the algorithm may be missing at the end. -/
structure Phc where
  algorithm : List Char
  version : Option Nat := none
  params : List (List Char × List Char) := []
  salt : Option (List Char) := none
  hash : Option (List UInt8) := none
  deriving DecidableEq, Repr, Inhabited

namespace Phc

/-- Cuts a text at every occurrence of a character. -/
def splitAt (c : Char) : List Char → List (List Char)
  | [] => [[]]
  | d :: rest =>
    match splitAt c rest with
    | part :: parts => if d = c then [] :: part :: parts else (d :: part) :: parts
    | [] => []

/-- Whether a character may stand in a name. -/
def isNameChar (c : Char) : Bool := (97 ≤ c.toNat && c.toNat ≤ 122) || isDigit c || c == '-'

/-- Whether a character may stand in a value. -/
def isValueChar (c : Char) : Bool :=
  isDigit c || (65 ≤ c.toNat && c.toNat ≤ 90) || (97 ≤ c.toNat && c.toNat ≤ 122)
    || c == '/' || c == '+' || c == '.' || c == '-'

/-- A name: 1 to 32 characters. -/
def name? (s : List Char) : Option (List Char) :=
  if s.isEmpty || s.length > 32 || !s.all isNameChar then none else some s

/-- A value: at most 64 characters. -/
def value? (s : List Char) : Option (List Char) :=
  if s.length > 64 || !s.all isValueChar then none else some s

/-- A number of 32 bits without leading zeros. -/
def number? (s : List Char) : Option Nat :=
  if s.length > 1 && s.head? == some '0' then none else (decimal? s).filter (· < Nat.pow 2 32)

/-- A parameter: a name, an equals sign, and a value. -/
def param? (s : List Char) : Option (List Char × List Char) :=
  match splitAt '=' s with
  | [name, value] => do return (← name? name, ← value? value)
  | _ => none

/-- Parameters: at most 127 characters. -/
def params? (s : List Char) : Option (List (List Char × List Char)) :=
  if s.length > 127 then none else (splitAt ',' s).mapM param?

/-- A salt: 4 to 64 characters. -/
def salt? (s : List Char) : Option (List Char) := if s.length < 4 then none else value? s

/-- A hash: 10 to 64 bytes. -/
def hash? (s : List Char) : Option (List UInt8) :=
  (Base64.decode s).filter fun bytes => 10 ≤ bytes.length && bytes.length ≤ 64

/-- The version, if the next part tells one, and the parts after it. -/
def takeVersion : List (List Char) → Option (Option Nat × List (List Char))
  | ('v' :: '=' :: s) :: rest =>
    if s.contains ',' then some (none, ('v' :: '=' :: s) :: rest)
    else ((value? s).bind number?).map fun n => (some n, rest)
  | parts => some (none, parts)

/-- The parameters, if the next part tells any, and the parts after it. -/
def takeParams : List (List Char) → Option (List (List Char × List Char) × List (List Char))
  | [] => some ([], [])
  | s :: rest => if s.contains '=' then (params? s).map fun ps => (ps, rest) else some ([], s :: rest)

/-- An encoded password's parts. -/
def ofText? (text : String) : Option Phc :=
  match splitAt '$' text.toList with
  | [] :: algorithm :: parts => do
    let algorithm ← name? algorithm
    let (version, parts) ← takeVersion parts
    let (params, parts) ← takeParams parts
    match parts with
    | [] => some { algorithm, version, params }
    | [salt] => some { algorithm, version, params, salt := some (← salt? salt) }
    | [salt, hash] =>
      some { algorithm, version, params, salt := some (← salt? salt), hash := some (← hash? hash) }
    | _ => none
  | _ => none

/-- An encoded password with all its parts. -/
def write (algorithm : List Char) (version : Nat) (params : List (List Char × List Char))
    (salt hash : List UInt8) : String :=
  let params := List.intercalate [','] (params.map fun (name, value) => name ++ '=' :: value)
  String.ofList <| '$' :: List.intercalate ['$']
    [algorithm, 'v' :: '=' :: decimal version, params, Base64.encode salt, Base64.encode hash]

end Phc

end Gatehouse.Credential
