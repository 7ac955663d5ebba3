import Gatehouse.Json.Draft
import Gatehouse.Json.Printer
import Gatehouse.Time.Timestamp

/-! Typed values as JSON.

A codec writes a value of its type as a JSON value and reads it back from a draft. A
record is described once, field by field, and both directions follow from the
description: what is written has all fields in order, and what is read may have them
in any order or as an array, may lack those with a default, and may hold members
that no field has.

Values come from texts, from layers of settings, and from the members that a reader
has set aside for another (`Manner`); the three differ only in how forgiving they
are about arrays and variants. -/
namespace Gatehouse.Json

/-- Where a draft comes from. -/
inductive Manner where
  /-- A JSON text, read from left to right. -/
  | text
  /-- Settings from several sources, merged. -/
  | layered
  /-- Members kept by until the rest of their object has been read. -/
  | setAside
  deriving DecidableEq, Repr

/-- How values of a type are written and read; the number is how many more levels of
arrays and objects a text may have. -/
structure Codec (α : Type) where
  encode : α → Json
  read : Manner → Nat → Draft → Except Fault α

/-- What is wrong with a value of another type than the one wanted. -/
def Mismatch.fault (kind : Mismatch) : Fault := .mismatch kind []

namespace Codec
variable {α β σ τ : Type}

/-- Goes down a level of arrays or objects. -/
def descend {α : Type} (room : Nat) (inner : Nat → Except Fault α) : Except Fault α :=
  match room with
  | 0 => .error .malformed
  | room + 1 => inner room

/-! ### Plain values -/

/-- True or false. -/
def bool : Codec Bool where
  encode := .bool
  read _ _
    | .bool b => .ok b
    | d => .error d.unexpected

/-- Texts. -/
def string : Codec String where
  encode := .str
  read _ _
    | .str s => s
    | .letter c => .ok c.toString
    | d => .error d.unexpected

/-- Whole numbers from `low` to `high`. -/
def int (low high : Int) : Codec Int where
  encode := .int
  read _ _
    | .int n => if low ≤ n ∧ n ≤ high then .ok n else .error Mismatch.invalidValue.fault
    | d => .error d.unexpected

/-- Natural numbers below a bound. -/
def nat (bound : Nat) : Codec Nat where
  encode := .nat
  read _ _
    | .int n => if 0 ≤ n ∧ n < bound then .ok n.toNat else .error Mismatch.invalidValue.fault
    | d => .error d.unexpected

/-- Natural numbers of 16 bits. -/
def word16 : Codec Nat := nat (Nat.pow 2 16)

/-- Natural numbers of 32 bits. -/
def word32 : Codec Nat := nat (Nat.pow 2 32)

/-- Natural numbers of 64 bits. -/
def word64 : Codec Nat := nat (Nat.pow 2 64)

/-- Whole numbers of 64 bits. -/
def int64 : Codec Int := int (-Nat.pow 2 63) (Nat.pow 2 63 - 1)

/-- Any value. -/
def any : Codec Json where
  encode := id
  read _ room d := d.toJson room

/-- Instants, as texts. -/
def instant : Codec Instant where
  encode t := .str t.toText
  read m room d := do
    match Instant.ofText? (← string.read m room d) with
    | some t => .ok t
    | none => .error Mismatch.invalidValue.fault

/-- A value that may be absent, then written as null. -/
def option (c : Codec α) : Codec (Option α) where
  encode := Json.ofOption c.encode
  read m room
    | .null => .ok none
    | d => (c.read m room d).map some

/-! ### Tables -/

/-- Reads the members of an object into a table; of two with one key the last stands. -/
def readEntries (c : Codec α) (m : Manner) (room : Nat) :
    List (Except Fault String × Draft) → Table α → Except Fault (Table α)
  | [], t => .ok t
  | (key, d) :: rest, t => do
    let key ← key
    let v ← (c.read m room d).mapError (Fault.below key)
    readEntries c m room rest (t.insert key v)

/-- Values by name, as the members of an object. -/
def table (c : Codec α) : Codec (Table α) where
  encode t := .obj (t.toList.map fun e => (e.1, c.encode e.2))
  read m room
    | .obj members ending => descend room fun room => do
      let t ← readEntries c m room members .empty
      ending.more
      return t
    | .keyless d => descend room fun _ => .error d.noKey
    | d => .error d.unexpected

/-! ### Variants -/

/-- One of the forms of a type: a name alone, or a name with a text. -/
inductive Variant (α : Type) where
  | plain (value : α)
  | texted (make : String → α)

/-- What a name alone stands for. -/
def named (variants : List (String × Variant α)) (name : String) : Except Fault α :=
  match variants.find? (·.1 == name) with
  | some (_, .plain a) => .ok a
  | some (_, .texted _) => .error Mismatch.invalidType.fault
  | none => .error Mismatch.unknownVariant.fault

/-- Reads what stands under a variant's name. -/
def payload (m : Manner) (room : Nat) (v : Variant α) (d : Draft) : Except Fault α :=
  match v with
  | .texted make => (string.read m room d).map make
  | .plain a =>
    match m, d with
    | _, .null => .ok a
    | .setAside, .obj [] .closed => .ok a
    | _, d => .error d.unexpected

/-- A value of one of several forms: a name, or an object of one member. -/
def variant (encode : α → Json) (variants : List (String × Variant α)) : Codec α where
  encode := encode
  read m room
    | .str s => do named variants (← s)
    | .nothing => .error .truncated
    | .keyless d => descend room fun _ => .error d.unexpected
    | .obj [] _ =>
      match m with
      | .text => .error .malformed
      | .layered => .error Mismatch.invalidType.fault
      | .setAside => .error Mismatch.invalidValue.fault
    | .obj ((key, d) :: rest) ending => descend room fun room => do
      if m = .setAside ∧ ¬ rest.isEmpty then throw Mismatch.invalidValue.fault
      let key ← key
      match variants.find? (·.1 == key) with
      | none => throw Mismatch.unknownVariant.fault
      | some (_, v) =>
        let a ← (payload m room v d).mapError (Fault.below key)
        if m = .text ∧ ¬ rest.isEmpty then throw .malformed
        if m = .text then ending.done
        return a
    | d => .error (if m = .text then .malformed else d.unexpected)

/-- A value of one of several names. -/
def choice (name : α → String) (all : List α) : Codec α :=
  variant (fun a => .str (name a)) (all.map fun a => (name a, .plain a))

/-! ### Records -/

/-- What is done about a field that an object or array lacks. -/
inductive Absence where
  /-- It is an error. -/
  | required
  /-- An object may lack it; its value is then absent. An array may not. -/
  | optional
  /-- It keeps its default. -/
  | defaulted
  deriving DecidableEq, Repr

/-- A field of a record. -/
structure FieldCodec (σ : Type) where
  name : String
  absence : Absence
  /-- What is written; `none` where the field is left out. -/
  encode : σ → Option Json
  /-- Reads the field's value into a record. -/
  read : Manner → Nat → Draft → σ → Except Fault σ

/-- A field with a codec of its own. -/
def field (name : String) (absence : Absence) (c : Codec α) (get : σ → α) (set : α → σ → σ) :
    FieldCodec σ where
  name := name
  absence := absence
  encode s := some (c.encode (get s))
  read m room d s := (c.read m room d).map fun a => set a s

/-- A field that is left out where its value is absent. -/
def sparseField (name : String) (c : Codec α) (get : σ → Option α) (set : Option α → σ → σ) :
    FieldCodec σ where
  name := name
  absence := .optional
  encode s := (get s).map c.encode
  read m room d s := ((option c).read m room d).map fun a => set a s

/-- The members that fields write. -/
def encodeFields (fields : List (FieldCodec σ)) (s : σ) : List (String × Json) :=
  fields.filterMap fun f => (f.encode s).map fun v => (f.name, v)

/-- The first field that must be there and is not among the keys seen. -/
def missing (fields : List (FieldCodec σ)) (seen : List String) : Except Fault Unit :=
  if fields.any fun f => f.absence = .required && !seen.contains f.name then
    .error Mismatch.missingField.fault
  else .ok ()

/-- Reads the members of an object into a record: a member of no field is passed over,
and a field may be there once. -/
def readMembers (fields : List (FieldCodec σ)) (m : Manner) (room : Nat) :
    List (Except Fault String × Draft) → List String → σ → Except Fault (List String × σ)
  | [], seen, s => .ok (seen, s)
  | (key, d) :: rest, seen, s => do
    let key ← key
    match fields.find? (·.name == key) with
    | none =>
      if m = .text then d.pass
      readMembers fields m room rest seen s
    | some f =>
      if seen.contains key then throw Mismatch.duplicateField.fault
      let s ← (f.read m room d s).mapError (Fault.below key)
      readMembers fields m room rest (key :: seen) s

/-- Reads the elements of an array into a record, field by field, and gives back those
that are left. -/
def readItems (m : Manner) (room : Nat) (ending : Ending) :
    Nat → List (FieldCodec σ) → List Draft → σ → Except Fault (List Draft × σ)
  | _, [], items, s => .ok (items, s)
  | n, f :: fields, [], s => do
    ending.more
    if f.absence = .defaulted then readItems m room ending (n + 1) fields [] s
    else throw Mismatch.invalidLength.fault
  | n, f :: fields, d :: items, s => do
    let s ← (f.read m room d s).mapError (Fault.below (Text.showNat n))
    readItems m room ending (n + 1) fields items s

/-- What is wrong with elements beyond the last field. -/
def surplus (m : Manner) (items : List Draft) (ending : Ending) : Except Fault Unit :=
  match m with
  | .text => if items.isEmpty then ending.done else .error .malformed
  | .layered => .ok ()
  | .setAside => if items.isEmpty then .ok () else .error Mismatch.invalidLength.fault

/-- A record of several fields, read into a blank one. -/
def record (blank : σ) (fields : List (FieldCodec σ)) : Codec σ where
  encode s := .obj (encodeFields fields s)
  read m room
    | .obj members ending => descend room fun room => do
      let (seen, s) ← readMembers fields m room members [] blank
      ending.more
      missing fields seen
      return s
    | .keyless d => descend room fun _ => .error d.noKey
    | .arr items ending => descend room fun room => do
      let (items, s) ← readItems m room ending 0 fields items blank
      surplus m items ending
      return s
    | d => .error d.unexpected

/-- Reads the members of an object that belong to a record's own fields, and sets the
others aside; in a text these must be values of some kind. -/
def readOwn (fields : List (FieldCodec σ)) (m : Manner) (room : Nat) :
    List (Except Fault String × Draft) → List String → σ →
      Except Fault (List (Except Fault String × Draft) × List String × σ)
  | [], seen, s => .ok ([], seen, s)
  | (key, d) :: rest, seen, s => do
    let key ← key
    match fields.find? (·.name == key) with
    | none =>
      if m = .text then discard (d.toJson room)
      let (others, seen, s) ← readOwn fields m room rest seen s
      return ((.ok key, d) :: others, seen, s)
    | some f =>
      if seen.contains key then throw Mismatch.duplicateField.fault
      let s ← (f.read m room d s).mapError (Fault.below key)
      readOwn fields m room rest (key :: seen) s

/-- A record whose object also holds the members of another, which are set aside until
its own have been read. Where in the shared part something is wrong is not told. -/
def sharing (blank : σ) (shared : Codec τ) (get : σ → τ) (set : τ → σ → σ)
    (fields : List (FieldCodec σ)) : Codec σ where
  encode s := .obj ((shared.encode (get s)).members ++ encodeFields fields s)
  read m room
    | .obj members ending => descend room fun room => do
      let (others, seen, s) ← readOwn fields m room members [] blank
      ending.more
      missing fields seen
      let t ← (shared.read .setAside (room + 1) (.obj others .closed)).mapError Fault.withoutPath
      return set t s
    | .keyless d => descend room fun _ => .error d.noKey
    | d => .error d.unexpected

/-! ### Texts -/

/-- How many levels of arrays and objects a text may have. -/
def levels : Nat := 127

/-- The value of a whole text. -/
def ofText (c : Codec α) (s : String) : Except Fault α := do
  let (d, rest) := Draft.ofTokens (Token.ofText s.toList)
  let a ← c.read .text levels d
  if rest.isEmpty then .ok a else .error .malformed

/-- A value's text. -/
def toText (c : Codec α) (a : α) : String := (c.encode a).toText

/-- The value of a JSON value. -/
def ofJson (c : Codec α) (v : Json) : Except Fault α := c.read .text levels (Draft.ofJson v)

end Codec

/-- The JSON value of a whole text. -/
def ofText (s : String) : Except Fault Json := Codec.any.ofText s

end Gatehouse.Json
