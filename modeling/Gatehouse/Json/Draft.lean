import Gatehouse.Json.Token
import Gatehouse.Json.Value
import Gatehouse.Table

/-! Drafts: what a text says, as far as it says anything.

A draft is the tree of values that a text begins, with leaves where it stops being
JSON. A reader that wants a value of some type walks the draft from the left and
finds the first thing that is wrong with it, be it that the text breaks off there or
that something of another type stands there; what it does not want it passes over
(`Draft.pass`), and there only the form matters. -/
namespace Gatehouse.Json

/-- How the elements of an array or the members of an object end: with the bracket, at
something that is neither bracket nor comma, or after a comma. -/
inductive Ending where
  | closed
  | stopped (fault : Fault)
  | afterComma (fault : Fault)
  deriving DecidableEq, Repr, Inhabited

/-- The tree of a text, with leaves where the text is no JSON. -/
inductive Draft where
  | null
  | bool (value : Bool)
  | int (value : Int)
  | float (value : Float)
  /-- A number too large to be held. -/
  | excess
  | str (value : Except Fault String)
  /-- A single character, from a source that tells characters from texts. -/
  | letter (value : Char)
  | arr (items : List Draft) (ending : Ending)
  | obj (members : List (Except Fault String × Draft)) (ending : Ending)
  /-- An object in which something else stands where the first key should. -/
  | keyless (instead : Draft)
  /-- The end of the text. -/
  | nothing
  /-- No value: what is wrong where a value is wanted, and where any form would do. -/
  | broken (strict lenient : Fault)
  deriving Inhabited

namespace Draft

/-- What is wrong where punctuation should stand and a text goes on so. -/
def stop : List Token → Fault
  | [] => .truncated
  | _ => .malformed

/-- The draft of a token that stands where a value should. -/
def ofToken : Token → Draft
  | .null => null
  | .bool b => bool b
  | .int n => int n
  | .float x => float x
  | .excess => excess
  | .str s => str s
  | .unclosed strict lenient => broken strict lenient
  | .junk strict lenient => broken strict lenient
  | _ => broken .malformed .malformed

/-- Whether a draft breaks off within, so that nothing can be told of what follows. -/
def breaksOff : Draft → Bool
  | arr _ e => e != .closed
  | obj _ e => e != .closed
  | keyless _ => true
  | nothing => true
  | broken .. => true
  | _ => false

mutual

/-- The draft of the value that tokens begin with, and the tokens after it. -/
def value : Nat → List Token → Draft × List Token
  | 0, _ => (nothing, [])
  | fuel + 1, ts =>
    match ts with
    | [] => (nothing, [])
    | .openArray :: .closeArray :: rest => (arr [] .closed, rest)
    | .openArray :: rest =>
      let (items, ending, rest) := elements fuel rest
      (arr items ending, rest)
    | .openObject :: .closeObject :: rest => (obj [] .closed, rest)
    | .openObject :: .str key :: rest =>
      let (ms, ending, rest) := fields fuel key rest
      (obj ms ending, rest)
    | .openObject :: .unclosed strict lenient :: _ =>
      (obj [(.error strict, broken lenient lenient)] (.stopped .malformed), [])
    | .openObject :: rest => (keyless (value fuel rest).1, [])
    | t :: rest => (ofToken t, rest)

/-- The elements of an array from one on, how they end, and the tokens after it. -/
def elements : Nat → List Token → List Draft × Ending × List Token
  | 0, _ => ([], .stopped .truncated, [])
  | fuel + 1, ts =>
    let (item, rest) := value fuel ts
    if item.breaksOff then ([item], .stopped .malformed, [])
    else
      match rest with
      | .closeArray :: rest => ([item], .closed, rest)
      | [.comma] => ([item], .afterComma .truncated, [])
      | .comma :: .closeArray :: _ => ([item], .afterComma .malformed, [])
      | .comma :: rest =>
        let (items, ending, rest) := elements fuel rest
        (item :: items, ending, rest)
      | rest => ([item], .stopped (stop rest), [])

/-- The members of an object from one on, of which the key has been read, how they
end, and the tokens after it. -/
def fields : Nat → Except Fault String → List Token →
    List (Except Fault String × Draft) × Ending × List Token
  | 0, _, _ => ([], .stopped .truncated, [])
  | fuel + 1, key, ts =>
    match ts with
    | .colon :: ts =>
      let (v, rest) := value fuel ts
      if v.breaksOff then ([(key, v)], .stopped .malformed, [])
      else
        match rest with
        | .closeObject :: rest => ([(key, v)], .closed, rest)
        | .comma :: .str key' :: rest =>
          let (ms, ending, rest) := fields fuel key' rest
          ((key, v) :: ms, ending, rest)
        | .comma :: .unclosed strict lenient :: _ =>
          ([(key, v), (.error strict, broken lenient lenient)], .stopped .malformed, [])
        | .comma :: rest => ([(key, v)], .afterComma (stop rest), [])
        | rest => ([(key, v)], .stopped (stop rest), [])
    | [] => ([(key, nothing)], .stopped .truncated, [])
    | _ => ([(key, broken .malformed .malformed)], .stopped .malformed, [])

end

/-- The draft of a text's tokens, and the tokens that follow its value. Going down a
level takes two steps and at least one token. -/
def ofTokens (ts : List Token) : Draft × List Token := value (2 * ts.length + 1) ts

mutual

/-- A value as a draft that never breaks off. -/
def ofJson : Json → Draft
  | .null => null
  | .bool b => bool b
  | .int n => int n
  | .float x => float x
  | .str s => str (.ok s)
  | .arr items => arr (ofItems items) .closed
  | .obj members => obj (ofMembers members) .closed

/-- Values as drafts. -/
def ofItems : List Json → List Draft
  | [] => []
  | v :: rest => ofJson v :: ofItems rest

/-- Members as drafts. -/
def ofMembers : List (String × Json) → List (Except Fault String × Draft)
  | [] => []
  | (key, v) :: rest => (.ok key, ofJson v) :: ofMembers rest

end

/-- What is wrong with a draft that stands where something else is wanted. -/
def unexpected : Draft → Fault
  | excess => .malformed
  | str (.error f) => f
  | keyless _ => .mismatch .invalidType []
  | nothing => .truncated
  | broken strict _ => strict
  | _ => .mismatch .invalidType []

/-- What is wrong where a first key is wanted and something else stands. -/
def noKey : Draft → Fault
  | nothing => .truncated
  | _ => .malformed

end Draft

namespace Ending

/-- What is wrong with an ending where a further element or member is looked for. -/
def more : Ending → Except Fault Unit
  | closed => .ok ()
  | stopped f => .error f
  | afterComma f => .error f

/-- What is wrong with an ending where nothing more is wanted. -/
def done : Ending → Except Fault Unit
  | closed => .ok ()
  | stopped f => .error f
  | afterComma _ => .error .malformed

end Ending

namespace Draft

/-! ### Readers without a type -/

mutual

/-- Passes over a draft: only its form matters, not what its texts and numbers say. -/
def pass : Draft → Except Fault Unit
  | arr items ending => do passItems items; ending.more
  | obj members ending => do passMembers members; ending.more
  | keyless d => .error d.noKey
  | nothing => .error .truncated
  | broken _ lenient => .error lenient
  | _ => .ok ()

/-- Passes over elements. -/
def passItems : List Draft → Except Fault Unit
  | [] => .ok ()
  | d :: rest => do d.pass; passItems rest

/-- Passes over members. -/
def passMembers : List (Except Fault String × Draft) → Except Fault Unit
  | [] => .ok ()
  | (_, d) :: rest => do d.pass; passMembers rest

end

mutual

/-- The JSON value of a draft with at most `room` levels of arrays and objects; of
members with one key the last stands. -/
def toJson : Nat → Draft → Except Fault Json
  | _, null => .ok .null
  | _, bool b => .ok (.bool b)
  | _, int n => .ok (.int n)
  | _, float x => .ok (.float x)
  | _, letter c => .ok (.str c.toString)
  | _, str s => s.map .str
  | 0, arr .. => .error .malformed
  | room + 1, arr items ending => do
    let vs ← toItems room items
    ending.more
    return .arr vs
  | 0, obj .. => .error .malformed
  | room + 1, obj members ending => do
    let ms ← toMembers room members []
    ending.more
    return .obj ms
  | 0, keyless _ => .error .malformed
  | _, keyless d => .error d.noKey
  | _, excess => .error .malformed
  | _, nothing => .error .truncated
  | _, broken strict _ => .error strict

/-- The values of elements. -/
def toItems (room : Nat) : List Draft → Except Fault (List Json)
  | [] => .ok []
  | d :: rest => do
    let v ← d.toJson room
    return v :: (← toItems room rest)

/-- Puts the values of members among members already read. -/
def toMembers (room : Nat) : List (Except Fault String × Draft) → List (String × Json) →
    Except Fault (List (String × Json))
  | [], ms => .ok ms
  | (key, d) :: rest, ms => do
    let key ← key
    let v ← d.toJson room
    toMembers room rest (Table.place key v ms)

end

end Draft

end Gatehouse.Json
