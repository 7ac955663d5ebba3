import Gatehouse.Counter.Store
import Gatehouse.Counter.Wire
import Gatehouse.Flow.Store
import Gatehouse.Flow.Wire

/-! Counters and flows in a key-value server.

A record or context is stored as its JSON text, with a time to live that ends when it
expires. A counter is created only where its key is free and updated only where it is
taken, which the server decides in one step; of a flow only the context last written is
kept. -/
namespace Gatehouse.Redis

/-- Whether a key must be free or taken for a value to be set. -/
inductive Condition where
  | always
  | free
  | taken
  deriving DecidableEq, Repr, Inhabited

/-- What the server is asked. -/
inductive Command where
  | get (key : String)
  /-- Sets a value that lives for so many milliseconds. -/
  | set (key value : String) (millis : Nat) (condition : Condition)
  | delete (key : String)
  deriving DecidableEq, Repr

namespace Command

/-- What the answer to a command tells: a value, whether one was set, or how many keys
were removed. -/
abbrev Result : Command → Type
  | get _ => Option String
  | set .. => Bool
  | delete _ => Int

/-- Why a command has no result: the server cannot be reached, or something else. -/
inductive Problem where
  | unreachable (text : String)
  | timeout (text : String)
  | other (text : String)
  deriving DecidableEq, Repr, Inhabited

/-- The answer to a command. -/
abbrev Answer (c : Command) : Type := Except Problem c.Result

/-- The words of a command as they are sent. -/
def words : Command → List String
  | get key => ["GET", key]
  | set key value millis condition =>
    ["SET", key, value, "PX", Text.showNat millis] ++
      match condition with
      | .always => []
      | .free => ["NX"]
      | .taken => ["XX"]
  | delete key => ["DEL", key]

end Command

/-- Commands, up to a result. -/
abbrev Calls (α : Type) : Type := Store.Program Command Command.Answer α

/-- A failed command as a failed call. -/
def failed (operation : Store.Operation) : Command.Problem → Store.Error
  | .unreachable text => { operation, kind := .connectionFailed, detail := text }
  | .timeout text => .timeout operation text
  | .other text => .backend operation text

/-- The key of a counter. -/
def counterKey (space : String) (k : Counter.Key) : String := space ++ ":counter:" ++ k.storageKey

/-- The key of a transaction. -/
def contextKey (space transaction : String) : String := space ++ ":context:" ++ transaction

/-- The milliseconds that a value lives: at least one. -/
def timeToLive (expireAt now : Instant) : Nat := (max (expireAt.since now).millis 1).toNat

/-- What a stored text says, if there is one. -/
def decoded {α : Type} (c : Json.Codec α) : Option String → Except Store.Error (Option α)
  | none => .ok none
  | some s =>
    match c.ofText s with
    | .ok a => .ok (some a)
    | .error _ => .error (.serialization .find "Failed to decode stored value")

/-- Reads a value. -/
def find {α : Type} (c : Json.Codec α) (key : String) : Calls (Except Store.Error (Option α)) :=
  .ask (.get key) fun
    | .error p => .done (.error (failed .find p))
    | .ok text => .done (decoded c text)

/-- Removes a value; tells whether there was one. -/
def erase (key : String) : Calls (Except Store.Error Bool) :=
  .ask (.delete key) fun
    | .error p => .done (.error (failed .delete p))
    | .ok removed => .done (.ok (decide (0 < removed)))

/-- Answers a request about counters. -/
def counter (space : String) (now : Instant) : (r : Counter.Request) → Calls r.Answer
  | .find k => find Counter.Record.codec (counterKey space k)
  | .write mode r =>
    let key := counterKey space r.key
    let condition : Condition := match mode with
      | .create => .free
      | .update => .taken
    let operation := (Counter.Request.write mode r).operation
    .ask (.set key (Counter.Record.codec.toText r) (timeToLive r.expireAt now) condition) fun
      | .error p => .done (.error (failed operation p))
      | .ok true => .done (.ok r)
      | .ok false => .done (.error (match mode with
        | .create => .alreadyExists Counter.entityType key
        | .update => .notFound .update Counter.entityType key))
  | .delete k => erase (counterKey space k)

/-- Answers a request about flows; nobody waits for it. -/
def flow (space : String) (now : Instant) : (r : Flow.Request) → Calls r.Answer
  | .findLast t => find Flow.Context.codec (contextKey space t)
  | .create c =>
    .ask (.set (contextKey space c.transactionId) (Flow.Context.codec.toText c)
        (timeToLive c.expireAt now) .always) fun
      | .error p => .done (.error (failed .create p))
      | .ok _ => .done (.ok c)
  | .delete t => erase (contextKey space t)
  | .pause _ => .done ()

end Gatehouse.Redis
