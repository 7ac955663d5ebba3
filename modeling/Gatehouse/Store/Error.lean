/-! What can go wrong with a call to a store. -/
namespace Gatehouse.Store

/-- What a call does. -/
inductive Operation where
  | find
  | list
  | create
  | update
  | delete
  | connect
  deriving DecidableEq, Repr, Inhabited

namespace Operation

/-- The name of an operation. -/
def name : Operation → String
  | find => "find"
  | list => "list"
  | create => "create"
  | update => "update"
  | delete => "delete"
  | connect => "connect"

/-- All operations. -/
def all : List Operation := [find, list, create, update, delete, connect]

end Operation

/-- Kinds of failure. -/
inductive ErrorKind where
  /-- A record to be replaced is not there. -/
  | notFound
  /-- A record to be created is there already. -/
  | alreadyExists
  /-- Several writers kept getting in each other's way. -/
  | conflict
  | connectionFailed
  | timeout
  | serialization
  | backend
  deriving DecidableEq, Repr, Inhabited

namespace ErrorKind

/-- The name of a kind of failure. -/
def name : ErrorKind → String
  | notFound => "not_found"
  | alreadyExists => "already_exists"
  | conflict => "conflict"
  | connectionFailed => "connection_failed"
  | timeout => "timeout"
  | serialization => "serialization_error"
  | backend => "backend_error"

/-- All kinds of failure. -/
def all : List ErrorKind :=
  [notFound, alreadyExists, conflict, connectionFailed, timeout, serialization, backend]

end ErrorKind

/-- A failed call: what it did, how it failed, and perhaps of which record. -/
structure Error where
  operation : Operation
  kind : ErrorKind
  detail : String
  entityType : Option String := none
  entityId : Option String := none
  deriving DecidableEq, Repr, Inhabited

namespace Error

/-- Names the record that a call failed on. -/
def withEntity (e : Error) (type id : String) : Error :=
  { e with entityType := some type, entityId := some id }

/-- Names another operation as the one that failed. -/
def withOperation (e : Error) (operation : Operation) : Error := { e with operation }

/-- A record to be replaced or removed is not there. -/
def notFound (operation : Operation) (type id : String) : Error :=
  { operation, kind := .notFound, detail := "Record not found", entityType := type, entityId := id }

/-- A record to be created is there already. -/
def alreadyExists (type id : String) : Error where
  operation := .create
  kind := .alreadyExists
  detail := "Record already exists"
  entityType := type
  entityId := id

/-- Several writers kept getting in each other's way. -/
def conflict (operation : Operation) (detail : String) : Error :=
  { operation, kind := .conflict, detail }

/-- The store cannot be reached. -/
def connectionFailed (detail : String) : Error :=
  { operation := .connect, kind := .connectionFailed, detail }

/-- A call took too long. -/
def timeout (operation : Operation) (detail : String) : Error :=
  { operation, kind := .timeout, detail }

/-- A stored value cannot be written or read. -/
def serialization (operation : Operation) (detail : String) : Error :=
  { operation, kind := .serialization, detail }

/-- Anything else that a store finds wrong. -/
def backend (operation : Operation) (detail : String) : Error :=
  { operation, kind := .backend, detail }

/-- Whether another writer was first. -/
def isConflict (e : Error) : Bool := e.kind == .alreadyExists

/-- Whether the record was gone. -/
def isNotFound (e : Error) : Bool := e.kind == .notFound

/-- Whether the call may work when it is tried again. -/
def isRetriable (e : Error) : Bool := e.kind == .connectionFailed || e.kind == .timeout

/-- The failure in words, with the record where it is known. -/
def message (e : Error) : String :=
  let words := "Store " ++ e.kind.name ++ " error during " ++ e.operation.name ++ ": " ++ e.detail
  match e.entityType, e.entityId with
  | some type, some id => words ++ " [" ++ type ++ ": " ++ id ++ "]"
  | _, _ => words

end Error

end Gatehouse.Store
