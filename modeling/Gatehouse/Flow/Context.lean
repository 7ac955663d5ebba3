import Gatehouse.Json.Value
import Gatehouse.Table
import Gatehouse.Time.Instant

/-! Contexts: what the steps of one login flow share. Every writer makes the next version;
version 0 has never been written. -/
namespace Gatehouse.Flow

/-- The largest version. -/
def maxVersion : Nat := 18446744073709551615

/-- The state of a flow. -/
structure Context where
  transactionId : String
  version : Nat
  /-- Attributes by name. -/
  data : Table Json := .empty
  /-- When this version was written. -/
  createdAt : Instant
  /-- When it may be dropped. -/
  expireAt : Instant
  deriving Inhabited

namespace Context

/-- A context that was never written. -/
def fresh (transactionId : String) (now : Instant) : Context where
  transactionId := transactionId
  version := 0
  createdAt := now
  expireAt := now

/-- Whether a context was never written. -/
def isFresh (c : Context) : Bool := c.version == 0

/-- An attribute. -/
def get? (c : Context) (name : String) : Option Json := c.data.find? name

/-- Sets an attribute. -/
def insert (c : Context) (name : String) (value : Json) : Context :=
  { c with data := c.data.insert name value }

/-- The next version of a context, written now and kept for a while. -/
def next (c : Context) (now : Instant) (ttl : Duration) : Context :=
  { c with
    version := min (c.version + 1) maxVersion
    createdAt := now
    expireAt := now.after ttl }

end Context

end Gatehouse.Flow
