import Gatehouse.Redis.Client

/-! The server as it ought to be: texts by key, each with the time at which it is gone.
Every command is one step. -/
namespace Gatehouse.Redis

/-- A value, and the reading of the clock from which on it is gone. -/
structure Held where
  value : String
  goneAt : Int
  deriving DecidableEq, Repr, Inhabited

/-- What the server holds. -/
structure Server where
  entries : Table Held := .empty
  deriving DecidableEq, Repr, Inhabited

namespace Server

/-- What is under a key at an instant. -/
def get? (s : Server) (now : Instant) (key : String) : Option String :=
  ((s.entries.find? key).filter fun h => now.reading < h.goneAt).map (·.value)

/-- Answers a command at an instant. -/
def answer (now : Instant) : (c : Command) → StateM Server c.Answer
  | .get key, s => (.ok (s.get? now key), s)
  | .set key value millis condition, s =>
    let held : Held := ⟨value, now.reading + millis * Duration.nanosPerMilli⟩
    let isTaken := (s.get? now key).isSome
    let applies := match condition with
      | .always => true
      | .free => !isTaken
      | .taken => isTaken
    if applies then (.ok true, ⟨s.entries.insert key held⟩) else (.ok false, s)
  | .delete key, s => (.ok (if (s.get? now key).isSome then 1 else 0), ⟨s.entries.erase key⟩)

end Server

end Gatehouse.Redis
