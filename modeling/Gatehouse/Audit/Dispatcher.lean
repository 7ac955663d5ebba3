import Gatehouse.Audit.Event
import Gatehouse.Settings.Config

/-! The dispatcher: a bounded queue between those who report and the sink that events are
written to. Reporting never waits: a report that finds the queue full is dropped. The
worker takes events in order and hands each to the sink once, whether the sink takes it
or not. -/
namespace Gatehouse.Audit

/-- A dispatcher of events of a type, as seen from outside. -/
structure Dispatcher (ε : Type) where
  /-- How many events may wait; `none` where events are discarded. -/
  capacity : Option Nat
  /-- Events that wait, oldest first. -/
  queue : List ε := []
  /-- Events handed to the sink, oldest first. -/
  handed : List ε := []
  deriving Inhabited

namespace Dispatcher
variable {ε : Type}

/-- A dispatcher that discards every event. -/
def disabled : Dispatcher ε := { capacity := none }

/-- The dispatcher of a configuration: at least one event may wait. -/
def ofConfig (c : AuditConfig) : Dispatcher ε :=
  if c.enabled then { capacity := some (max 1 c.queueCapacity) } else disabled

/-- Whether events reach a sink. -/
def isEnabled (d : Dispatcher ε) : Bool := d.capacity.isSome

/-- Whether a report would be taken. -/
def hasRoom (d : Dispatcher ε) : Bool := d.capacity.any (d.queue.length < ·)

/-- Queues an event, or drops it. -/
def report (d : Dispatcher ε) (e : ε) : Dispatcher ε :=
  if d.hasRoom then { d with queue := d.queue ++ [e] } else d

/-- Hands the oldest event to the sink. -/
def work (d : Dispatcher ε) : Dispatcher ε :=
  match d.queue with
  | [] => d
  | e :: rest => { d with queue := rest, handed := d.handed ++ [e] }

/-- Hands all events to the sink. -/
def drain (d : Dispatcher ε) : Dispatcher ε :=
  { d with queue := [], handed := d.handed ++ d.queue }

/-- The events that a sink has which fails on some of its writes, numbered from 0. -/
def delivered (d : Dispatcher ε) (fails : Nat → Bool) : List ε :=
  (d.handed.zipIdx.filter fun e => !fails e.2).map (·.1)

end Dispatcher

end Gatehouse.Audit
