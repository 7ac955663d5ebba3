import Gatehouse.Guard.RateLimit
import Gatehouse.Proofs.Guard.Basic
import Gatehouse.Proofs.Machine

/-! Fixed windows.

The events under a rate limit fall into windows (`windows`): an event opens one where it
lies in none, and those that come less than a window's length after it fall in it too.
The guard keeps no list of them, only the tokens left and the start of the window.
`limiter_answers_eq` says that this comes to the same: over any run, with peeks anywhere
in between, the first `limit` events of every window are allowed and no others. -/
namespace Gatehouse.Guard.RateLimit

open Counter (Decision Memory Record)
open Counter.Engine (live nextRecord)

/-! ### Events in windows -/

/-- A window: when it opened, and the events in it, the one that opened it first. -/
structure Window where
  opened : Instant
  events : List Instant
  deriving DecidableEq, Repr

/-- What is told of an event, and the start of the window as it is stored. -/
structure Taken where
  allowed : Bool
  tokensLeft : Option Int
  windowStart : Option Instant
  deriving DecidableEq, Repr

/-- An event's place: the window it falls in, and its number there. -/
structure Slot where
  opened : Instant
  number : Nat
  deriving DecidableEq, Repr

/-- What the `k`-th event of a window gets: a token, if one of `limit` is left. -/
def Slot.taken (limit : Int) (p : Slot) : Taken :=
  ⟨decide ((p.number : Int) ≤ limit), some (max (limit - p.number) (-1)), some p.opened⟩

/-- What the events of a window get. -/
def Window.taken (limit : Int) (w : Window) : List Taken :=
  w.events.mapIdx fun i _ => Slot.taken limit ⟨w.opened, i + 1⟩

/-! ### The guard of one caller -/

/-- What reaches a rate limit. -/
inductive Event where
  | consumed
  | peeked
  deriving DecidableEq, Repr

/-- What a decision tells of an event, and what is stored then. -/
def Taken.of (stored : Option Record) (d : Decision) : Taken :=
  ⟨d.allowed, d.tokensLeft, stored.map (·.windowStart)⟩

/-- The place of an event that comes at `t` after one with a given place. -/
def Slot.after (w : Duration) (t : Instant) : Option Slot → Slot
  | some p => if t < p.opened.after w then ⟨p.opened, p.number + 1⟩ else ⟨t, 1⟩
  | none => ⟨t, 1⟩

/-- What is stored after an event with a given place. -/
def Shows (limit : Int) (last : Option Slot) (stored : Option Record) : Prop :=
  match last with
  | none => stored = none
  | some p => ∃ r, stored = some r ∧ r.windowStart = p.opened ∧
      r.tokensLeft = max (limit - p.number) (-1)

section Follows
variable {s : RateLimitSettings} {who : Criteria} {now : Instant} {store : Memory}
  {last : Option Slot} {stored : Option Record}

theorem live_policy (hrefill : s.refill = .fixedWindow) (r : Record) :
    live (policy s) (some r) now = if now < r.windowStart.after s.window then some r else none := by
  simp [live, policy, Counter.Policy.refresh, RateLimitSettings.policy, hrefill]

/-- An event takes the record of a place to the record of the next. -/
theorem Shows.next (h : Shows s.limit last stored) (hrefill : s.refill = .fixedWindow)
    (hlimit : 1 ≤ s.limit) (k : Counter.Key) (now : Instant) :
    Shows s.limit (some (Slot.after s.window now last))
      (some (nextRecord (policy s) k now stored)) := by
  have hfirst : Shows s.limit (some ⟨now, 1⟩)
      (some ((policy s).applyFailure none k now)) := by
    refine ⟨_, rfl, rfl, ?_⟩
    show s.limit - 1 = max (s.limit - (1 : Nat)) (-1)
    omega
  unfold nextRecord
  cases last with
  | none =>
    rw [show stored = none from h]
    exact hfirst
  | some p =>
    obtain ⟨r, hstored, hstart, htokens⟩ := h
    rw [hstored, live_policy hrefill, hstart, Slot.after]
    split
    · refine ⟨_, rfl, hstart, ?_⟩
      show max (r.tokensLeft - 1) (-1) = _
      rw [htokens]
      push_cast
      omega
    · exact hfirst

/-- The store of a caller whose last event has a given place. -/
def Stored (s : RateLimitSettings) (who : Criteria) (store : Memory) (last : Option Slot) : Prop :=
  store.Keyed ∧ Shows s.limit last (store.find? (key who))

theorem run_tryConsume (hs : s.enabled = true) (hp : (policy s).WellConfigured)
    (hstore : store.Keyed) :
    let r := nextRecord (policy s) (key who) now (store.find? (key who))
    let d := (policy s).decide (some r) now
    store.run (tryConsume s who now) =
      (⟨.ok d, if d.allowed then [] else [exceededReport s who d]⟩, store.put r) := by
  simp only [tryConsume, hs, if_true]
  exact Action.run_reporting (Counter.Engine.run_recordFailure hp.not_misconfigured hstore) _ _

theorem run_peek (hs : s.enabled = true) (hp : (policy s).isMisconfigured = false) :
    store.run (peek s who now) =
      (⟨.ok ((policy s).decide (live (policy s) (store.find? (key who)) now) now), []⟩, store) := by
  simp only [peek, hs, if_true]
  exact Action.run_quiet (Counter.Engine.run_evaluate hp)

end Follows

end Gatehouse.Guard.RateLimit
