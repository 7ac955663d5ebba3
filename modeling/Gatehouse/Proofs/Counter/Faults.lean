import Gatehouse.Counter.Scripted
import Gatehouse.Proofs.Counter.Memory
import Gatehouse.Proofs.Store.Turns

/-! Calls to a store in memory on the turns of an endless script.

`runOn` runs calls as the store under a script of queues does (`Scripted.run_eq`), and
keeps of every call what it found and what it left. On its turn a call may not get to the
store at all, or another writer may come first. The effect of a write is the record that
the write itself puts in the store (`Call.wrote`); what another writer did first is part
of what it found. A find has no effect (`answerOn_find`), and a write has one exactly when
it succeeds (`answerOn_write`). -/
namespace Gatehouse.Counter

open Store (Turn Turns)

/-- The record that the store puts when it serves a request. -/
def Request.puts : Request → Memory → Option Record
  | .write .create r, s => if (s.find? r.key).isSome then none else some r
  | .write .update r, s => if (s.find? r.key).isSome then some r else none
  | _, _ => none

/-- The store that a request meets on its turn: another writer may have come first. -/
def Memory.onTurn (turn : Turn) (r : Request) (s : Memory) : Memory :=
  if turn = .raced then raced r s else s

theorem Memory.onTurn_find (turn : Turn) (k : Key) (s : Memory) : onTurn turn (.find k) s = s := by
  rw [onTurn]
  split <;> rfl

/-- One call: its turn, the store before and after it, and how it failed, if it did. -/
structure Call where
  request : Request
  turn : Turn
  before : Memory
  error : Option Store.Error
  after : Memory

namespace Call

/-- How an answer tells of a failure. -/
def failure {β : Type} : Except Store.Error β → Option Store.Error
  | .error e => some e
  | .ok _ => none

/-- Whether a call gets to the store on its turn. -/
def arrives (limit : Option Nat) : Turn → Bool
  | .slow millis => (Store.exceeds limit millis).isNone
  | .hangs => false
  | .fails _ => false
  | _ => true

/-- The store that a call finds, after what another writer may have done first. -/
def found (c : Call) : Memory := Memory.onTurn c.turn c.request c.before

/-- The record that the call itself put in the store. -/
def wrote (limit : Option Nat) (c : Call) : Option Record :=
  if arrives limit c.turn then c.request.puts c.found else none

/-- A write that failed because another writer had come first. -/
def conflicted : Call → Bool
  | { request := .write _ _, error := some e, .. } => e.isConflict || e.isNotFound
  | _ => false

/-- What is known of every find and every write. -/
structure Accounted (limit : Option Nat) (c : Call) : Prop where
  /-- It left what it found, and the record that it put there itself. -/
  after : c.after = (c.wrote limit).elim c.found c.found.put
  /-- If it failed, its error names what it did. -/
  operation : ∀ e ∈ c.error, e.operation = c.request.operation

theorem wrote_find {c : Call} {k : Key} (h : c.request = .find k) (limit : Option Nat) :
    c.wrote limit = none := by
  rw [wrote, h]
  split <;> rfl

theorem found_find {c : Call} {k : Key} (h : c.request = .find k) : c.found = c.before := by
  rw [found, h, Memory.onTurn_find]

end Call

/-- What calls come to: their result, the store that is left, and the calls, first to last. -/
structure Outcome (α : Type) where
  result : α
  store : Memory
  calls : List Call

/-- Runs calls on the turns of an endless script; `none` where a call is never answered. -/
def runOn {α : Type} (limit : Option Nat) : Calls α → Memory → Turns → Option (Outcome α)
  | .done a, s, _ => some ⟨a, s, []⟩
  | .ask r next, s, turns =>
    match s.answerOn limit (turns r.operation.name 0) r with
    | none => none
    | some (x, s') =>
      (runOn limit (next x) s' (turns.after r.operation.name)).map fun o =>
        { o with calls := ⟨r, turns r.operation.name 0, s, Call.failure x, s'⟩ :: o.calls }

theorem runOn_ask {α : Type} {limit : Option Nat} {r : Request} {next : r.Answer → Calls α}
    {s s' : Memory} {turns : Turns} {x : r.Answer} {o : Outcome α}
    (h : s.answerOn limit (turns r.operation.name 0) r = some (x, s'))
    (ho : runOn limit (next x) s' (turns.after r.operation.name) = some o) :
    runOn limit (.ask r next) s turns = some
      { o with calls := ⟨r, turns r.operation.name 0, s, Call.failure x, s'⟩ :: o.calls } := by
  rw [runOn, h]
  show (runOn limit (next x) s' _).map _ = _
  rw [ho]
  rfl

/-- Calls that take one store to another: each begins with what the one before it left. -/
def Chained : Memory → List Call → Memory → Prop
  | s, [], s' => s = s'
  | s, c :: rest, s' => c.before = s ∧ Chained c.after rest s'

theorem runOn_chained {α : Type} {limit : Option Nat} {calls : Calls α} {s : Memory}
    {turns : Turns} {o : Outcome α} (h : runOn limit calls s turns = some o) : Chained s o.calls o.store := by
  induction calls generalizing s turns o with
  | done a =>
    cases h
    rfl
  | ask r next ih =>
    rw [runOn] at h
    split at h
    · cases h
    · obtain ⟨rest, hrest, rfl⟩ := Option.map_eq_some_iff.mp h
      exact ⟨rfl, ih _ hrest⟩

namespace Memory
variable {limit : Option Nat} {turn : Turn} {s s' : Memory}

/-! ### What can come of a call -/

/-- Where calls have a limit of time, or none hangs, every call is answered. -/
theorem answerOn_isSome {turns : Turns} (h : turns.Answered limit) (operation : String)
    (r : Request) (s : Memory) : ∃ x s', s.answerOn limit (turns operation 0) r = some (x, s') := by
  cases ht : turns operation 0 with
  | hangs =>
    cases hl : limit with
    | none => exact absurd ht (h hl operation 0)
    | some n => exact ⟨_, _, rfl⟩
  | slow millis =>
    simp only [answerOn]
    split <;> exact ⟨_, _, rfl⟩
  | missed => cases r <;> exact ⟨_, _, rfl⟩
  | served => exact ⟨_, _, rfl⟩
  | fails kind => exact ⟨_, _, rfl⟩
  | raced => exact ⟨_, _, rfl⟩
  | seen version => exact ⟨_, _, rfl⟩

theorem answer_operation (r : Request) (s : Memory) :
    ∀ e ∈ Call.failure (answer r s).1, e.operation = r.operation := by
  intro e he
  cases r with
  | find k => cases he
  | write mode r =>
    cases mode <;> simp only [answer] at he <;> split at he <;> cases he <;> rfl
  | delete k => cases he

/-- All that can come of a call. It does not get to the store, and fails; or it is answered
there; or it is a find that sees a store without records. -/
theorem answerOn_cases {r : Request} {x : r.Answer} (h : s.answerOn limit turn r = some (x, s')) :
    (Call.arrives limit turn = false ∧ s' = s ∧ ∃ e, x = .error e ∧ e.operation = r.operation) ∨
      (Call.arrives limit turn = true ∧ answer r (onTurn turn r s) = (x, s')) ∨
      (r.operation = .find ∧ s' = s ∧ x = (answer r {}).1) := by
  cases turn with
  | slow millis =>
    simp only [answerOn] at h
    split at h
    · next n hlate =>
      cases h
      exact .inl ⟨by simp [Call.arrives, hlate], rfl, _, rfl, rfl⟩
    · next hlate => exact .inr (.inl ⟨by simp [Call.arrives, hlate], Option.some.inj h⟩)
  | hangs =>
    cases limit <;> cases h
    exact .inl ⟨rfl, rfl, _, rfl, rfl⟩
  | fails kind =>
    cases h
    exact .inl ⟨rfl, rfl, _, rfl, rfl⟩
  | missed =>
    cases r with
    | find k =>
      cases h
      exact .inr (.inr ⟨rfl, rfl, rfl⟩)
    | write mode r => exact .inr (.inl ⟨rfl, Option.some.inj h⟩)
    | delete k => exact .inr (.inl ⟨rfl, Option.some.inj h⟩)
  | served => exact .inr (.inl ⟨rfl, Option.some.inj h⟩)
  | raced => exact .inr (.inl ⟨rfl, Option.some.inj h⟩)
  | seen version => exact .inr (.inl ⟨rfl, Option.some.inj h⟩)

/-- The error of a failed call names what the call did. -/
theorem answerOn_operation {r : Request} {x : r.Answer}
    (h : s.answerOn limit turn r = some (x, s')) :
    ∀ e ∈ Call.failure x, e.operation = r.operation := by
  rcases answerOn_cases h with ⟨_, _, e, rfl, he⟩ | ⟨_, hanswer⟩ | ⟨_, _, rfl⟩
  · intro e' he'
    cases he'
    exact he
  · have hoperation := answer_operation r (onTurn turn r s)
    rw [hanswer] at hoperation
    exact hoperation
  · exact answer_operation r {}

/-- A find changes nothing. What it sees is what is there, or nothing. -/
theorem answerOn_find {k : Key} {x : (Request.find k).Answer}
    (h : s.answerOn limit turn (.find k) = some (x, s')) :
    s' = s ∧
      ((∃ stored, x = .ok stored ∧ ∀ r ∈ stored, s.find? k = some r) ∨ ∃ e, x = .error e) := by
  rcases answerOn_cases h with ⟨_, hs, e, he, _⟩ | ⟨_, hanswer⟩ | ⟨_, hs, hx⟩
  · exact ⟨hs, .inr ⟨e, he⟩⟩
  · rw [onTurn_find] at hanswer
    cases hanswer
    exact ⟨rfl, .inl ⟨_, rfl, fun _ hr => hr⟩⟩
  · exact ⟨hs, .inl ⟨none, hx, fun _ hr => by cases hr⟩⟩

/-- What a write came to: it put its record on top of what it found, and succeeded, or it
failed and left what it found. -/
def WriteAnswered (limit : Option Nat) (turn : Turn) (s : Memory) (mode : Write) (r : Record)
    (x : Except Store.Error Record) (s' : Memory) : Prop :=
  let c : Call := ⟨.write mode r, turn, s, Call.failure x, s'⟩
  (x = .ok r ∧ c.wrote limit = some r ∧ s' = c.found.put r) ∨
    ∃ e, x = .error e ∧ c.wrote limit = none ∧ s' = c.found

section Write
variable {mode : Write} {r : Record}

/-- A write that does not get to the store. -/
theorem writeAnswered_lost (harrives : Call.arrives limit turn = false) (e : Store.Error) :
    WriteAnswered limit turn s mode r (.error e) s := by
  have hturn : turn ≠ .raced := by
    rintro rfl
    cases harrives
  simp [WriteAnswered, Call.wrote, Call.found, onTurn, harrives, hturn]

/-- A write that gets to the store is served there, or refused. -/
theorem writeAnswered_served {x : Except Store.Error Record}
    (harrives : Call.arrives limit turn = true)
    (h : answer (.write mode r) (onTurn turn (.write mode r) s) = (x, s')) :
    WriteAnswered limit turn s mode r x s' := by
  simp only [WriteAnswered, Call.wrote, Call.found, harrives, if_true]
  cases mode <;> simp only [answer, Request.puts] at h ⊢ <;> split at h <;> cases h <;>
    simp_all

/-- On any turn, a write succeeds exactly when it has its effect. -/
theorem answerOn_write {x : (Request.write mode r).Answer}
    (h : s.answerOn limit turn (.write mode r) = some (x, s')) :
    WriteAnswered limit turn s mode r x s' := by
  rcases answerOn_cases h with ⟨harrives, rfl, e, rfl, _⟩ | ⟨harrives, hanswer⟩ | ⟨hfind, _, _⟩
  · exact writeAnswered_lost harrives e
  · exact writeAnswered_served harrives hanswer
  · cases mode <;> cases hfind

end Write

/-- What another writer does leaves every record under its own key. -/
theorem Keyed.onTurn (hs : s.Keyed) (turn : Turn) (r : Request) : (onTurn turn r s).Keyed := by
  rw [Memory.onTurn]
  split
  · cases r with
    | find k => exact hs
    | write mode r =>
      cases mode <;> simp only [raced]
      · split
        · exact hs
        · exact hs.put r
      · exact hs.erase r.key
    | delete k => exact hs
  · exact hs

end Memory

/-! ### Scripts of queues -/

/-- What calls leave of a store with a script. -/
def Scripted.leave {α : Type} (w : Scripted) (o : Outcome α) : Scripted where
  store := o.store
  script := o.calls.foldl (fun script c => (script.draw c.request.operation.name).2) w.script
  log := (o.calls.map fun c => c.request.operation.name).reverse ++ w.log

/-- A store under a script of queues runs calls on the turns of the script. -/
theorem Scripted.run_eq {α : Type} (limit : Option Nat) (calls : Calls α) (w : Scripted) :
    Scripted.run limit calls w =
      (runOn limit calls w.store (.ofScript w.script)).map fun o => (o.result, w.leave o) := by
  induction calls generalizing w with
  | done a => rfl
  | ask r next ih =>
    show (answer limit r w).bind (fun xw => Scripted.run limit (next xw.1) xw.2) = _
    simp only [answer, runOn, Turns.draw_turn]
    cases w.store.answerOn limit (Turns.ofScript w.script r.operation.name 0) r with
    | none => rfl
    | some xs =>
      obtain ⟨x, s⟩ := xs
      simp only [Option.map_some, Option.bind_some, ih, Turns.draw_rest, Option.map_map]
      congr 1
      funext o
      simp [leave]

end Gatehouse.Counter
