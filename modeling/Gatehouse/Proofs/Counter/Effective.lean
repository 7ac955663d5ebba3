import Gatehouse.Proofs.Counter.AllOrNothing

/-! What the one effective write of a failure writes.

A write goes by what a find saw, but it has its effect on what the store then holds. The two
are the same wherever the write has an effect at all: a record is made only where the find
saw none and there is none, and replaced only where the find saw the very record that is
there (`wrote_eq_nextRecord`). So the write counts its failure on top of all that was
counted before, and the decision is about what it wrote (`runOn_rounds_effective`). Under a
rate limit it takes one of the tokens that are left, or says that there is none
(`RatePolicy.tokensLeft_nextRecord`). -/
namespace Gatehouse.Counter

open Store (Turns)

/-! ### Calls one by one, and one after another -/

section Run
variable {α β : Type} {limit : Option Nat} {s : Memory} {turns : Turns}

/-- What is left of turns after calls. -/
def turnsAfter (turns : Turns) (calls : List Call) : Turns :=
  calls.foldl (fun turns c => turns.after c.request.operation.name) turns

theorem answered_turnsAfter {calls : List Call} (h : turns.Answered limit) :
    (turnsAfter turns calls).Answered limit := by
  induction calls generalizing turns with
  | nil => exact h
  | cons c rest ih => exact ih (h.after _)

/-- The first call of a run, and the run after it. -/
theorem runOn_ask_cases {r : Request} {next : r.Answer → Calls α} {o : Outcome α}
    (h : runOn limit (.ask r next) s turns = some o) :
    ∃ x s' rest, s.answerOn limit (turns r.operation.name 0) r = some (x, s') ∧
      runOn limit (next x) s' (turns.after r.operation.name) = some rest ∧
        o = { rest with
          calls := ⟨r, turns r.operation.name 0, s, Call.failure x, s'⟩ :: rest.calls } := by
  rw [runOn] at h
  split at h
  · cases h
  · next x s' hx =>
    obtain ⟨rest, hrest, rfl⟩ := Option.map_eq_some_iff.mp h
    exact ⟨x, s', rest, hx, hrest, rfl⟩

/-- Where every call is answered, a run ends. -/
theorem runOn_isSome (calls : Calls α) (s : Memory) {turns : Turns} (h : turns.Answered limit) :
    ∃ o, runOn limit calls s turns = some o := by
  induction calls generalizing s turns with
  | done a => exact ⟨_, rfl⟩
  | ask r next ih =>
    obtain ⟨x, s', hx⟩ := Memory.answerOn_isSome h r.operation.name r s
    obtain ⟨o, ho⟩ := ih x s' (h.after _)
    exact ⟨_, runOn_ask hx ho⟩

/-- What is made of a result takes no calls. -/
theorem runOn_bind_done (calls : Calls α) (f : α → β) (s : Memory) (turns : Turns) :
    runOn limit (calls.bind fun a => .done (f a)) s turns =
      (runOn limit calls s turns).map fun o => ⟨f o.result, o.store, o.calls⟩ := by
  induction calls generalizing s turns with
  | done a => rfl
  | ask r next ih =>
    show runOn limit (.ask r fun x => (next x).bind _) s turns = _
    rw [runOn, runOn]
    split
    · rfl
    · rw [ih, Option.map_map, Option.map_map]
      rfl

theorem Memory.Keyed.answerOn {s s' : Memory} (hs : s.Keyed) {turn : Store.Turn} {r : Request}
    {x : r.Answer} (h : s.answerOn limit turn r = some (x, s')) : s'.Keyed := by
  rcases Memory.answerOn_cases h with ⟨_, rfl, _⟩ | ⟨_, hanswer⟩ | ⟨_, rfl, _⟩
  · exact hs
  · have hkeyed := (hs.onTurn turn r).answer r
    rw [hanswer] at hkeyed
    exact hkeyed
  · exact hs

/-- Calls leave every record under its own key. -/
theorem Memory.Keyed.runOn {calls : Calls α} {o : Outcome α} (hs : s.Keyed)
    (h : runOn limit calls s turns = some o) : o.store.Keyed := by
  induction calls generalizing s turns o with
  | done a =>
    cases h
    exact hs
  | ask r next ih =>
    obtain ⟨x, s', rest, hx, hrest, rfl⟩ := runOn_ask_cases h
    show rest.store.Keyed
    exact ih x (hs.answerOn hx) hrest

end Run

namespace Engine

variable {p : Policy} {k : Key} {now : Instant} {limit : Option Nat} {s : Memory} {turns : Turns}

/-! ### The effective write -/

/-- A write that goes by what a find saw, and has an effect, found just that. -/
theorem wrote_eq_nextRecord {stored : Option Record} {c : Call} {r : Record}
    (hrequest : c.request =
      .write (if stored.isSome then .update else .create) (nextRecord p k now stored))
    (hbefore : c.before.Keyed) (hstored : ∀ r ∈ stored, c.before.find? k = some r)
    (hwrote : c.wrote limit = some r) : r = nextRecord p k now (c.found.find? k) := by
  have hkey : (nextRecord p k now stored).key.storageKey = k.storageKey :=
    nextRecord_storageKey fun r hr => hbefore.find? (hstored r hr)
  have hputs : c.request.puts c.found = some r := by
    rw [Call.wrote] at hwrote
    split at hwrote
    · exact hwrote
    · cases hwrote
  rw [hrequest] at hputs
  cases stored with
  | none =>
    -- The record was made, so there was none.
    simp only [Option.isSome_none, Bool.false_eq_true, if_false, Request.puts,
      Memory.find?_congr _ hkey] at hputs
    split at hputs
    · cases hputs
    · next hfree =>
      cases hputs
      rw [Option.not_isSome_iff_eq_none.mp hfree]
  | some r₀ =>
    -- The record was replaced, so no other writer had removed the one that the find saw.
    have hfound : c.found = c.before := by
      rw [Call.found, Memory.onTurn]
      split
      · next hraced =>
        have hgone : c.found.find? (nextRecord p k now (some r₀)).key = none := by
          rw [Call.found, Memory.onTurn, if_pos hraced, hrequest]
          exact Memory.find?_erase _ _
        simp [Request.puts, hgone] at hputs
      · rfl
    simp only [Option.isSome_some, if_true, Request.puts] at hputs
    split at hputs
    · cases hputs
      rw [hfound, hstored r₀ rfl]
    · cases hputs

/-- What counting a failure comes to: effective writes count it on top of what they find, and
decisions are about records. -/
structure Effective (p : Policy) (k : Key) (now : Instant) (limit : Option Nat)
    (o : Outcome (Except Store.Error Decision)) : Prop where
  wrote : ∀ c ∈ o.calls, ∀ r, c.wrote limit = some r → r = nextRecord p k now (c.found.find? k)
  decided : ∀ d, o.result = .ok d → ∃ r, d = p.decide (some r) now

/-- One more call, which has such an effect if any. -/
theorem Effective.cons {o : Outcome (Except Store.Error Decision)} (h : Effective p k now limit o)
    {c : Call} (hc : ∀ r, c.wrote limit = some r → r = nextRecord p k now (c.found.find? k)) :
    Effective p k now limit { o with calls := c :: o.calls } :=
  ⟨List.forall_mem_cons.mpr ⟨hc, h.wrote⟩, h.decided⟩

theorem Effective.cons_find {o : Outcome (Except Store.Error Decision)}
    (h : Effective p k now limit o) {c : Call} {k' : Key} (hc : c.request = .find k') :
    Effective p k now limit { o with calls := c :: o.calls } := by
  refine h.cons fun r hr => ?_
  rw [Call.wrote_find hc] at hr
  cases hr

theorem effective_error (p : Policy) (k : Key) (now : Instant) (limit : Option Nat)
    (e : Store.Error) (s : Memory) : Effective p k now limit ⟨.error e, s, []⟩ :=
  ⟨fun _ hc => (List.not_mem_nil hc).elim, fun _ hd => by cases hd⟩

theorem runOn_writing_effective {round left : Nat} {stored : Option Record}
    {o : Outcome (Except Store.Error Decision)} (hs : s.Keyed)
    (hstored : ∀ r ∈ stored, s.find? k = some r)
    (h : runOn limit (writing p k now round left stored) s turns = some o)
    (hnext : ∀ left' < left, ∀ {s' : Memory} {turns' : Turns}
      {o' : Outcome (Except Store.Error Decision)}, s'.Keyed →
      runOn limit (rounds p k now (round + 1) left') s' turns' = some o' →
        Effective p k now limit o') :
    Effective p k now limit o := by
  rw [writing] at h
  obtain ⟨x, s', rest, hx, hrest, rfl⟩ := runOn_ask_cases h
  refine Effective.cons ?_ fun r => wrote_eq_nextRecord rfl hs hstored
  cases x with
  | ok r =>
    cases hrest
    refine ⟨fun _ hc => (List.not_mem_nil hc).elim, fun d hd => ⟨r, ?_⟩⟩
    cases hd
    rfl
  | error e =>
    change runOn limit (refused p k now round left e) s' _ = _ at hrest
    cases he : e.isConflict || e.isNotFound with
    | false =>
      rw [refused_at_once p k now round left he] at hrest
      cases hrest
      exact effective_error p k now limit e s'
    | true =>
      cases left with
      | zero =>
        rw [refused_last p k now round he] at hrest
        cases hrest
        exact effective_error p k now limit _ s'
      | succ left =>
        rw [refused_again p k now round left he] at hrest
        exact hnext left (Nat.lt_succ_self left) (hs.answerOn hx) hrest

theorem runOn_rounds_effective {round left : Nat} {o : Outcome (Except Store.Error Decision)}
    (hs : s.Keyed) (h : runOn limit (rounds p k now round left) s turns = some o) :
    Effective p k now limit o := by
  induction left using Nat.strongRecOn generalizing round s turns o with
  | _ left ih =>
  rw [rounds_eq] at h
  obtain ⟨x, s', rest, hx, hrest, rfl⟩ := runOn_ask_cases h
  refine Effective.cons_find ?_ rfl
  obtain ⟨rfl, ⟨stored, rfl, hstored⟩ | ⟨e, rfl⟩⟩ := Memory.answerOn_find hx
  · exact runOn_writing_effective hs hstored hrest fun left' hleft' => ih left' hleft'
  · cases hrest
    exact effective_error p k now limit e s'

/-- Where there is an error, the last call failed, and timed out if the error says so. -/
theorem Story.last_failed {round left : Nat} {calls : List Call}
    {result : Except Store.Error Decision} (h : Story limit k round left calls result s)
    {e : Store.Error} (he : result = .error e) :
    ∃ c e', calls.getLast? = some c ∧ c.error = some e' ∧
      (e'.kind = .timeout ↔ e.kind = .timeout) := by
  induction h with
  | unread hfind =>
    cases he
    exact ⟨_, _, rfl, hfind.error, Iff.rfl⟩
  | written => cases he
  | refused _ hwrite =>
    cases he
    exact ⟨_, _, rfl, hwrite.error, Iff.rfl⟩
  | @exhausted _ _ write e' _ hwrite hconflict =>
    cases he
    refine ⟨write, e', rfl, hwrite.error, iff_of_false (fun htimeout => ?_) nofun⟩
    simp [Store.Error.isConflict, Store.Error.isNotFound, htimeout] at hconflict
  | again _ _ _ _ ih =>
    obtain ⟨c, e', hlast, hrest⟩ := ih he
    refine ⟨c, e', ?_, hrest⟩
    rw [List.getLast?_cons, List.getLast?_cons, hlast]
    rfl

end Engine

/-! ### Tokens -/

namespace RatePolicy
variable (p : RatePolicy) (k : Key) (now : Instant) (s : Memory)

/-- The tokens that are left under a key. -/
def available : Int :=
  match Engine.live (.rateLimit p) (s.find? k) now with
  | some r => max r.tokensLeft 0
  | none => p.limit

/-- An event takes one of the tokens that are left, or says that there is none. -/
theorem tokensLeft_nextRecord :
    (Engine.nextRecord (.rateLimit p) k now (s.find? k)).tokensLeft = p.available k now s - 1 := by
  unfold Engine.nextRecord available
  cases Engine.live (.rateLimit p) (s.find? k) now with
  | none => rfl
  | some r =>
    show max (r.tokensLeft - 1) (-1) = max r.tokensLeft 0 - 1
    omega

/-- An event is let through if it has a token. -/
theorem allowRequest_nextRecord (stored : Option Record) :
    (Engine.nextRecord (.rateLimit p) k now stored).allowRequest =
      decide (0 ≤ (Engine.nextRecord (.rateLimit p) k now stored).tokensLeft) := rfl

end RatePolicy

end Gatehouse.Counter
