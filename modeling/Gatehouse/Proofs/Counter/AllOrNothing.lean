import Gatehouse.Proofs.Counter.Engine
import Gatehouse.Proofs.Counter.Faults

/-! A failure is counted once or not at all, whatever becomes of the calls.

The rounds of one failure come to a story (`Story`): each round finds and writes, and the
next begins where a write was refused because another writer came first. `runOn_rounds`
says that the engine tells such a story on any turns. What a story says about all of its
calls is proved along the story, and `AllOrNothing` puts it together. -/
namespace Gatehouse.Counter.Engine

open Store (Turns)

/-- A call that looks for the record of a key. -/
structure Finds (limit : Option Nat) (k : Key) (error : Option Store.Error) (c : Call) : Prop where
  request : c.request = .find k
  error : c.error = error
  accounted : c.Accounted limit

/-- A call that writes, and what it puts in the store. -/
structure Writes (limit : Option Nat) (error : Option Store.Error) (wrote : Option Record)
    (c : Call) : Prop where
  request : ∃ mode r, c.request = .write mode r
  error : c.error = error
  wrote : c.wrote limit = wrote
  accounted : c.Accounted limit

/-- What round number `round` of a failure and up to `left` more can come to: the calls,
the result and the store that is left. -/
inductive Story (limit : Option Nat) (k : Key) :
    Nat → Nat → List Call → Except Store.Error Decision → Memory → Prop where
  /-- The find fails. -/
  | unread {round left find e} : Finds limit k (some e) find →
      Story limit k round left [find] (.error e) find.after
  /-- The write succeeds. -/
  | written {round left find write r d} : Finds limit k none find →
      Writes limit none (some r) write → d.record = some r → r.key.storageKey = k.storageKey →
      Story limit k round left [find, write] (.ok d) write.after
  /-- The write fails, and no other writer is to blame. -/
  | refused {round left find write e} : Finds limit k none find →
      Writes limit (some e) none write → (e.isConflict || e.isNotFound) = false →
      Story limit k round left [find, write] (.error e) write.after
  /-- Another writer came first, and no round is left. -/
  | exhausted {round find write e} : Finds limit k none find →
      Writes limit (some e) none write → (e.isConflict || e.isNotFound) = true →
      Story limit k round 0 [find, write] (.error (gaveUp round k e)) write.after
  /-- Another writer came first, and the next round begins. -/
  | again {round left find write e calls result s} : Finds limit k none find →
      Writes limit (some e) none write → (e.isConflict || e.isNotFound) = true →
      Story limit k (round + 1) left calls result s →
      Story limit k round (left + 1) (find :: write :: calls) result s

/-! ### The engine tells a story -/

section Run
variable (p : Policy) {k : Key} (now : Instant) {limit : Option Nat}

theorem finds_of_answerOn {turn : Store.Turn} {s : Memory} {x : (Request.find k).Answer}
    (hx : s.answerOn limit turn (.find k) = some (x, s)) :
    Finds limit k (Call.failure x) ⟨.find k, turn, s, Call.failure x, s⟩ where
  request := rfl
  error := rfl
  accounted := by
    refine ⟨?_, Memory.answerOn_operation hx⟩
    rw [Call.wrote_find rfl, Call.found_find rfl]
    rfl

/-- The write of a round, after its find, if the rounds to come tell their story. -/
theorem runOn_writing {round left : Nat} {s : Memory} {turns : Turns} {stored : Option Record}
    {find : Call} (hfind : Finds limit k none find)
    (hkey : (nextRecord p k now stored).key.storageKey = k.storageKey) (hs : s.Keyed)
    (hturns : turns.Answered limit)
    (hnext : ∀ left' < left, ∀ {s' : Memory} {turns' : Turns}, s'.Keyed → turns'.Answered limit →
      ∃ o, runOn limit (rounds p k now (round + 1) left') s' turns' = some o ∧
        Story limit k (round + 1) left' o.calls o.result o.store) :
    ∃ o, runOn limit (writing p k now round left stored) s turns = some o ∧
      Story limit k round left (find :: o.calls) o.result o.store := by
  rw [writing]
  generalize nextRecord p k now stored = r at hkey ⊢
  generalize (if stored.isSome then Write.update else Write.create) = mode
  obtain ⟨x, s', hx⟩ := Memory.answerOn_isSome hturns (Request.write mode r).operation.name
    (.write mode r) s
  have hoperation := Memory.answerOn_operation hx
  obtain ⟨rfl, hwrote, hafter⟩ | ⟨e, rfl, hwrote, hafter⟩ := Memory.answerOn_write hx
  · have hwrites := Writes.mk ⟨mode, r, rfl⟩ rfl hwrote ⟨by rw [hwrote]; exact hafter, hoperation⟩
    exact ⟨_, runOn_ask hx rfl, .written hfind hwrites rfl hkey⟩
  · have hwrites := Writes.mk ⟨mode, r, rfl⟩ rfl hwrote ⟨by rw [hwrote]; exact hafter, hoperation⟩
    cases he : e.isConflict || e.isNotFound with
    | false =>
      refine ⟨_, runOn_ask (o := ⟨.error e, s', []⟩) hx ?_, .refused hfind hwrites he⟩
      show runOn limit (refused p k now round left e) s' _ = _
      rw [refused_at_once p k now round left he]
      rfl
    | true =>
      cases left with
      | zero =>
        refine ⟨_, runOn_ask (o := ⟨.error (gaveUp round k e), s', []⟩) hx ?_,
          .exhausted hfind hwrites he⟩
        show runOn limit (refused p k now round 0 e) s' _ = _
        rw [refused_last p k now round he]
        rfl
      | succ left =>
        -- The next round starts from what the refused write left, other writers' doing included.
        have hs' : s'.Keyed := by
          rw [hafter]
          exact hs.onTurn _ _
        obtain ⟨o, ho, hstory⟩ := hnext left (Nat.lt_succ_self left) hs' (hturns.after _)
        refine ⟨_, runOn_ask (o := o) hx ?_, .again hfind hwrites he hstory⟩
        show runOn limit (refused p k now round (left + 1) e) s' _ = _
        rw [refused_again p k now round left he]
        exact ho

theorem runOn_rounds (k : Key) (round left : Nat) {s : Memory} {turns : Turns} (hs : s.Keyed)
    (hturns : turns.Answered limit) :
    ∃ o, runOn limit (rounds p k now round left) s turns = some o ∧
      Story limit k round left o.calls o.result o.store := by
  induction left using Nat.strongRecOn generalizing round s turns with
  | _ left ih =>
  rw [rounds_eq]
  obtain ⟨x, s', hx⟩ := Memory.answerOn_isSome hturns "find" (.find k) s
  obtain ⟨rfl, ⟨stored, rfl, hstored⟩ | ⟨e, rfl⟩⟩ := Memory.answerOn_find hx
  · -- The next record goes where the key stands, as what was found stands there.
    have hkey : (nextRecord p k now stored).key.storageKey = k.storageKey :=
      nextRecord_storageKey fun r hr => hs.find? (hstored r hr)
    obtain ⟨o, ho, hstory⟩ := runOn_writing p now (finds_of_answerOn hx) hkey hs
      (hturns.after "find") fun left' hleft' => ih left' hleft' (round + 1)
    exact ⟨_, runOn_ask hx ho, hstory⟩
  · exact ⟨_, runOn_ask hx rfl, .unread (finds_of_answerOn hx)⟩

end Run

/-! ### What a story says about its calls -/

section Calls
variable {limit : Option Nat} {k : Key} {c : Call} {error : Option Store.Error}
  {record : Option Record}

theorem Finds.not_conflicted (h : Finds limit k error c) : c.conflicted = false := by
  obtain ⟨request, turn, before, error, after⟩ := c
  have hrequest : request = .find k := h.request
  subst hrequest
  rfl

theorem Finds.wrote (h : Finds limit k error c) : c.wrote limit = none :=
  Call.wrote_find h.request limit

/-- Another writer came first exactly where the write failed so. -/
theorem Writes.conflicted (h : Writes limit error record c) :
    c.conflicted = error.any fun e => e.isConflict || e.isNotFound := by
  obtain ⟨request, turn, before, error', after⟩ := c
  obtain ⟨mode, r, hrequest⟩ := h.request
  have herror : error' = error := h.error
  change request = _ at hrequest
  subst hrequest herror
  cases error' <;> rfl

end Calls

/-- The record of a decision; an error has none. -/
def decided : Except Store.Error Decision → Option Record
  | .ok d => d.record
  | .error _ => none

namespace Story
variable {limit : Option Nat} {k : Key} {round left : Nat} {calls : List Call}
  {result : Except Store.Error Decision} {s : Memory}

theorem length_pos (h : Story limit k round left calls result s) : 0 < calls.length := by
  cases h <;> simp

/-- Every round makes at most two calls. -/
theorem length_le (h : Story limit k round left calls result s) :
    calls.length ≤ 2 * (left + 1) := by
  induction h with
  | unread _ => simp only [List.length_singleton]; omega
  | written _ _ _ _ => simp only [List.length_cons, List.length_nil]; omega
  | refused _ _ _ => simp only [List.length_cons, List.length_nil]; omega
  | exhausted _ _ _ => simp only [List.length_cons, List.length_nil]; omega
  | again _ _ _ _ ih => simp only [List.length_cons]; omega

/-- Finds and writes take turns. -/
theorem alternates (h : Story limit k round left calls result s) (i : Nat) (c : Call)
    (hc : calls[i]? = some c) :
    if i % 2 = 0 then c.request = .find k else ∃ mode r, c.request = .write mode r := by
  induction h generalizing i with
  | unread hfind =>
    match i, hc with
    | 0, rfl => exact hfind.request
  | written hfind hwrite | refused hfind hwrite | exhausted hfind hwrite =>
    match i, hc with
    | 0, rfl => exact hfind.request
    | 1, rfl => exact hwrite.request
  | again hfind hwrite _ _ ih =>
    match i, hc with
    | 0, rfl => exact hfind.request
    | 1, rfl => exact hwrite.request
    | i + 2, hc =>
      rw [Nat.add_mod_right]
      exact ih i hc

/-- Every call leaves what it found, and what it wrote. -/
theorem accounted (h : Story limit k round left calls result s) :
    ∀ c ∈ calls, c.Accounted limit := by
  induction h with
  | unread hfind => simp [hfind.accounted]
  | written hfind hwrite | refused hfind hwrite | exhausted hfind hwrite =>
    simp [hfind.accounted, hwrite.accounted]
  | again hfind hwrite _ _ ih =>
    simp only [List.forall_mem_cons]
    exact ⟨hfind.accounted, hwrite.accounted, ih⟩

/-- What is written is the record of the decision, and nothing where there is an error. -/
theorem filterMap_wrote (h : Story limit k round left calls result s) :
    calls.filterMap (Call.wrote limit) = (decided result).toList := by
  induction h with
  | unread hfind => simp [hfind.wrote, decided]
  | written hfind hwrite hrecord => simp [hfind.wrote, hwrite.wrote, hrecord, decided]
  | refused hfind hwrite | exhausted hfind hwrite => simp [hfind.wrote, hwrite.wrote, decided]
  | again hfind hwrite _ _ ih => simpa [hfind.wrote, hwrite.wrote] using ih

/-- Where there is a decision, the last call wrote its record, which the store now holds. -/
theorem last_wrote (h : Story limit k round left calls result s) {d : Decision}
    (hd : result = .ok d) :
    ∃ c r, calls.getLast? = some c ∧ c.wrote limit = some r ∧ d.record = some r ∧
      s.find? k = some r := by
  induction h with
  | unread _ => cases hd
  | written _ hwrite hrecord hkey =>
    cases hd
    refine ⟨_, _, rfl, hwrite.wrote, hrecord, ?_⟩
    rw [hwrite.accounted.after, hwrite.wrote]
    exact Memory.find?_put _ hkey.symm
  | refused _ _ _ => cases hd
  | exhausted _ _ _ => cases hd
  | again _ _ _ hrest ih =>
    obtain ⟨c, r, hlast, hrest⟩ := ih hd
    refine ⟨c, r, ?_, hrest⟩
    rw [List.getLast?_cons, List.getLast?_cons, hlast]
    rfl

/-- Where there is an error, nothing was written. -/
theorem not_wrote (h : Story limit k round left calls result s) {e : Store.Error}
    (he : result = .error e) : ∀ c ∈ calls, c.wrote limit = none := by
  have hnone := h.filterMap_wrote
  rw [he] at hnone
  exact List.filterMap_eq_nil_iff.mp hnone

/-- Another round begins exactly after a write that another writer got in the way of, as
long as rounds are left. -/
theorem goes_on_iff (h : Story limit k round left calls result s) (i : Nat) (c : Call)
    (hc : calls[i]? = some c) (hodd : i % 2 = 1) (hleft : i + 1 < 2 * (left + 1)) :
    i + 1 < calls.length ↔ c.conflicted = true := by
  induction h generalizing i with
  | unread _ =>
    match i, hc with
    | 0, rfl => cases hodd
  | written _ hwrite =>
    match i, hc with
    | 0, rfl => cases hodd
    | 1, rfl => simp [hwrite.conflicted]
  | refused _ hwrite he =>
    match i, hc with
    | 0, rfl => cases hodd
    | 1, rfl => simp [hwrite.conflicted, he]
  | exhausted _ _ _ =>
    match i, hc with
    | 0, rfl => cases hodd
    | 1, rfl => omega
  | again _ hwrite he hrest ih =>
    match i, hc with
    | 0, rfl => cases hodd
    | 1, rfl => simp [hwrite.conflicted, he, hrest.length_pos]
    | i + 2, hc =>
      rw [Nat.add_mod_right] at hodd
      rw [← ih i hc hodd (by omega), List.length_cons, List.length_cons]
      omega

/-- When every round's write was got in the way of, the engine gives up. -/
theorem gives_up (h : Story limit k round left calls result s)
    (hcount : calls.countP Call.conflicted = left + 1) :
    ∃ e, result = .error (gaveUp (round + left) k e) := by
  induction h with
  | unread hfind => simp [hfind.not_conflicted] at hcount
  | written hfind hwrite => simp [hfind.not_conflicted, hwrite.conflicted] at hcount
  | refused hfind hwrite he => simp [hfind.not_conflicted, hwrite.conflicted, he] at hcount
  | exhausted _ _ _ => exact ⟨_, rfl⟩
  | again hfind hwrite he _ ih =>
    simp [hfind.not_conflicted, hwrite.conflicted, he] at hcount
    obtain ⟨e, hresult⟩ := ih hcount
    refine ⟨e, ?_⟩
    rw [hresult, Nat.add_right_comm, Nat.add_assoc]

/-- Every other failure of a call ends the story at once, and is its result. -/
theorem ends_at_once (h : Story limit k round left calls result s) (i : Nat) (c : Call)
    (e : Store.Error) (hc : calls[i]? = some c) (he : c.error = some e)
    (hother : c.conflicted = false) : i + 1 = calls.length ∧ result = .error e := by
  induction h generalizing i with
  | unread hfind =>
    match i, hc with
    | 0, rfl =>
      cases hfind.error.symm.trans he
      exact ⟨rfl, rfl⟩
  | written hfind hwrite =>
    match i, hc with
    | 0, rfl => cases hfind.error.symm.trans he
    | 1, rfl => cases hwrite.error.symm.trans he
  | refused hfind hwrite =>
    match i, hc with
    | 0, rfl => cases hfind.error.symm.trans he
    | 1, rfl =>
      cases hwrite.error.symm.trans he
      exact ⟨rfl, rfl⟩
  | exhausted hfind hwrite hconflict =>
    match i, hc with
    | 0, rfl => cases hfind.error.symm.trans he
    | 1, rfl =>
      rw [hwrite.conflicted, Option.any_some, hconflict] at hother
      cases hother
  | again hfind hwrite hconflict _ ih =>
    match i, hc with
    | 0, rfl => cases hfind.error.symm.trans he
    | 1, rfl =>
      rw [hwrite.conflicted, Option.any_some, hconflict] at hother
      cases hother
    | i + 2, hc =>
      obtain ⟨hlength, hresult⟩ := ih i hc
      exact ⟨congrArg (· + 2) hlength, hresult⟩

end Story

/-! ### All or nothing -/

/-- What holds of counting a failure, however its calls go. -/
structure AllOrNothing (limit : Option Nat) (k : Key) (s : Memory)
    (o : Outcome (Except Store.Error Decision)) : Prop where
  /-- The calls take the store from what it held to what is left. -/
  chained : Chained s o.calls o.store
  /-- There are at most `maxRounds` rounds of a find and a write. -/
  rounds : o.calls.length ≤ 2 * maxRounds
  alternates : ∀ i c, o.calls[i]? = some c →
    if i % 2 = 0 then c.request = .find k else ∃ mode r, c.request = .write mode r
  /-- A call leaves what it found and what it wrote. -/
  accounted : ∀ c ∈ o.calls, c.Accounted limit
  /-- At most one write has an effect. -/
  once : (o.calls.filterMap (Call.wrote limit)).length ≤ 1
  /-- There is a decision exactly when the last write had its effect. -/
  ok_iff : (∃ d, o.result = .ok d) ↔ ∃ c, o.calls.getLast? = some c ∧ (c.wrote limit).isSome
  /-- The decision's record is what the store then holds. -/
  stored : ∀ d, o.result = .ok d → ∃ r, d.record = some r ∧ o.store.find? k = some r
  /-- Where there is an error, no write had an effect. -/
  not_wrote : ∀ e, o.result = .error e → ∀ c ∈ o.calls, c.wrote limit = none
  /-- Another round begins exactly after a write that another writer got in the way of. -/
  goes_on_iff : ∀ i c, o.calls[i]? = some c → i % 2 = 1 → i + 1 < 2 * maxRounds →
    (i + 1 < o.calls.length ↔ c.conflicted = true)
  /-- When that happened to `maxRounds` writes, the result is a conflict. -/
  gives_up : o.calls.countP Call.conflicted = maxRounds →
    ∃ e, o.result = .error (gaveUp maxRounds k e) ∧ (gaveUp maxRounds k e).kind = .conflict
  /-- Every other error ends it at once, and is the result. -/
  ends_at_once : ∀ i c e, o.calls[i]? = some c → c.error = some e → c.conflicted = false →
    i + 1 = o.calls.length ∧ o.result = .error e

theorem Story.allOrNothing {limit : Option Nat} {k : Key} {s : Memory}
    {o : Outcome (Except Store.Error Decision)}
    (h : Story limit k 1 2 o.calls o.result o.store) (hchained : Chained s o.calls o.store) :
    AllOrNothing limit k s o where
  chained := hchained
  rounds := h.length_le
  alternates := h.alternates
  accounted := h.accounted
  once := by
    rw [h.filterMap_wrote]
    cases decided o.result <;> simp
  ok_iff := by
    constructor
    · rintro ⟨d, hd⟩
      obtain ⟨c, r, hlast, hwrote, _⟩ := h.last_wrote hd
      exact ⟨c, hlast, by rw [hwrote]; rfl⟩
    · rintro ⟨c, hlast, hwrote⟩
      cases hresult : o.result with
      | ok d => exact ⟨d, rfl⟩
      | error e =>
        rw [h.not_wrote hresult c (List.mem_of_getLast? hlast)] at hwrote
        cases hwrote
  stored d hd := by
    obtain ⟨c, r, _, _, hrecord, hfind⟩ := h.last_wrote hd
    exact ⟨r, hrecord, hfind⟩
  not_wrote _ he := h.not_wrote he
  goes_on_iff := h.goes_on_iff
  gives_up hcount := by
    obtain ⟨e, hresult⟩ := h.gives_up hcount
    exact ⟨e, hresult, rfl⟩
  ends_at_once := h.ends_at_once

/-- **A failure is counted once or not at all.** Whatever the store in memory holds, every
record under its own key as writes put it there, and whatever becomes of the calls, as long
as each is answered: the failure is counted with a decision about the record that is then
stored, or there is an error and nothing of it is stored; and no error but another writer's
coming first is met with another round. -/
theorem recordFailure_all_or_nothing (p : Policy) (hp : p.isMisconfigured = false) (k : Key)
    (now : Instant) (s : Memory) (hs : s.Keyed) (limit : Option Nat) (turns : Turns)
    (hturns : turns.Answered limit) :
    ∃ o, runOn limit (recordFailure p k now) s turns = some o ∧ AllOrNothing limit k s o := by
  rw [recordFailure_eq hp]
  obtain ⟨o, ho, hstory⟩ := runOn_rounds p now k 1 2 hs hturns
  exact ⟨o, ho, hstory.allOrNothing (runOn_chained ho)⟩

/-- Another writer is first to create the record, and the write that then follows never
returns: it is given up, and the failure is not counted. -/
theorem raced_and_given_up :
    let p : Policy := .login ⟨5, .seconds 60, .seconds 600⟩
    let k : Key := ⟨.login, { reference := .domain "acme", subject := "alice" }⟩
    let turns : Turns := fun operation _ =>
      if operation = "create" then .raced else if operation = "update" then .hangs else .served
    ∃ o, runOn (some 2000000) (recordFailure p k .epoch) {} turns = some o ∧
      AllOrNothing (some 2000000) k {} o ∧
      Call.failure o.result = some (Store.overdue .update 2000000) ∧
      o.calls.map (·.request.operation) = [.find, .create, .find, .update] := by
  intro p k turns
  obtain ⟨o, ho, hall⟩ := recordFailure_all_or_nothing p rfl k .epoch {} Memory.keyed_empty
    (some 2000000) turns nofun
  have hend : (runOn (some 2000000) (recordFailure p k .epoch) {} turns).map
      (fun o => (Call.failure o.result, o.calls.map (·.request.operation))) =
        some (some (Store.overdue .update 2000000), [.find, .create, .find, .update]) := by
    subst turns
    decide +kernel
  rw [ho] at hend
  obtain ⟨hresult, hcalls⟩ := Prod.mk.inj (Option.some.inj hend)
  exact ⟨o, ho, hall, hresult, hcalls⟩

end Gatehouse.Counter.Engine
