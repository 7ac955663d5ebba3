import Gatehouse.Flow.Loader
import Mathlib.Algebra.BigOperators.Intervals

/-! Reading again.

A load reads a transaction until a read is not stale, and no more often than its settings let it.
`load_until_settled` says this of any store: what its reads are answered may go up and down, be
nothing or fail, in any order. What is told of the store is a script, the answer to each read in
its place, and what a load asks of the store and of the clock is written down (`journal`), so that
it can be seen that a load only reads and waits, and for how long. -/
namespace Gatehouse.Flow.Loader

/-! ### Reads by a script -/

/-- What a read of a transaction may be answered with. -/
abbrev Reading : Type := Except Store.Error (Option Context)

/-- Whether a request is a read. -/
def isRead : Request → Bool
  | .findLast _ => true
  | _ => false

/-- Whether a request changes the store. -/
def isWrite : Request → Bool
  | .create _ | .delete _ => true
  | _ => false

/-- The nanoseconds that a request waits for. -/
def pauseOf : Request → Nat
  | .findLast _ | .create _ | .delete _ => 0
  | .pause nanos => nanos

/-- Answers the reads one after another as a script has it, and writes down what is asked. -/
def journal (script : Nat → Reading) : (r : Request) → StateM (List Request) r.Answer
  | .findLast t, asked => (script (asked.countP isRead), asked ++ [.findLast t])
  | .create c, asked => (.ok c, asked ++ [.create c])
  | .delete t, asked => (.ok true, asked ++ [.delete t])
  | .pause nanos, asked => ((), asked ++ [.pause nanos])

/-- Runs calls by a script, after what was asked before: the result, and all that was asked. -/
def runOn {α : Type} (script : Nat → Reading) (calls : Calls α) (asked : List Request) :
    α × List Request := Store.Program.run (journal script) calls asked

/-! ### How a load ends -/

/-- A read is stale where it is answered with a version that was written, below the one
expected. -/
def Stale (expected : Nat) (reading : Reading) : Prop :=
  ∃ c, reading = .ok (some c) ∧ c.version ≠ 0 ∧ c.version < expected

/-- What a load is answered after its last read, which was its last chance or not. -/
inductive Ends (tx : String) (expected : Nat) (now : Instant) (last : Prop) :
    Reading → Except Failure Context → Prop
  | failed (e : Store.Error) : Ends tx expected now last (.error e) (.error (.ofStore e))
  /-- There is nothing to be read: the context is one that was never written. -/
  | absent : Ends tx expected now last (.ok none) (.ok (.fresh tx now))
  | current (c : Context) : c.version = 0 ∨ expected ≤ c.version →
      Ends tx expected now last (.ok (some c)) (.ok c)
  | stale (c : Context) : last → c.version ≠ 0 → c.version < expected →
      Ends tx expected now last (.ok (some c)) (.error (.staleContext tx expected c.version))

/-- Before a retry the interval is waited so many times as the retry's number says, but at most
just under `2 ^ 64` seconds. -/
theorem pauseBefore_eq (s : ConsistencySettings) (retry : Nat) : pauseBefore s retry =
    min (retry * (s.retryIntervalMs * 1000000)) 18446744073709551615999999999 := by
  rw [pauseBefore, Nat.mul_comm retry]
  rfl

/-- What a load asks that reads again so often, where its next retry has a given number. -/
def rereads (s : ConsistencySettings) (tx : String) (retry : Nat) : Nat → List Request
  | 0 => [.findLast tx]
  | n + 1 => .findLast tx :: .pause (pauseBefore s retry) :: rereads s tx (retry + 1) n

section Rereads
variable (s : ConsistencySettings) (tx : String) (retry n : Nat)

theorem reads_rereads : (rereads s tx retry n).countP isRead = n + 1 := by
  induction n generalizing retry with
  | zero => rfl
  | succ n ih =>
    rw [rereads, List.countP_cons_of_pos rfl, List.countP_cons_of_neg Bool.false_ne_true, ih]

theorem writes_rereads : (rereads s tx retry n).countP isWrite = 0 := by
  induction n generalizing retry with
  | zero => rfl
  | succ n ih =>
    rw [rereads, List.countP_cons_of_neg Bool.false_ne_true,
      List.countP_cons_of_neg Bool.false_ne_true, ih]

/-- The pauses are those before the retries, numbered on. -/
theorem waited_rereads : ((rereads s tx retry n).map pauseOf).sum =
    ∑ k ∈ Finset.Ico retry (retry + n), pauseBefore s k := by
  induction n generalizing retry with
  | zero => simp [rereads, pauseOf]
  | succ n ih =>
    have hnumbers : retry + (n + 1) = retry + 1 + n := by omega
    rw [Finset.sum_eq_sum_Ico_succ_bot (by omega), hnumbers, ← ih]
    rw [rereads, List.map_cons, List.map_cons, List.sum_cons, List.sum_cons, pauseOf, pauseOf,
      Nat.zero_add]

end Rereads

/-! ### A load by a script -/

section Script
variable {script : Nat → Reading} {s : ConsistencySettings} {tx : String} {expected : Nat}
  {now : Instant} {asked : List Request}

theorem runOn_reads (script : Nat → Reading) (retry left : Nat) (asked : List Request) :
    runOn script (reads s tx expected now retry left) asked =
      match script (asked.countP isRead) with
      | .error e => (.error (.ofStore e), asked ++ [.findLast tx])
      | .ok found =>
        let c := found.getD (.fresh tx now)
        if isCurrent c expected then (.ok c, asked ++ [.findLast tx])
        else
          match left with
          | 0 => (.error (.staleContext tx expected c.version), asked ++ [.findLast tx])
          | left + 1 => runOn script (reads s tx expected now (retry + 1) left)
              (asked ++ [.findLast tx, .pause (pauseBefore s retry)]) := by
  have hread : ∀ next : Reading → Calls (Except Failure Context),
      runOn script (.ask (.findLast tx) next) asked =
        runOn script (next (script (asked.countP isRead))) (asked ++ [.findLast tx]) :=
    fun _ => rfl
  rw [reads, hread]
  cases script (asked.countP isRead) with
  | error e => rfl
  | ok found =>
    dsimp only
    split
    · rfl
    · cases left with
      | zero => rfl
      | succ left => exact congrArg (runOn script _) (List.append_assoc ..)

/-- A read that is not stale is the last. -/
theorem ends_of_not_stale (h : ¬Stale expected (script (asked.countP isRead))) (last : Prop)
    (retry left : Nat) :
    let r := runOn script (reads s tx expected now retry left) asked
    Ends tx expected now last (script (asked.countP isRead)) r.1 ∧
      r.2 = asked ++ [.findLast tx] := by
  intro r
  have hr : r = _ := runOn_reads script retry left asked
  match hreading : script (asked.countP isRead) with
  | .error e => simpa [hr, hreading] using Ends.failed e
  | .ok none => simpa [hr, hreading, isCurrent, Context.isFresh, Context.fresh] using Ends.absent
  | .ok (some c) =>
    have hcurrent : c.version = 0 ∨ expected ≤ c.version := by
      by_contra hnot
      rw [not_or, not_le] at hnot
      exact h ⟨c, hreading, hnot⟩
    simpa [hr, hreading, isCurrent, Context.isFresh, hcurrent] using Ends.current c hcurrent

/-- However many retries are left, and whatever was asked before: a load reads until a read is
not stale, or it has no more retries. -/
theorem reads_until_settled (script : Nat → Reading) (retry left : Nat) (asked : List Request) :
    let m := asked.countP isRead
    let r := runOn script (reads s tx expected now retry left) asked
    ∃ n ≤ left, (∀ i < n, Stale expected (script (m + i))) ∧
      Ends tx expected now (n = left) (script (m + n)) r.1 ∧
      r.2 = asked ++ rereads s tx retry n := by
  intro m r
  by_cases hstale : Stale expected (script m)
  · have hr : r = _ := runOn_reads script retry left asked
    obtain ⟨c, hreading, hwritten, hbelow⟩ := hstale
    have hbehind : isCurrent c expected = false := by
      simp [isCurrent, Context.isFresh, hwritten, hbelow]
    simp only [hreading, m, Option.getD_some, hbehind, Bool.false_eq_true, if_false] at hr
    cases left with
    | zero =>
      refine ⟨0, le_rfl, fun i hi => absurd hi i.not_lt_zero, ?_⟩
      rw [hr]
      exact ⟨hreading ▸ .stale c rfl hwritten hbelow, rfl⟩
    | succ left =>
      -- the read and the pause are behind; what is left is a load with one retry less
      let asked' := asked ++ [.findLast tx, .pause (pauseBefore s retry)]
      have hplace : asked'.countP isRead = m + 1 := by
        rw [List.countP_append]
        rfl
      obtain ⟨n, hn, hbefore, hend, hasked⟩ := reads_until_settled script (retry + 1) left asked'
      change r = runOn script (reads s tx expected now (retry + 1) left) asked' at hr
      simp only [← hr, hplace, Nat.add_assoc, Nat.add_comm 1] at hbefore hend hasked
      refine ⟨n + 1, Nat.succ_le_succ hn, ?_, ?_, ?_⟩
      · rintro (_ | i) hi
        · exact ⟨c, hreading, hwritten, hbelow⟩
        · exact hbefore i (Nat.lt_of_succ_lt_succ hi)
      · rwa [Nat.add_left_inj]
      · rw [hasked, rereads]
        exact List.append_assoc ..
  · exact ⟨0, left.zero_le, fun i hi => absurd hi i.not_lt_zero,
      ends_of_not_stale hstale _ retry left⟩

/-- **A load reads until a read is not stale, and no more often than it may.** Whatever the reads
are answered, there is a number of retries, at most that of the settings, such that all reads
before the last are stale; the load ends as the last one says, with the store's failure where it
failed, with a context of version 0 where there is nothing to be read, and with a failure for being
stale only where no retry was left; it asks for the reads and for the pauses between them, and so
writes nothing; and it waits for the sum of the pauses, each of which is the interval times the
number of the retry, but at most just under `2 ^ 64` seconds. -/
theorem load_until_settled (s : ConsistencySettings) (tx : String) (expected : Nat) (now : Instant)
    (script : Nat → Reading) :
    let r := runOn script (load s tx expected now) []
    (∀ e, Failure.ofStore e = if e.kind = .timeout then .timeout e.message else .store e) ∧
    (Context.fresh tx now).transactionId = tx ∧ (Context.fresh tx now).version = 0 ∧
    ∃ retries ≤ s.maxRetries,
      (∀ i < retries, Stale expected (script i)) ∧
      Ends tx expected now (retries = s.maxRetries) (script retries) r.1 ∧
      r.2 = rereads s tx 1 retries ∧
      r.2.countP isRead = retries + 1 ∧
      r.2.countP isWrite = 0 ∧
      (r.2.map pauseOf).sum = ∑ k ∈ Finset.Icc 1 retries,
        min (k * (s.retryIntervalMs * 1000000)) 18446744073709551615999999999 := by
  intro r
  obtain ⟨n, hn, hbefore, hend, hasked⟩ : ∃ n ≤ s.maxRetries, _ :=
    reads_until_settled script 1 s.maxRetries []
  simp only [List.countP_nil, Nat.zero_add, List.nil_append] at hbefore hend hasked
  change r.2 = _ at hasked
  refine ⟨fun _ => rfl, rfl, rfl, n, hn, hbefore, hend, hasked, ?_, ?_, ?_⟩
  · rw [hasked, reads_rereads]
  · rw [hasked, writes_rereads]
  · rw [hasked, waited_rereads, Nat.add_comm 1 n, Finset.Ico_add_one_right_eq_Icc]
    exact Finset.sum_congr rfl fun k _ => pauseBefore_eq s k

/-- A replica is behind for two reads: the load waits for one second and then for two, and has a
retry left. -/
theorem load_until_settled_after_two_pauses :
    let s : ConsistencySettings := { maxRetries := 3, retryIntervalMs := 1000 }
    let script : Nat → Reading :=
      fun i => .ok (some { Context.fresh "tx" .epoch with version := [1, 1, 3].getD i 0 })
    let r := runOn script (load s "tx" 3 .epoch) []
    r.1.toOption.map (·.version) = some 3 ∧ r.2.countP isRead = 3 ∧
      r.2.map pauseOf = [0, 1000000000, 0, 2000000000, 0] ∧
      (r.2.map pauseOf).sum = 3000000000 := by
  intro s script r
  obtain ⟨-, -, -, retries, -, -, -, -, hreads, -, hwaited⟩ :=
    load_until_settled s "tx" 3 .epoch script
  have hthree : r.2.countP isRead = 3 := by decide +kernel
  have htwo : retries = 2 := Nat.succ.inj (hreads.symm.trans hthree)
  subst htwo
  exact ⟨by decide +kernel, hthree, by decide +kernel, hwaited.trans (by decide)⟩

end Script

end Gatehouse.Flow.Loader
