import Gatehouse.Proofs.Time.Width
import Gatehouse.Redis.Connection
import Mathlib.Algebra.Group.Nat.Defs
import Mathlib.Order.Monotone.Basic

/-! Connecting again.

Connecting goes on until an attempt succeeds, and for no more retries than the configuration
allows. `connect_backs_off` says this whatever becomes of the attempts: that is a sequence of
outcomes, one for each attempt in its place, and what is asked is written down (`journal`), so that
it can be seen how often was tried and how long was waited. Before a retry the power of two, the
product may each be cut off, at a limit of its own; that never shows, as both limits lie above the
longest pause (`pauseBefore_eq`). The failures are counted in 32 bits, and with room for one
failure more than there may be retries the count does not overflow (`countedAttempts_eq`). -/
namespace Gatehouse.Redis.Connection

/-! ### The pauses -/

/-- A product whose power of two was cut off is above the longest pause, or nothing at all. -/
theorem min_mul_factor (base doublings : Nat) :
    min (base * Duration.nanosPerMilli * factor doublings) maxPause =
      min maxPause (base * Duration.nanosPerMilli * 2 ^ doublings) := by
  unfold factor
  split
  · exact Nat.min_comm _ _
  · next hlarge =>
    rcases Nat.eq_zero_or_pos base with rfl | hpos
    · rw [Nat.zero_mul, Nat.zero_mul, Nat.zero_mul, Nat.min_comm]
    · have hbase : 1000000 ≤ base * Duration.nanosPerMilli := Nat.le_mul_of_pos_left _ hpos
      have hpower : 2 ^ 32 ≤ 2 ^ doublings :=
        Nat.pow_le_pow_right (by decide) (Nat.not_lt.mp hlarge)
      have hcut : maxPause ≤ base * Duration.nanosPerMilli * (Nat.pow 2 32 - 1) :=
        Nat.le_trans (by decide) (Nat.mul_le_mul_right _ hbase)
      have hwhole : maxPause ≤ base * Duration.nanosPerMilli * 2 ^ doublings :=
        Nat.le_trans (by decide) (Nat.mul_le_mul hbase hpower)
      rw [Nat.min_eq_right hcut, Nat.min_eq_left hwhole]

/-- No limit but that of the pause shows in a pause. -/
theorem pauseBefore_eq (c : RedisConfig) (retry : Nat) :
    pauseBefore c retry =
      min maxPause (c.retryDelayMs * Duration.nanosPerMilli * 2 ^ (retry - 1)) := by
  have hlongest : maxPause ≤ Duration.longestWait := by decide
  rw [← min_mul_factor, pauseBefore]
  omega

theorem pauseBefore_mono (c : RedisConfig) : Monotone (pauseBefore c) := by
  intro j k hjk
  have hpower : 2 ^ (j - 1) ≤ 2 ^ (k - 1) :=
    Nat.pow_le_pow_right (by decide) (Nat.sub_le_sub_right hjk 1)
  have hproduct := Nat.mul_le_mul_left (c.retryDelayMs * Duration.nanosPerMilli) hpower
  rw [pauseBefore_eq, pauseBefore_eq]
  omega

/-! ### Failures as they are counted -/

/-- The last number of 32 bits. -/
def lastCount : Nat := 4294967295

/-- Attempts to connect after a number of failures, which is counted up in 32 bits. -/
def countedAttempts {Pool : Type} (c : RedisConfig) (failed : Nat) :
    Store.Program Request (Request.Answer Pool) (Checked (Except Store.Error Pool)) :=
  .ask (.attempt c.url c.maxConnections) fun
    | .ok pool => .done (.ok (.ok pool))
    | .error e =>
      if lastCount ≤ failed then .done (.error .unfit)
      else if c.maxRetries < failed + 1 then .done (.ok (.error e))
      else .ask (.pause (pauseBefore c (failed + 1))) fun _ => countedAttempts c (failed + 1)
termination_by lastCount - failed

/-- As many retries as leave room for one failure more are counted without overflow. -/
theorem countedAttempts_eq {Pool : Type} {c : RedisConfig} (hretries : c.maxRetries < lastCount)
    (left failed : Nat) (hleft : failed + left = c.maxRetries) :
    (countedAttempts c failed : Store.Program Request (Request.Answer Pool) _) =
      (attempts c (failed + 1) left).bind fun result => .done (.ok result) := by
  rw [countedAttempts, attempts, Store.Program.bind]
  refine congrArg _ (funext fun answer => ?_)
  cases answer with
  | ok pool => rfl
  | error e =>
    dsimp only
    rw [if_neg (by omega)]
    cases left with
    | zero =>
      rw [if_pos (by omega)]
      rfl
    | succ left =>
      rw [if_neg (by omega), countedAttempts_eq hretries left (failed + 1) (by omega)]
      rfl

/-! ### Attempts by a sequence of outcomes -/

/-- Whether a request is an attempt. -/
def isAttempt : Request → Bool
  | .attempt .. => true
  | .pause _ => false

/-- The nanoseconds that a request waits for, if it does. -/
def pause? : Request → Option Nat
  | .attempt .. => none
  | .pause nanos => some nanos

/-- What is asked where connecting succeeds or gives up after so many retries, the next of which
has a given number. -/
def tries (c : RedisConfig) (retry : Nat) : Nat → List Request
  | 0 => [.attempt c.url c.maxConnections]
  | n + 1 =>
    .attempt c.url c.maxConnections :: .pause (pauseBefore c retry) :: tries c (retry + 1) n

section Tries
variable (c : RedisConfig) (retry n : Nat)

theorem attempts_tries : (tries c retry n).countP isAttempt = n + 1 := by
  induction n generalizing retry with
  | zero => rfl
  | succ n ih =>
    rw [tries, List.countP_cons_of_pos rfl, List.countP_cons_of_neg Bool.false_ne_true, ih]

/-- The pauses are those before the retries, numbered on. -/
theorem pauses_tries :
    (tries c retry n).filterMap pause? = (List.range' retry n).map (pauseBefore c) := by
  induction n generalizing retry with
  | zero => rfl
  | succ n ih =>
    rw [tries, List.filterMap_cons_none rfl, List.filterMap_cons_some (f := pause?) rfl, ih,
      List.range'_succ, List.map_cons]

theorem pauses_tries_sorted : ((tries c retry n).filterMap pause?).Pairwise (· ≤ ·) := by
  rw [pauses_tries, List.pairwise_map]
  exact (List.pairwise_le_range' ..).imp fun hle => pauseBefore_mono c hle

end Tries

section Outcomes
variable {Pool : Type} {c : RedisConfig} {asked : List Request}

/-- Answers the attempts one after another as the outcomes have it, and writes down what is
asked. -/
def journal (outcomes : Nat → Except Store.Error Pool) :
    (r : Request) → StateM (List Request) (r.Answer Pool)
  | .attempt url connections, asked =>
    (outcomes (asked.countP isAttempt), asked ++ [.attempt url connections])
  | .pause nanos, asked => ((), asked ++ [.pause nanos])

/-- Runs a program by a sequence of outcomes, after what was asked before: the result, and all that
was asked. -/
def runOn {α : Type} (outcomes : Nat → Except Store.Error Pool)
    (program : Store.Program Request (Request.Answer Pool) α) (asked : List Request) :
    α × List Request := program.run (journal outcomes) asked

theorem runOn_attempts (outcomes : Nat → Except Store.Error Pool) (retry left : Nat)
    (asked : List Request) :
    runOn outcomes (attempts c retry left) asked =
      match outcomes (asked.countP isAttempt) with
      | .ok pool => (.ok pool, asked ++ [.attempt c.url c.maxConnections])
      | .error e =>
        match left with
        | 0 => (.error e, asked ++ [.attempt c.url c.maxConnections])
        | left + 1 => runOn outcomes (attempts c (retry + 1) left)
            (asked ++ [.attempt c.url c.maxConnections, .pause (pauseBefore c retry)]) := by
  have hattempt : ∀ next : Except Store.Error Pool →
        Store.Program Request (Request.Answer Pool) (Except Store.Error Pool),
      runOn outcomes (.ask (.attempt c.url c.maxConnections) next) asked =
        runOn outcomes (next (outcomes (asked.countP isAttempt)))
          (asked ++ [.attempt c.url c.maxConnections]) := fun _ => rfl
  rw [attempts, hattempt]
  cases outcomes (asked.countP isAttempt) with
  | ok pool => rfl
  | error e =>
    cases left with
    | zero => rfl
    | succ left => exact congrArg (runOn outcomes _) (List.append_assoc ..)

/-- However many retries are left, and whatever was asked before: attempts are made until one
succeeds, or there are no more retries. -/
theorem attempts_until_success (outcomes : Nat → Except Store.Error Pool) (retry left : Nat)
    (asked : List Request) :
    let m := asked.countP isAttempt
    let r := runOn outcomes (attempts c retry left) asked
    ∃ n ≤ left, (∀ i < n, ∃ e, outcomes (m + i) = .error e) ∧
      (n < left → ∃ pool, outcomes (m + n) = .ok pool) ∧ r.1 = outcomes (m + n) ∧
      r.2 = asked ++ tries c retry n := by
  intro m r
  have hr : r = _ := runOn_attempts outcomes retry left asked
  cases hfirst : outcomes m with
  | ok pool =>
    simp only [m] at hfirst
    rw [hfirst] at hr
    exact ⟨0, left.zero_le, fun i hi => absurd hi i.not_lt_zero, fun _ => ⟨pool, hfirst⟩,
      hr ▸ hfirst.symm, hr ▸ rfl⟩
  | error e =>
    simp only [m] at hfirst
    simp only [hfirst] at hr
    cases left with
    | zero =>
      exact ⟨0, le_rfl, fun i hi => absurd hi i.not_lt_zero, fun h => absurd h (Nat.lt_irrefl 0),
        hr ▸ hfirst.symm, hr ▸ rfl⟩
    | succ left =>
      -- the attempt and the pause are behind; what is left has one retry less
      let asked' := asked ++ [.attempt c.url c.maxConnections, .pause (pauseBefore c retry)]
      have hplace : asked'.countP isAttempt = m + 1 := by
        rw [List.countP_append]
        rfl
      obtain ⟨n, hn, hbefore, hlast, hresult, hasked⟩ :=
        attempts_until_success outcomes (retry + 1) left asked'
      change r = runOn outcomes (attempts c (retry + 1) left) asked' at hr
      simp only [← hr, hplace, Nat.add_assoc, Nat.add_comm 1] at hbefore hlast hresult hasked
      refine ⟨n + 1, Nat.succ_le_succ hn, ?_, fun hmore => hlast (Nat.lt_of_succ_lt_succ hmore),
        hresult, ?_⟩
      · rintro (_ | i) hi
        · exact ⟨e, hfirst⟩
        · exact hbefore i (Nat.lt_of_succ_lt_succ hi)
      · rw [hasked, tries]
        exact List.append_assoc ..

/-- **Connecting is tried again so often as allowed, and waits twice as long each time.** Whatever
becomes of the attempts, there is a number of retries, at most that of the configuration, such that
all attempts before the last fail, and the last succeeds unless no retry is left; connecting comes
to what the last attempt comes to. It asks for the attempts, one more than the retries, and for the
pauses between them. The pause before each retry is the delay of the configuration, doubled once for
each retry before, as computed without any limit, but at most half a minute; so is the pause of any
number that a retry may have, and pauses never become shorter. Where the failures are counted in 32
bits, nothing of this is different. -/
theorem connect_backs_off (c : RedisConfig) (hretries : c.maxRetries < lastCount)
    (outcomes : Nat → Except Store.Error Pool) :
    let r := runOn outcomes (connect c) []
    let pauses := r.2.filterMap pause?
    (∃ retries ≤ c.maxRetries,
      (∀ i < retries, ∃ e, outcomes i = .error e) ∧
      (retries < c.maxRetries → ∃ pool, outcomes retries = .ok pool) ∧
      r.1 = outcomes retries ∧
      r.2 = tries c 1 retries ∧
      r.2.countP isAttempt = retries + 1 ∧
      pauses = (List.range' 1 retries).map fun k =>
        min 30000000000 (c.retryDelayMs * 1000000 * 2 ^ (k - 1))) ∧
    pauses.Pairwise (· ≤ ·) ∧
    (∀ k, pauseBefore c k = min 30000000000 (c.retryDelayMs * 1000000 * 2 ^ (k - 1))) ∧
    Monotone (pauseBefore c) ∧
    runOn outcomes (countedAttempts c 0) [] = (.ok r.1, r.2) := by
  intro r pauses
  obtain ⟨n, hn, hbefore, hlast, hresult, hasked⟩ : ∃ n ≤ c.maxRetries, _ :=
    attempts_until_success outcomes 1 c.maxRetries []
  simp only [List.countP_nil, Nat.zero_add, List.nil_append] at hbefore hlast hresult hasked
  change r.2 = _ at hasked
  have hpauses : pauses = (tries c 1 n).filterMap pause? := congrArg _ hasked
  refine ⟨⟨n, hn, hbefore, hlast, hresult, hasked, ?_, ?_⟩, ?_, pauseBefore_eq c,
    pauseBefore_mono c, ?_⟩
  · rw [hasked, attempts_tries]
  · rw [hpauses, pauses_tries]
    exact List.map_congr_left fun k _ => pauseBefore_eq c k
  · rw [hpauses]
    exact pauses_tries_sorted c 1 n
  · rw [countedAttempts_eq hretries c.maxRetries 0 (Nat.zero_add _), runOn, Store.Program.run_bind]
    rfl

/-- The first two attempts fail; the delay of twenty seconds is waited once, and then half a
minute. -/
theorem connect_backs_off_twice :
    let c : RedisConfig := { url := "redis://localhost", maxRetries := 3, retryDelayMs := 20000 }
    let down : Store.Error := .connectionFailed "connection refused"
    let outcomes : Nat → Except Store.Error Nat := fun i => if i < 2 then .error down else .ok i
    let attempt : Request := .attempt "redis://localhost" 16
    c.maxRetries < lastCount ∧
      runOn outcomes (connect c) [] =
        (.ok 2, [attempt, .pause 20000000000, attempt, .pause 30000000000, attempt]) ∧
      runOn outcomes (countedAttempts c 0) [] =
        (.ok (.ok 2), [attempt, .pause 20000000000, attempt, .pause 30000000000, attempt]) := by
  intro c down outcomes attempt
  have hretries : c.maxRetries < lastCount := by decide
  have hrun : runOn outcomes (connect c) [] =
    (.ok 2, [attempt, .pause 20000000000, attempt, .pause 30000000000, attempt]) := by
    decide +kernel
  obtain ⟨-, -, -, -, hcounted⟩ := connect_backs_off c hretries outcomes
  rw [hrun] at hcounted
  exact ⟨hretries, hrun, hcounted⟩

end Outcomes

end Gatehouse.Redis.Connection
