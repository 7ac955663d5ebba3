import Gatehouse.Proofs.Flow.Rereading

/-! The version that a stale load tells.

A load that gives up tells the version it found, and that is what its last read was answered with
(`load_stale_iff`), not the highest of all that it read: replicas answer in any order, and
one that lags behind may be the last to be asked. `found_highest_iff` says when the two
are one: when no read before the last was answered with more. -/
namespace Gatehouse.Flow.Loader

/-- The version that a read is answered with. -/
def version? : Reading → Option Nat
  | .ok (some c) => some c.version
  | _ => none

/-- The versions that so many reads are answered with, first to last. -/
def versionsRead (script : Nat → Reading) (reads : Nat) : List Nat :=
  (List.range reads).filterMap fun i => version? (script i)

section Versions
variable {script : Nat → Reading} {n v : Nat}

theorem mem_versionsRead : v ∈ versionsRead script n ↔ ∃ i < n, version? (script i) = some v := by
  simp only [versionsRead, List.mem_filterMap, List.mem_range]

theorem versionsRead_succ (h : version? (script n) = some v) :
    versionsRead script (n + 1) = versionsRead script n ++ [v] := by
  rw [versionsRead, List.range_succ, List.filterMap_append, versionsRead]
  simp [h]

/-- The last version read is the highest just if none before it is higher. -/
theorem max?_versionsRead_iff (h : version? (script n) = some v) :
    (versionsRead script (n + 1)).max? = some v ↔
      ∀ i < n, ∀ w ∈ version? (script i), w ≤ v := by
  rw [List.max?_eq_some_iff, versionsRead_succ h]
  constructor
  · rintro ⟨-, hmost⟩ i hi w hw
    exact hmost w (List.mem_append_left _ (mem_versionsRead.mpr ⟨i, hi, hw⟩))
  · refine fun hbefore => ⟨List.mem_append_right _ (List.mem_singleton_self v), fun w hw => ?_⟩
    rcases List.mem_append.mp hw with hw | hw
    · obtain ⟨i, hi, hread⟩ := mem_versionsRead.mp hw
      exact hbefore i hi w hread
    · exact Nat.le_of_eq (List.mem_singleton.mp hw)

end Versions

section Load
variable {s : ConsistencySettings} {tx tx' : String} {expected expected' found : Nat} {now : Instant}
  {script : Nat → Reading}

theorem Stale.exists_version {reading : Reading} (h : Stale expected reading) :
    ∃ v, version? reading = some v := by
  obtain ⟨c, rfl, -⟩ := h
  exact ⟨c.version, rfl⟩

/-- A failed call of the store is not told as a stale context. -/
theorem ofStore_ne_staleContext (e : Store.Error) :
    Failure.ofStore e ≠ .staleContext tx expected found := by
  rw [Failure.ofStore]
  split <;> exact Failure.noConfusion

/-- Only a load whose last chance is stale gives up, and it tells the version of that read. -/
theorem Ends.of_staleContext {last : Prop} {reading : Reading}
    (h : Ends tx expected now last reading (.error (.staleContext tx' expected' found))) :
    last ∧ tx' = tx ∧ expected' = expected ∧ Stale expected reading ∧
      version? reading = some found := by
  generalize hresult : Except.error (Failure.staleContext tx' expected' found) = result at h
  cases h with
  | failed e => exact absurd (Except.error.inj hresult).symm (ofStore_ne_staleContext e)
  | absent => cases hresult
  | current c _ => cases hresult
  | stale c hlast hwritten hbelow =>
    cases hresult
    exact ⟨hlast, rfl, rfl, ⟨c, rfl, hwritten, hbelow⟩, rfl⟩

/-- A read that is stale does not end a load with a context. -/
theorem Ends.eq_staleContext {last : Prop} {reading : Reading} {result : Except Failure Context}
    (h : Ends tx expected now last reading result) (hstale : Stale expected reading)
    (hfound : version? reading = some found) :
    last ∧ result = .error (.staleContext tx expected found) := by
  obtain ⟨c, rfl, hwritten, hbelow⟩ := hstale
  cases hfound
  cases h with
  | current _ hcurrent => omega
  | stale _ hlast _ _ => exact ⟨hlast, rfl⟩

/-- A load ends with the first of its reads that is not stale, or with its last chance. -/
theorem exists_retries (s : ConsistencySettings) (tx : String) (expected : Nat) (now : Instant)
    (script : Nat → Reading) :
    let r := runOn script (load s tx expected now) []
    ∃ n ≤ s.maxRetries, (∀ i < n, Stale expected (script i)) ∧
      Ends tx expected now (n = s.maxRetries) (script n) r.1 ∧ r.2.countP isRead = n + 1 := by
  intro r
  obtain ⟨n, hn, hbefore, hend, hasked⟩ : ∃ n ≤ s.maxRetries, _ :=
    reads_until_settled script 1 s.maxRetries []
  simp only [List.countP_nil, Nat.zero_add, List.nil_append] at hbefore hend hasked
  change r.2 = _ at hasked
  exact ⟨n, hn, hbefore, hend, by rw [hasked, reads_rereads]⟩

/-- **A load gives up just where every read it may make is stale**, and tells the version that the
last of them was answered with. -/
theorem load_stale_iff :
    (runOn script (load s tx expected now) []).1 =
        .error (.staleContext tx' expected' found) ↔
      tx' = tx ∧ expected' = expected ∧ (∀ i ≤ s.maxRetries, Stale expected (script i)) ∧
        version? (script s.maxRetries) = some found := by
  obtain ⟨n, hn, hbefore, hend, -⟩ := exists_retries s tx expected now script
  constructor
  · intro hstale
    rw [hstale] at hend
    obtain ⟨rfl, rfl, rfl, hlast, hfound⟩ := hend.of_staleContext
    refine ⟨rfl, rfl, fun i hi => ?_, hfound⟩
    rcases Nat.lt_or_eq_of_le hi with hlt | rfl
    · exact hbefore i hlt
    · exact hlast
  · rintro ⟨rfl, rfl, hstale, hfound⟩
    obtain ⟨v, hv⟩ := (hstale n hn).exists_version
    obtain ⟨hlast, hresult⟩ := hend.eq_staleContext (hstale n hn) hv
    rw [hlast, hfound] at hv
    cases hv
    exact hresult

/-- A load that gives up has read as often as it may. -/
theorem reads_of_stale (h : (runOn script (load s tx expected now) []).1 =
      .error (.staleContext tx' expected' found)) :
    (runOn script (load s tx expected now) []).2.countP isRead = s.maxRetries + 1 := by
  obtain ⟨n, -, -, hend, hreads⟩ := exists_retries s tx expected now script
  rw [h] at hend
  rw [hreads, hend.of_staleContext.1]

end Load

/-- **The version told is that of the last read.** Whatever the reads of a load are answered, if it
fails for being stale, it tells the version that was read last; and this is the highest version
that was read just where no read before it was answered with a higher one. -/
theorem found_highest_iff (s : ConsistencySettings) (tx : String) (expected : Nat) (now : Instant)
    (script : Nat → Reading) {tx' : String} {expected' found : Nat}
    (h : (runOn script (load s tx expected now) []).1 =
      .error (.staleContext tx' expected' found)) :
    let seen := versionsRead script ((runOn script (load s tx expected now) []).2.countP isRead)
    seen.getLast? = some found ∧
      (seen.max? = some found ↔ ∀ i < s.maxRetries, ∀ v ∈ version? (script i), v ≤ found) := by
  intro seen
  obtain ⟨-, -, -, hlast⟩ := load_stale_iff.mp h
  have hseen : seen = versionsRead script (s.maxRetries + 1) :=
    congrArg (versionsRead script) (reads_of_stale h)
  rw [hseen]
  refine ⟨?_, max?_versionsRead_iff hlast⟩
  rw [versionsRead_succ hlast, List.getLast?_concat]

/-- A replica that is behind answers between two that are not: of versions 4, 2 and 4 the last is
a highest. -/
theorem found_highest_of_three_reads :
    let s : ConsistencySettings := { maxRetries := 2 }
    let script : Nat → Reading :=
      fun i => .ok (some { Context.fresh "tx" .epoch with version := [4, 2, 4].getD i 0 })
    let r := runOn script (load s "tx" 5 .epoch) []
    let seen := versionsRead script (r.2.countP isRead)
    r.1 = .error (.staleContext "tx" 5 4) ∧ seen.getLast? = some 4 ∧ seen.max? = some 4 := by
  intro s script r seen
  have hbehind : ∀ i ≤ 2, [4, 2, 4].getD i 0 ≠ 0 ∧ [4, 2, 4].getD i 0 < 5 := by decide
  have hstale : r.1 = .error (.staleContext "tx" 5 4) :=
    load_stale_iff.mpr ⟨rfl, rfl, fun i hi => ⟨_, rfl, hbehind i hi⟩, rfl⟩
  obtain ⟨hlast, hhighest⟩ := found_highest_iff s "tx" 5 .epoch script hstale
  refine ⟨hstale, hlast, hhighest.mpr fun i hi v hv => ?_⟩
  cases hv
  exact Nat.le_of_lt_succ (hbehind i (Nat.le_of_lt hi)).2

/-- A replica that is behind is the last to be asked: of versions 3 and 2 the load tells 2. -/
theorem found_below_highest :
    let s : ConsistencySettings := { maxRetries := 1 }
    let script : Nat → Reading :=
      fun i => .ok (some { Context.fresh "tx" .epoch with version := [3, 2].getD i 0 })
    let r := runOn script (load s "tx" 5 .epoch) []
    r.1 = .error (.staleContext "tx" 5 2) ∧
      (versionsRead script (r.2.countP isRead)).max? = some 3 := by
  intro s script r
  have hbehind : ∀ i ≤ 1, [3, 2].getD i 0 ≠ 0 ∧ [3, 2].getD i 0 < 5 := by decide
  have hstale : r.1 = .error (.staleContext "tx" 5 2) :=
    load_stale_iff.mpr ⟨rfl, rfl, fun i hi => ⟨_, rfl, hbehind i hi⟩, rfl⟩
  have hreads : r.2.countP isRead = 2 := reads_of_stale hstale
  exact ⟨hstale, by rw [hreads]; rfl⟩

end Gatehouse.Flow.Loader
