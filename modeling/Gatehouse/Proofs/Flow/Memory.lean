import Gatehouse.Flow.Loader
import Gatehouse.Proofs.Table
import Mathlib.Data.List.Induction

/-! Contexts in memory: what is kept of a transaction, and what the loader comes to where
nothing goes wrong.

The versions of a transaction stand in the order in which they were written, and a read is
answered with the one last written among the highest (`isTop_of_highest`). The loader reads
that one however often it reads, and changes nothing (`run_load`). -/
namespace Gatehouse.Flow.Memory

/-! ### The highest version -/

/-- The version last written among the highest. -/
def IsTop (versions : List Context) (c : Context) : Prop :=
  ∃ older newer, versions = older ++ c :: newer ∧ (∀ x ∈ older, x.version ≤ c.version) ∧
    ∀ x ∈ newer, x.version < c.version

section Highest
variable {l : List Context} {c d x : Context}

theorem IsTop.mem (h : IsTop l c) : c ∈ l := by
  obtain ⟨older, newer, rfl, -, -⟩ := h
  simp

theorem IsTop.version_le (h : IsTop l c) (hx : x ∈ l) : x.version ≤ c.version := by
  obtain ⟨older, newer, rfl, holder, hnewer⟩ := h
  rcases List.mem_append.mp hx with hx | hx
  · exact holder x hx
  · rcases List.mem_cons.mp hx with rfl | hx
    · exact Nat.le_refl _
    · exact Nat.le_of_lt (hnewer x hx)

theorem highest_concat (l : List Context) (c : Context) :
    highest (l ++ [c]) = higher (highest l) c := List.foldl_append

theorem highest_eq_none_iff : highest l = none ↔ l = [] := by
  refine ⟨fun h => ?_, fun h => h ▸ rfl⟩
  induction l using List.reverseRecOn with
  | nil => rfl
  | append_singleton l x _ =>
    rw [highest_concat] at h
    cases hl : highest l <;> simp only [hl, higher] at h
    · cases h
    · split at h <;> cases h

/-- A read is answered with the version last written among the highest. -/
theorem isTop_of_highest (h : highest l = some c) : IsTop l c := by
  induction l using List.reverseRecOn generalizing c with
  | nil => cases h
  | append_singleton l x ih =>
    rw [highest_concat] at h
    cases htop : highest l with
    | none =>
      rw [htop] at h
      cases h
      rw [highest_eq_none_iff.mp htop]
      exact ⟨[], [], rfl, List.forall_mem_nil _, List.forall_mem_nil _⟩
    | some b =>
      have hb := ih htop
      rw [htop] at h
      simp only [higher] at h
      split at h
      · next hlt =>
        cases h
        obtain ⟨older, newer, rfl, holder, hnewer⟩ := hb
        refine ⟨older, newer ++ [x], by simp, holder, fun y hy => ?_⟩
        rcases List.mem_append.mp hy with hy | hy
        · exact hnewer y hy
        · exact List.mem_singleton.mp hy ▸ hlt
      · next hge =>
        cases h
        exact ⟨l, [], rfl, fun y hy => Nat.le_trans (hb.version_le hy) (Nat.not_lt.mp hge), by simp⟩

/-- The version last written is a highest one exactly when a read is answered with it, or
with its equal. -/
theorem highest_eq_getLast?_iff :
    highest l = l.getLast? ↔ ∀ d ∈ l.getLast?, ∀ x ∈ l, x.version ≤ d.version := by
  refine ⟨fun h d hd x hx => ?_, fun h => ?_⟩
  · exact (isTop_of_highest (h.trans hd)).version_le hx
  · cases htop : highest l with
    | none => rw [highest_eq_none_iff.mp htop, List.getLast?_nil]
    | some c =>
      obtain ⟨older, newer, rfl, holder, hnewer⟩ := isTop_of_highest htop
      cases newer using List.reverseRecOn with
      | nil => simp
      | append_singleton newer d =>
        -- A lower version written last would not be one of the highest.
        have hlast : (older ++ c :: (newer ++ [d])).getLast? = some d := by
          rw [← List.cons_append, ← List.append_assoc, List.getLast?_concat]
        have hle : c.version ≤ d.version := h d hlast c (by simp)
        exact absurd (hnewer d (by simp)) (Nat.not_lt.mpr hle)

end Highest

/-! ### What is kept of a transaction -/

section Versions
variable (s : Memory) (c : Context) (tx : String)

theorem versions_put :
    (s.put c).versions tx = s.versions tx ++ if c.transactionId = tx then [c] else [] := by
  split
  · next htx =>
    subst htx
    rw [versions, put, Table.find?_insert_self]
    rfl
  · next htx =>
    rw [versions, put, Table.find?_insert_ne _ (Ne.symm htx), List.append_nil]
    rfl

theorem versions_erase (removed : String) :
    (⟨s.contexts.erase removed⟩ : Memory).versions tx =
      if removed = tx then [] else s.versions tx := by
  split
  · next htx =>
    subst htx
    rw [versions, Table.find?_erase_self]
    rfl
  · next htx =>
    rw [versions, Table.find?_erase_ne _ (Ne.symm htx)]
    rfl

/-- A transaction has the versions whose time is not over. -/
theorem versions_purge (h : s.contexts.Ordered) (now : Instant) :
    (s.purge now).versions tx = (s.versions tx).filter fun c => now < c.expireAt := by
  rw [versions, purge, (h.mapValues _).find?_keep, Table.find?_mapValues, versions]
  cases s.contexts.find? tx with
  | none => rfl
  | some cs =>
    simp only [Option.map_some, Option.getD_some]
    cases cs.filter fun c => now < c.expireAt <;> rfl

end Versions

/-! ### Ordered stores -/

/-- Transactions stand in order. -/
def Ordered (s : Memory) : Prop := s.contexts.Ordered

section Ordered
variable {s : Memory}

theorem ordered_empty : ({} : Memory).Ordered := Table.ordered_empty

theorem Ordered.put (h : s.Ordered) (c : Context) : (s.put c).Ordered := Table.Ordered.insert h _ _

theorem Ordered.purge (h : s.Ordered) (now : Instant) : (s.purge now).Ordered :=
  Table.Ordered.keep (Table.Ordered.mapValues h _) _

end Ordered

/-! ### The loader -/

/-- Runs calls over a store in memory, where nothing goes wrong. -/
def run {α : Type} (s : Memory) (calls : Calls α) : α × Memory := Store.Program.run answer calls s

/-- What a read finds at an instant: where nothing was written, a context that never was. -/
def found (s : Memory) (tx : String) (now : Instant) : Context :=
  (highest (s.versions tx)).getD (.fresh tx now)

section Loader
variable (s : Memory) (settings : ConsistencySettings) (tx : String)

theorem run_ask {α : Type} (r : Request) (next : r.Answer → Calls α) :
    s.run (.ask r next) = (answer r s).2.run (next (answer r s).1) := rfl

theorem run_reads (expected : Nat) (now : Instant) (retry left : Nat) :
    s.run (Loader.reads settings tx expected now retry left) =
      (if Loader.isCurrent (s.found tx now) expected then .ok (s.found tx now)
        else .error (.staleContext tx expected (s.found tx now).version), s) := by
  induction left generalizing retry with
  | zero =>
    rw [Loader.reads, run_ask]
    show s.run (if Loader.isCurrent (s.found tx now) expected = true then _ else _) = _
    split <;> rfl
  | succ left ih =>
    rw [Loader.reads, run_ask]
    show s.run (if Loader.isCurrent (s.found tx now) expected = true then _ else _) = _
    split
    · rfl
    · next hstale =>
      -- What is read again is what was read before.
      have hagain := ih (retry + 1)
      rw [if_neg hstale] at hagain
      exact hagain

/-- A load finds the highest version, and is refused it where it is below the one expected;
a context that was never written is never refused. -/
theorem run_load (expected : Nat) (now : Instant) :
    s.run (Loader.load settings tx expected now) =
      (if Loader.isCurrent (s.found tx now) expected then .ok (s.found tx now)
        else .error (.staleContext tx expected (s.found tx now).version), s) :=
  s.run_reads settings tx expected now 1 settings.maxRetries

theorem run_save (c : Context) (now : Instant) :
    s.run (Loader.save settings c now) =
      (.ok (c.next now settings.contextTtl), s.put (c.next now settings.contextTtl)) := rfl

end Loader

end Gatehouse.Flow.Memory
