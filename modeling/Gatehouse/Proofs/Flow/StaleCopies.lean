import Gatehouse.Proofs.Flow.Memory
import Gatehouse.Proofs.Machine
import Gatehouse.Proofs.Time.Order

/-! Loads that go back.

Whoever saves an old copy of a context writes a version below the highest. Nobody is shown it
while a higher one is kept; but the old copy was saved later, so it is dropped later too, and
for a while it may be all that is left. `load_goes_back_iff` says when: a load is handed a
lower version than an earlier load exactly when everything as high as that has been dropped
by a purge and something lower has not, which can happen (`loads_can_go_back`). Where nobody
saves an old copy, loads never go back (`version_le_of_ascending`). -/
namespace Gatehouse.Flow.Loader

/-! ### The loader of one transaction -/

/-- What happens to the contexts of a transaction. -/
inductive Event where
  | loaded (expected : Nat)
  | saved (c : Context)
  | purged

/-- The loader, over a store in memory where nothing goes wrong; a purge has no answer. -/
def loader (s : ConsistencySettings) (tx : String) :
    Machine (Event × Instant) Memory (Option (Except Failure Context)) where
  next e m :=
    match e.1 with
    | .loaded expected =>
      let r := m.run (load s tx expected e.2)
      (some r.1, r.2)
    | .saved c =>
      let r := m.run (save s c e.2)
      (some r.1, r.2)
    | .purged => (none, m.purge e.2)

/-- An event of a run is a load that is handed a context. -/
def Loads (s : ConsistencySettings) (tx : String) (es : List (Event × Instant)) (i : Nat)
    (c : Context) : Prop :=
  ∃ expected now, es[i]? = some (.loaded expected, now) ∧
    ((loader s tx).answers {} es)[i]? = some (some (.ok c))

/-- Whatever is saved in a run was handed out in it before, by a load or by a save. -/
def SavesHandedOut (s : ConsistencySettings) (tx : String) (es : List (Event × Instant)) : Prop :=
  ∀ (i : Nat) (c : Context) (now : Instant), es[i]? = some (.saved c, now) →
    ∃ j < i, ((loader s tx).answers {} es)[j]? = some (some (.ok c))

/-! ### What is written, and what is left of it -/

/-- A version that was written, and the purges after it. -/
structure Write where
  context : Context
  purges : List Instant

/-- A purge came when the time of a version was over. -/
def Write.Dropped (w : Write) : Prop := ∃ now ∈ w.purges, w.context.expireAt ≤ now

instance (w : Write) : Decidable w.Dropped := inferInstanceAs (Decidable (∃ now ∈ w.purges, _))

/-- The purges in a run. -/
def purges : List (Event × Instant) → List Instant
  | [] => []
  | (.purged, now) :: rest => now :: purges rest
  | _ :: rest => purges rest

/-- The versions of a transaction that are written in a run, in their order. -/
def writes (s : ConsistencySettings) (tx : String) : List (Event × Instant) → List Write
  | [] => []
  | (.saved c, now) :: rest =>
    if c.transactionId = tx then ⟨c.next now s.contextTtl, purges rest⟩ :: writes s tx rest
    else writes s tx rest
  | _ :: rest => writes s tx rest

/-- The versions of a transaction that are written in a run and not dropped. -/
def left (s : ConsistencySettings) (tx : String) (es : List (Event × Instant)) : List Context :=
  ((writes s tx es).filter fun w => ¬w.Dropped).map (·.context)

section Writes
variable {s : ConsistencySettings} {tx : String} {c : Context} {w : Write}
  {es es' : List (Event × Instant)}

theorem mem_left : c ∈ left s tx es ↔ ∃ w ∈ writes s tx es, ¬w.Dropped ∧ w.context = c := by
  simp [left, and_assoc]

theorem purges_append (es es' : List (Event × Instant)) :
    purges (es ++ es') = purges es ++ purges es' := by
  induction es with
  | nil => rfl
  | cons e rest ih =>
    obtain ⟨e, now⟩ := e
    cases e with
    | purged => exact congrArg (now :: ·) ih
    | loaded | saved => exact ih

theorem writes_append (s : ConsistencySettings) (tx : String) (es es' : List (Event × Instant)) :
    writes s tx (es ++ es') =
      (writes s tx es).map (fun w => ⟨w.context, w.purges ++ purges es'⟩) ++ writes s tx es' := by
  induction es with
  | nil => rfl
  | cons e rest ih =>
    obtain ⟨e, now⟩ := e
    cases e with
    | loaded | purged => exact ih
    | saved c =>
      simp only [List.cons_append, writes]
      split
      · rw [ih, purges_append]
        rfl
      · exact ih

/-- A version that is written is one more than the copy that is saved. -/
theorem exists_saved_of_mem_writes (h : w ∈ writes s tx es) :
    ∃ c now, (.saved c, now) ∈ es ∧ w.context = c.next now s.contextTtl ∧
      w.purges.Sublist (purges es) := by
  induction es with
  | nil => cases h
  | cons e rest ih =>
    obtain ⟨e, now⟩ := e
    have hrest : w ∈ writes s tx rest → ∃ c t, (.saved c, t) ∈ (e, now) :: rest ∧
        w.context = c.next t s.contextTtl ∧ w.purges.Sublist (purges rest) := fun hw =>
      have ⟨c, t, hmem, hcontext, hpurges⟩ := ih hw
      ⟨c, t, List.mem_cons_of_mem _ hmem, hcontext, hpurges⟩
    cases e with
    | loaded expected => exact hrest h
    | purged =>
      obtain ⟨c, t, hmem, hcontext, hpurges⟩ := hrest h
      exact ⟨c, t, hmem, hcontext, hpurges.cons _⟩
    | saved c =>
      rw [writes] at h
      split at h
      · rcases List.mem_cons.mp h with rfl | h
        · exact ⟨c, now, List.mem_cons_self, rfl, List.Sublist.refl _⟩
        · exact hrest h
      · exact hrest h

theorem dropped_cons {now : Instant} {later : List Instant} :
    Write.Dropped ⟨c, now :: later⟩ ↔ c.expireAt ≤ now ∨ Write.Dropped ⟨c, later⟩ := by
  simp [Write.Dropped]

/-- A store keeps what was not dropped of what it had and of what is written. -/
theorem versions_after {m : Memory} (h : m.Ordered) (es : List (Event × Instant)) :
    ((loader s tx).after m es).versions tx =
      ((m.versions tx).filter fun c => ¬Write.Dropped ⟨c, purges es⟩) ++ left s tx es := by
  induction es generalizing m with
  | nil =>
    have hkept : (m.versions tx).filter (fun c => ¬Write.Dropped ⟨c, purges []⟩) = m.versions tx :=
      List.filter_eq_self.mpr fun c _ => by simp [Write.Dropped, purges]
    rw [hkept]
    exact (List.append_nil _).symm
  | cons e rest ih =>
    obtain ⟨e, now⟩ := e
    cases e with
    | loaded expected =>
      have hload : ((loader s tx).next (.loaded expected, now) m).2 = m :=
        congrArg Prod.snd (m.run_load s tx expected now)
      rw [Machine.after, hload]
      exact ih h
    | saved c =>
      have hsave : ((loader s tx).next (.saved c, now) m).2 = m.put (c.next now s.contextTtl) :=
        congrArg Prod.snd (m.run_save s c now)
      rw [Machine.after, hsave, ih (h.put _), Memory.versions_put, List.filter_append,
        List.append_assoc]
      refine congrArg (List.append _) ?_
      rw [left, left, writes, Context.next]
      split
      · simp only [List.filter_cons, List.filter_nil]
        split <;> rfl
      · rfl
    | purged =>
      rw [Machine.after]
      show ((loader s tx).after (m.purge now) rest).versions tx = _
      rw [ih (h.purge now), Memory.versions_purge _ _ h, List.filter_filter]
      refine congrArg (· ++ _) (List.filter_congr fun c _ => ?_)
      simp [purges, dropped_cons, Bool.and_comm]

end Writes

/-! ### What a load is handed -/

section Loads
variable {s : ConsistencySettings} {tx : String} {es : List (Event × Instant)} {i j : Nat}
  {c d : Context}

/-- A load is handed the highest version that is left, or one that was never written, if that
is current. -/
theorem loads_iff :
    Loads s tx es i c ↔ ∃ expected now, es[i]? = some (.loaded expected, now) ∧
      isCurrent c expected = true ∧
        c = (Memory.highest (left s tx (es.take i))).getD (.fresh tx now) := by
  refine exists_congr fun expected => exists_congr fun now => and_congr_right fun hevent => ?_
  have hversions : ((loader s tx).after {} (es.take i)).versions tx = left s tx (es.take i) :=
    versions_after Memory.ordered_empty _
  rw [(loader s tx).answers_getElem? {} hevent, ← hversions]
  show some (some (Memory.run _ (load s tx expected now)).1) = _ ↔ _ ∧ c = Memory.found _ tx now
  rw [Memory.run_load, Option.some_inj, Option.some_inj]
  constructor
  · intro hload
    split at hload
    · next hcurrent =>
      cases hload
      exact ⟨hcurrent, rfl⟩
    · cases hload
  · rintro ⟨hcurrent, rfl⟩
    exact if_pos hcurrent

/-- Where something is left, a load is handed the version last written among the highest. -/
theorem Loads.isTop (h : Loads s tx es i c) (hleft : left s tx (es.take i) ≠ []) :
    Memory.IsTop (left s tx (es.take i)) c := by
  obtain ⟨_, now, -, -, rfl⟩ := loads_iff.mp h
  cases htop : Memory.highest (left s tx (es.take i)) with
  | none => exact absurd (Memory.highest_eq_none_iff.mp htop) hleft
  | some c => exact Memory.isTop_of_highest htop

/-- Where nothing is left, a load is handed a context that was never written. -/
theorem Loads.version_eq_zero (h : Loads s tx es i c) (hleft : left s tx (es.take i) = []) :
    c.version = 0 := by
  obtain ⟨_, now, -, -, rfl⟩ := loads_iff.mp h
  rw [hleft]
  rfl

theorem version_pos_of_mem_writes {w : Write} (h : w ∈ writes s tx es) : 0 < w.context.version := by
  obtain ⟨c, now, -, hcontext, -⟩ := exists_saved_of_mem_writes h
  rw [hcontext]
  exact Nat.lt_min.mpr ⟨Nat.succ_pos _, by decide⟩

/-- A load is handed a written version below a bound exactly when nothing from the bound up is
left, but something is. -/
theorem Loads.below_iff (h : Loads s tx es j d) (v : Nat) :
    d.version ≠ 0 ∧ d.version < v ↔
      (∀ w ∈ writes s tx (es.take j), v ≤ w.context.version → w.Dropped) ∧
        ∃ w ∈ writes s tx (es.take j), ¬w.Dropped := by
  constructor
  · rintro ⟨hne, hlt⟩
    have hleft : left s tx (es.take j) ≠ [] := fun hnil => hne (h.version_eq_zero hnil)
    have htop := h.isTop hleft
    obtain ⟨x, hx⟩ := List.exists_mem_of_ne_nil _ hleft
    obtain ⟨w, hw, hkept, -⟩ := mem_left.mp hx
    refine ⟨fun w hw hle => ?_, w, hw, hkept⟩
    -- What is left is no higher than what the load is handed.
    by_contra hkept
    have hle' := htop.version_le (mem_left.mpr ⟨w, hw, hkept, rfl⟩)
    omega
  · rintro ⟨hdropped, w, hw, hkept⟩
    have hmem : w.context ∈ left s tx (es.take j) := mem_left.mpr ⟨w, hw, hkept, rfl⟩
    obtain ⟨w', hw', hkept', rfl⟩ := mem_left.mp (h.isTop (List.ne_nil_of_mem hmem)).mem
    exact ⟨Nat.ne_of_gt (version_pos_of_mem_writes hw'),
      Nat.lt_of_not_le fun hle => hkept' (hdropped w' hw' hle)⟩

/-- What a load is handed, if it was ever written, was written before the load. -/
theorem Loads.exists_write (h : Loads s tx es i c) (hc : 0 < c.version) (hij : i ≤ j) :
    ∃ w ∈ writes s tx (es.take j), w.context = c := by
  have hleft : left s tx (es.take i) ≠ [] := fun hnil => Nat.ne_of_gt hc (h.version_eq_zero hnil)
  obtain ⟨w, hw, -, rfl⟩ := mem_left.mp (h.isTop hleft).mem
  have hsplit : es.take j = es.take i ++ (es.take j).drop i := by
    have htake : (es.take j).take i = es.take i := by rw [List.take_take, Nat.min_eq_left hij]
    rw [← htake, List.take_append_drop]
  rw [hsplit, writes_append]
  exact ⟨_, List.mem_append_left _ (List.mem_map.mpr ⟨w, hw, rfl⟩), rfl⟩

/-- A load is handed a lower version than an earlier load exactly when what the earlier one was
handed has been dropped, with all that was written as high, and something lower is left. -/
theorem load_goes_back_iff (hfirst : Loads s tx es i c) (hsecond : Loads s tx es j d) (hij : i < j)
    (hc : 0 < c.version) :
    d.version ≠ 0 ∧ d.version < c.version ↔
      (∃ w ∈ writes s tx (es.take j), w.context = c ∧ w.Dropped) ∧
        (∀ w ∈ writes s tx (es.take j), c.version ≤ w.context.version → w.Dropped) ∧
          ∃ w ∈ writes s tx (es.take j), ¬w.Dropped := by
  rw [hsecond.below_iff]
  refine ⟨fun ⟨hdropped, hleft⟩ => ⟨?_, hdropped, hleft⟩, fun h => h.2⟩
  obtain ⟨w, hw, rfl⟩ := hfirst.exists_write hc (Nat.le_of_lt hij)
  exact ⟨w, hw, rfl, hdropped w hw (Nat.le_refl _)⟩

/-- A save is answered with the version that it writes. -/
theorem answers_saved {now : Instant} (h : es[i]? = some (.saved c, now)) :
    ((loader s tx).answers {} es)[i]? = some (some (.ok (c.next now s.contextTtl))) := by
  rw [(loader s tx).answers_getElem? {} h]
  exact congrArg (fun r => some (some r.1)) (Memory.run_save _ s c now)

end Loads

/-! ### An old copy that outlives the versions above it -/

/-- A version of a transaction, kept for five minutes. -/
def version (n : Nat) (writtenAt : Instant) : Context where
  transactionId := "tx"
  version := n
  createdAt := writtenAt
  expireAt := writtenAt.after (.seconds 300)

/-- Two versions are written at once; a second later one writes who still has the context from
before them. Five minutes after the first two, they are dropped. -/
def rewound : List (Event × Instant) := [
  (.loaded 0, ⟨0, 0⟩),
  (.saved (.fresh "tx" ⟨0, 0⟩), ⟨0, 0⟩),
  (.saved (version 1 ⟨0, 0⟩), ⟨0, 0⟩),
  (.loaded 2, ⟨0, 0⟩),
  (.saved (.fresh "tx" ⟨0, 0⟩), ⟨1000000000, 0⟩),
  (.purged, ⟨300000000000, 0⟩),
  (.loaded 0, ⟨300000000000, 0⟩)]

theorem loads_fresh : Loads {} "tx" rewound 0 (.fresh "tx" ⟨0, 0⟩) :=
  loads_iff.mpr ⟨0, ⟨0, 0⟩, rfl, rfl, rfl⟩

theorem loads_second_version : Loads {} "tx" rewound 3 (version 2 ⟨0, 0⟩) :=
  loads_iff.mpr ⟨2, ⟨0, 0⟩, rfl, rfl, rfl⟩

theorem loads_first_version_again : Loads {} "tx" rewound 6 (version 1 ⟨1000000000, 0⟩) :=
  loads_iff.mpr ⟨0, ⟨300000000000, 0⟩, rfl, rfl, rfl⟩

theorem savesHandedOut_rewound : SavesHandedOut {} "tx" rewound := by
  obtain ⟨_, _, _, hfresh⟩ := loads_fresh
  have hfirst : ((loader {} "tx").answers {} rewound)[1]? = some (some (.ok (version 1 ⟨0, 0⟩))) :=
    answers_saved (c := .fresh "tx" ⟨0, 0⟩) rfl
  intro i c now h
  have hlt : i < 7 := (List.getElem?_eq_some_iff.mp h).1
  match i, hlt with
  | 1, _ => cases h; exact ⟨0, by decide, hfresh⟩
  | 2, _ => cases h; exact ⟨1, by decide, hfirst⟩
  | 4, _ => cases h; exact ⟨0, by decide, hfresh⟩
  | 0, _ | 3, _ | 5, _ | 6, _ => cases h

/-- All that was as high as the first load's version has been dropped, and the old copy has not. -/
theorem rewound_leaves_old_copy :
    (∃ w ∈ writes {} "tx" (rewound.take 6), w.context = version 2 ⟨0, 0⟩ ∧ w.Dropped) ∧
      (∀ w ∈ writes {} "tx" (rewound.take 6), 2 ≤ w.context.version → w.Dropped) ∧
        ∃ w ∈ writes {} "tx" (rewound.take 6), ¬w.Dropped :=
  (load_goes_back_iff loads_second_version loads_first_version_again (by decide) (by decide)).mp
    ⟨by decide, by decide⟩

/-- Loads go back, though time does not, and only what was handed out is saved. -/
theorem loads_can_go_back : ¬∀ (s : ConsistencySettings) (tx : String) (es : List (Event × Instant))
    (i j : Nat) (c d : Context), 0 < s.contextTtlSecs → (es.Pairwise fun e e' => e.2 ≤ e'.2) →
    SavesHandedOut s tx es → Loads s tx es i c → 0 < c.version → i < j → Loads s tx es j d →
    c.version ≤ d.version ∨ d.version = 0 := by
  intro h
  have hback := h {} "tx" rewound 3 6 _ _ (by decide) (by decide) savesHandedOut_rewound
    loads_second_version (by decide) (by decide) loads_first_version_again
  exact absurd hback (by decide)

/-! ### Copies saved in their order -/

section Ascending
variable {s : ConsistencySettings} {tx : String} {es : List (Event × Instant)} {i j : Nat}
  {c d : Context}

/-- Where the clock does not go back, what was written first is dropped first. -/
theorem dropped_in_order (s : ConsistencySettings) (tx : String)
    (hregular : ∀ e ∈ es, e.2.IsRegular) (hclock : es.Pairwise fun e e' => e.2 ≤ e'.2) :
    (writes s tx es).Pairwise fun w w' => w'.Dropped → w.Dropped := by
  induction es with
  | nil => exact List.Pairwise.nil
  | cons e rest ih =>
    obtain ⟨hnow, hrest⟩ := List.forall_mem_cons.mp hregular
    obtain ⟨hfirst, hlater⟩ := List.pairwise_cons.mp hclock
    obtain ⟨e, now⟩ := e
    cases e with
    | loaded | purged => exact ih hrest hlater
    | saved c =>
      rw [writes]
      split
      · refine List.pairwise_cons.mpr ⟨fun w' hw' => ?_, ih hrest hlater⟩
        rintro ⟨purge, hpurge, hle⟩
        obtain ⟨c', now', hmem, hcontext, hpurges⟩ := exists_saved_of_mem_writes hw'
        rw [hcontext] at hle
        exact ⟨purge, hpurges.subset hpurge,
          le_trans (Instant.after_le_after hnow (hrest _ hmem) (hfirst _ hmem)
            (Int.le_refl _)) hle⟩
      · exact ih hrest hlater

/-- Where nobody saves an old copy, loads never go back. -/
theorem version_le_of_ascending (hregular : ∀ e ∈ es, e.2.IsRegular)
    (hclock : es.Pairwise fun e e' => e.2 ≤ e'.2)
    (hascending : (writes s tx es).Pairwise fun w w' => w.context.version ≤ w'.context.version)
    (hfirst : Loads s tx es i c) (hsecond : Loads s tx es j d) (hij : i < j) (hc : 0 < c.version) :
    c.version ≤ d.version ∨ d.version = 0 := by
  by_contra hback
  have hback : d.version ≠ 0 ∧ d.version < c.version := by omega
  obtain ⟨hdropped, x, hx, hkept⟩ := (hsecond.below_iff _).mp hback
  obtain ⟨w, hw, rfl⟩ := hfirst.exists_write hc (Nat.le_of_lt hij)
  have hsplit := writes_append s tx (es.take j) (es.drop j)
  rw [List.take_append_drop] at hsplit
  rw [hsplit] at hascending
  have hascending := List.pairwise_map.mp (List.pairwise_append.mp hascending).1
  have hinorder := dropped_in_order s tx
    (fun e he => hregular e (List.mem_of_mem_take he)) (hclock.sublist (List.take_sublist j es))
  -- What is left was written before what was loaded, or after it.
  obtain ⟨older, newer, heq⟩ := List.append_of_mem hx
  rw [heq] at hw hascending hinorder
  rcases List.mem_append.mp hw with hw | hw
  · have hle := (List.pairwise_append.mp hascending).2.2 w hw x List.mem_cons_self
    exact hkept (hdropped x hx hle)
  · have hw' : w ∈ writes s tx (es.take j) := heq ▸ List.mem_append_right _ hw
    have hgone := hdropped w hw' (Nat.le_refl _)
    rcases List.mem_cons.mp hw with rfl | hw
    · exact hkept hgone
    · have hrest := (List.pairwise_append.mp hinorder).2.1
      exact hkept ((List.pairwise_cons.mp hrest).1 w hw hgone)

end Ascending

end Gatehouse.Flow.Loader
