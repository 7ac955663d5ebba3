import Gatehouse.Proofs.Counter.Purge

/-! Failed verifications that are purged while they are remembered.

A failed verification is remembered up to the end of the reset time, the end itself included,
and its record tells that end as its own, at which a purge drops it (`isExpired_iff`). At every
other instant the two agree. So purges leave the decisions of a run alone but for one case: a
purge comes at the very end of the reset time after the last failure, and the counter is used
at that instant once more (`PurgedEarly`). `verify_decisions_purged_iff` says that then a
decision changes, and otherwise none. -/
namespace Gatehouse.Counter

namespace VerifyPolicy

/-- A record as a failed verification leaves it: its end is that of the reset time. -/
structure Wrote (p : VerifyPolicy) (r : Record) : Prop where
  ends : r.expireAt = r.updatedAt.after p.reset
  counted : 1 ≤ r.attempts

variable {p : VerifyPolicy} {r : Record} {now : Instant}

theorem refresh_eq_none_iff :
    (Policy.verify p).refresh r now = none ↔ r.updatedAt.after p.reset < now := by
  simp only [Policy.refresh, ite_eq_right_iff, reduceCtorEq, imp_false, not_le]

/-- A record's time is over when it is forgotten, and at the last instant at which it is
not. -/
theorem Wrote.isExpired_iff (h : p.Wrote r) :
    r.isExpired now = true ↔
      (Policy.verify p).refresh r now = none ∨ r.updatedAt.after p.reset = now := by
  rw [refresh_eq_none_iff, Record.isExpired, decide_eq_true_iff, h.ends, le_iff_lt_or_eq]

theorem wrote_nextRecord (p : VerifyPolicy) (k : Key) (now : Instant) (stored : Option Record) :
    p.Wrote (Engine.nextRecord (.verify p) k now stored) where
  ends := rfl
  counted := by
    rw [Engine.nextRecord, Policy.applyFailure_attempts]
    exact Policy.le_countUp_one

end VerifyPolicy

namespace Engine

/-! ### Purges that come too early -/

/-- When the last failure on record was, after one more event. -/
def remembered (u : Option Instant) (e : Event × Instant) : Option Instant :=
  match e.1 with
  | .failed => some e.2
  | .removed => none
  | _ => u

/-- The next event that asks or changes something: a purge does not, nor does a success, which
clears no verifications. -/
def nextUse (es : List (Event × Instant)) : Option (Event × Instant) :=
  es.find? fun e => e.1 != .purged && e.1 != .succeeded

/-- The next that a counter is used for is a decision, at the given instant. -/
def DecidesAt (t : Instant) (es : List (Event × Instant)) : Prop :=
  ∃ e ∈ nextUse es, e.1 ≠ .removed ∧ e.2 = t

instance (t : Instant) (es : List (Event × Instant)) : Decidable (DecidesAt t es) :=
  inferInstanceAs (Decidable (∃ e ∈ nextUse es, e.1 ≠ .removed ∧ e.2 = t))

/-- Somewhere in a run a purge comes at the very end of the reset time after the last failure,
and the next decision at the same instant; `u` is when the last failure before the run was. -/
def PurgedEarly (p : VerifyPolicy) (u : Option Instant) (es : List (Event × Instant)) : Prop :=
  ∃ before t rest, es = before ++ (.purged, t) :: rest ∧
    (before.foldl remembered u).map (·.after p.reset) = some t ∧ DecidesAt t rest

section Early
variable {p : VerifyPolicy} {u : Option Instant} {t : Instant} {e : Event × Instant}
  {rest : List (Event × Instant)}

theorem purgedEarly_cons : PurgedEarly p u (e :: rest) ↔
    (e.1 = .purged ∧ u.map (·.after p.reset) = some e.2 ∧ DecidesAt e.2 rest) ∨
      PurgedEarly p (remembered u e) rest := by
  constructor
  · rintro ⟨before, t, after, hsplit, hend, hdecides⟩
    cases before with
    | nil =>
      cases hsplit
      exact .inl ⟨rfl, hend, hdecides⟩
    | cons _ before =>
      cases hsplit
      exact .inr ⟨before, t, after, rfl, hend, hdecides⟩
  · rintro (⟨he, hend, hdecides⟩ | ⟨before, t, after, rfl, hend, hdecides⟩)
    · obtain ⟨event, t⟩ := e
      cases he
      exact ⟨[], t, rest, rfl, hend, hdecides⟩
    · exact ⟨e :: before, t, after, rfl, hend, hdecides⟩

theorem decidesAt_cons_quiet (he : e.1 = .purged ∨ e.1 = .succeeded) :
    DecidesAt t (e :: rest) ↔ DecidesAt t rest := by
  rcases he with he | he <;> simp [DecidesAt, nextUse, he]

theorem decidesAt_cons_use (he : e.1 = .evaluated ∨ e.1 = .failed) :
    DecidesAt t (e :: rest) ↔ e.2 = t := by
  rcases he with he | he <;> simp [DecidesAt, nextUse, he]

theorem not_decidesAt_cons_removed (he : e.1 = .removed) : ¬ DecidesAt t (e :: rest) := by
  simp [DecidesAt, nextUse, he]

theorem DecidesAt.le (h : DecidesAt t rest) {now : Instant} (hle : ∀ e ∈ rest, now ≤ e.2) :
    now ≤ t := by
  obtain ⟨e, he, -, rfl⟩ := h
  exact hle e (List.mem_of_find?_eq_some he)

theorem not_purgedEarly_nil : ¬ PurgedEarly p u [] := by
  rintro ⟨before, t, rest, hsplit, -⟩
  simp at hsplit

instance decidablePurgedEarly (p : VerifyPolicy) :
    (u : Option Instant) → (es : List (Event × Instant)) → Decidable (PurgedEarly p u es)
  | _, [] => .isFalse not_purgedEarly_nil
  | u, e :: rest =>
    have := decidablePurgedEarly p (remembered u e) rest
    decidable_of_iff _ purgedEarly_cons.symm

end Early

/-! ### A store with purges beside one without -/

/-- What purges make of a store: under the key the same is found as without them, or nothing
is, as a purge dropped a record whose time was over. -/
structure Trails (p : VerifyPolicy) (k : Key) (t : Instant) (s s' : Memory) : Prop where
  keyed : s.Keyed
  keyed' : s'.Keyed
  ordered : s'.records.Ordered
  wrote : ∀ r ∈ s.find? k, p.Wrote r
  found : s'.find? k = s.find? k ∨
    s'.find? k = none ∧ ∀ r ∈ s.find? k, r.updatedAt.after p.reset ≤ t

/-- A record was dropped whose reset time ends at an instant. -/
def Dropped (p : VerifyPolicy) (k : Key) (s s' : Memory) (t : Instant) : Prop :=
  s'.find? k = none ∧ ∃ r ∈ s.find? k, r.updatedAt.after p.reset = t

section Trails
variable {p : VerifyPolicy} {k : Key} {t now : Instant} {s s' : Memory}

theorem trails_refl (hs : s.Keyed) (ho : s.records.Ordered) (hw : ∀ r ∈ s.find? k, p.Wrote r)
    (t : Instant) : Trails p k t s s := ⟨hs, hs, ho, hw, .inl rfl⟩

theorem Trails.mono (h : Trails p k t s s') (hle : t ≤ now) : Trails p k now s s' where
  keyed := h.keyed
  keyed' := h.keyed'
  ordered := h.ordered
  wrote := h.wrote
  found := h.found.imp_right fun ⟨hnone, hends⟩ => ⟨hnone, fun r hr => le_trans (hends r hr) hle⟩

theorem live_verify (p : VerifyPolicy) (r : Record) (now : Instant) :
    live (.verify p) (some r) now = if now ≤ r.updatedAt.after p.reset then some r else none := rfl

/-- The same is live unless a record was dropped whose reset time ends now. -/
theorem Trails.live_eq (h : Trails p k t s s') (hle : t ≤ now) (hnot : ¬ Dropped p k s s' now) :
    live (.verify p) (s'.find? k) now = live (.verify p) (s.find? k) now := by
  rcases h.found with hsame | ⟨hnone, hends⟩
  · rw [hsame]
  · rw [hnone]
    cases hfind : s.find? k with
    | none => rfl
    | some r =>
      have hend : r.updatedAt.after p.reset < now := by
        refine lt_of_le_of_ne (le_trans (hends r hfind) hle) fun heq => hnot ⟨hnone, r, hfind, heq⟩
      rw [live_verify, if_neg (not_le.mpr hend)]
      rfl

/-- A dropped record whose reset time ends now would still be live. -/
theorem Dropped.still_live (h : Dropped p k s s' now) :
    live (.verify p) (s'.find? k) now = none ∧
      ∃ r ∈ s.find? k, live (.verify p) (s.find? k) now = some r := by
  obtain ⟨hnone, r, hr, hend⟩ := h
  refine ⟨by rw [hnone]; rfl, r, hr, ?_⟩
  rw [Option.mem_def.mp hr, live_verify, if_pos (le_of_eq hend.symm)]

theorem Dropped.le {d : Instant} (h : Trails p k t s s') (hd : Dropped p k s s' d) : d ≤ t := by
  obtain ⟨hnone, r, hr, rfl⟩ := hd
  rcases h.found with hsame | ⟨-, hends⟩
  · rw [hnone, Option.mem_def.mp hr] at hsame
    cases hsame
  · exact hends r hr

/-- From a drop on nothing is missed but a decision at the instant at which the reset time
ended. -/
theorem Trails.not_dropped_later (h : Trails p k t s s') (hle : t ≤ now)
    (hnot : ¬ Dropped p k s s' now) {rest : List (Event × Instant)}
    (hrest : ∀ e ∈ rest, now ≤ e.2) : ¬ ∃ d, Dropped p k s s' d ∧ DecidesAt d rest := by
  rintro ⟨d, hd, hdecides⟩
  have heq : d = now := le_antisymm (le_trans (hd.le h) hle) (hdecides.le hrest)
  exact hnot (heq ▸ hd)

/-- Nothing is found after a purge where nothing was, or a record whose time is over. -/
theorem find?_purge_eq_none_iff (ho : s.records.Ordered) :
    (s.purge now).find? k = none ↔ ∀ r ∈ s.find? k, r.expireAt ≤ now := by
  rw [Memory.find?_purge ho, Option.filter_eq_none_iff]
  simp [Record.isExpired]

/-- A purge drops what it finds where its time is over, and leaves what is found without it
as it was. -/
theorem Trails.purge (h : Trails p k t s s') (hle : t ≤ now) : Trails p k now s (s'.purge now) where
  keyed := h.keyed
  keyed' := h.keyed'.purge now
  ordered := h.ordered.keep _
  wrote := h.wrote
  found := by
    rcases (h.mono hle).found with hsame | ⟨hnone, hends⟩
    · by_cases hover : ∀ r ∈ s'.find? k, r.expireAt ≤ now
      · refine .inr ⟨(find?_purge_eq_none_iff h.ordered).mpr hover, fun r hr => ?_⟩
        rw [← (h.wrote r hr).ends]
        exact hover r (hsame ▸ hr)
      · left
        rw [Memory.find?_purge h.ordered, hsame]
        rw [hsame] at hover
        cases hfind : s.find? k with
        | none => rfl
        | some r =>
          have hend : ¬ r.expireAt ≤ now := by simpa [hfind] using hover
          simp [Option.filter, Record.isExpired, hend]
    · exact .inr ⟨by simp [Memory.find?_purge h.ordered, hnone], hends⟩

theorem Trails.put (h : Trails p k t s s')
    (hlive : live (.verify p) (s'.find? k) now = live (.verify p) (s.find? k) now) :
    Trails p k now (s.put (nextRecord (.verify p) k now (s.find? k)))
      (s'.put (nextRecord (.verify p) k now (s'.find? k))) where
  keyed := h.keyed.put _
  keyed' := h.keyed'.put _
  ordered := h.ordered.insert _ _
  wrote := by
    rw [find?_put_nextRecord h.keyed]
    intro r hr
    cases hr
    exact p.wrote_nextRecord k now _
  found := by
    rw [find?_put_nextRecord h.keyed, find?_put_nextRecord h.keyed', nextRecord, nextRecord, hlive]
    exact .inl rfl

theorem Trails.erase (h : Trails p k t s s') : Trails p k t (s.erase k) (s'.erase k) where
  keyed := h.keyed.erase k
  keyed' := h.keyed'.erase k
  ordered := h.ordered.erase _
  wrote := by simp [Memory.find?_erase]
  found := by simp [Memory.find?_erase]

/-- What was dropped after a purge was so before, or its reset time ended with the purge. -/
theorem Trails.dropped_purge_iff (h : Trails p k t s s') {d : Instant} (hd : now ≤ d) :
    Dropped p k s (s'.purge now) d ↔ Dropped p k s s' d ∨
      now = d ∧ ((s.find? k).map (·.updatedAt)).map (·.after p.reset) = some now := by
  rw [Dropped, Dropped, find?_purge_eq_none_iff h.ordered]
  constructor
  · rintro ⟨hover, r, hr, rfl⟩
    rcases h.found with hsame | ⟨hnone, -⟩
    · have hend : r.updatedAt.after p.reset ≤ now := (h.wrote r hr).ends ▸ hover r (hsame ▸ hr)
      have heq : now = r.updatedAt.after p.reset := le_antisymm hd hend
      exact .inr ⟨heq, by rw [Option.mem_def.mp hr, heq]; rfl⟩
    · exact .inl ⟨hnone, r, hr, rfl⟩
  · rintro (⟨hnone, hr⟩ | ⟨rfl, hlast⟩)
    · exact ⟨by simp [hnone], hr⟩
    · rw [Option.map_map, Option.map_eq_some_iff] at hlast
      obtain ⟨r, hr, hend⟩ := hlast
      refine ⟨fun r' hr' => ?_, r, hr, hend⟩
      rcases h.found with hsame | ⟨hnone, -⟩
      · rw [hsame, hr] at hr'
        cases hr'
        exact le_of_eq ((h.wrote r hr).ends.trans hend)
      · rw [hnone] at hr'
        cases hr'

end Trails

theorem decisions_cons (p : Policy) (k : Key) (s : Memory) (e : Event × Instant)
    (es : List (Event × Instant)) :
    decisions p k s (e :: es) =
      ((counter p k).next e s).1.toList ++ decisions p k ((counter p k).next e s).2 es := by
  rw [decisions, Machine.answers, List.filterMap_cons]
  cases ((counter p k).next e s).1 <;> rfl

section Decisions
variable {p : VerifyPolicy} {k : Key} {t now : Instant} {s s' : Memory} {rest : List (Event × Instant)}

/-- A purge comes too early in what follows, or one that came before is found out. -/
def Differs (p : VerifyPolicy) (k : Key) (s s' : Memory) (es : List (Event × Instant)) : Prop :=
  PurgedEarly p ((s.find? k).map (·.updatedAt)) es ∨ ∃ d, Dropped p k s s' d ∧ DecidesAt d es

theorem not_differs_nil : ¬ Differs p k s s' [] := by
  rintro (hearly | ⟨d, -, e, he, -⟩)
  · exact not_purgedEarly_nil hearly
  · cases he

theorem differs_cons_purged (h : Trails p k t s s') (hrest : ∀ e ∈ rest, now ≤ e.2) :
    Differs p k s s' ((.purged, now) :: rest) ↔ Differs p k s (s'.purge now) rest := by
  have hdropped : (∃ d, Dropped p k s (s'.purge now) d ∧ DecidesAt d rest) ↔
      (∃ d, Dropped p k s s' d ∧ DecidesAt d rest) ∨
        ((s.find? k).map (·.updatedAt)).map (·.after p.reset) = some now ∧ DecidesAt now rest := by
    constructor
    · rintro ⟨d, hd, hdecides⟩
      rcases (h.dropped_purge_iff (hdecides.le hrest)).mp hd with hd | ⟨rfl, hend⟩
      · exact .inl ⟨d, hd, hdecides⟩
      · exact .inr ⟨hend, hdecides⟩
    · rintro (⟨d, hd, hdecides⟩ | ⟨hend, hdecides⟩)
      · exact ⟨d, (h.dropped_purge_iff (hdecides.le hrest)).mpr (.inl hd), hdecides⟩
      · exact ⟨now, (h.dropped_purge_iff le_rfl).mpr (.inr ⟨rfl, hend⟩), hdecides⟩
  simp only [Differs, purgedEarly_cons, decidesAt_cons_quiet (e := (.purged, now)) (.inl rfl),
    hdropped, remembered, true_and]
  rw [or_assoc]
  exact or_rotate

theorem differs_cons_succeeded :
    Differs p k s s' ((.succeeded, now) :: rest) ↔ Differs p k s s' rest := by
  simp [Differs, purgedEarly_cons, decidesAt_cons_quiet, remembered]

theorem differs_cons_removed :
    Differs p k s s' ((.removed, now) :: rest) ↔ Differs p k (s.erase k) (s'.erase k) rest := by
  simp [Differs, purgedEarly_cons, not_decidesAt_cons_removed, remembered, Dropped,
    Memory.find?_erase]

theorem differs_cons_evaluated (h : Trails p k t s s') (hle : t ≤ now)
    (hrest : ∀ e ∈ rest, now ≤ e.2) : Differs p k s s' ((.evaluated, now) :: rest) ↔
      Dropped p k s s' now ∨ Differs p k s s' rest := by
  simp only [Differs, purgedEarly_cons, decidesAt_cons_use (e := (.evaluated, now)) (.inl rfl),
    remembered, reduceCtorEq, false_and, false_or, exists_eq_right']
  by_cases hd : Dropped p k s s' now
  · simp [hd]
  · simp [hd, h.not_dropped_later hle hd hrest]

theorem differs_cons_failed (h : Trails p k t s s') :
    Differs p k s s' ((.failed, now) :: rest) ↔
      Dropped p k s s' now ∨ Differs p k (s.put (nextRecord (.verify p) k now (s.find? k)))
        (s'.put (nextRecord (.verify p) k now (s'.find? k))) rest := by
  have hlast : (nextRecord (.verify p) k now (s.find? k)).updatedAt = now := rfl
  simp only [Differs, purgedEarly_cons, decidesAt_cons_use (e := (.failed, now)) (.inr rfl),
    remembered, reduceCtorEq, false_and, false_or, exists_eq_right', Dropped,
    find?_put_nextRecord h.keyed, find?_put_nextRecord h.keyed', Option.map_some, hlast,
    exists_false, or_false]
  exact or_comm

/-- The counter is used at the instant at which a dropped record's reset time ends: the
decision is another. -/
theorem Dropped.decides_ne (h : Dropped p k s s' now) :
    (Policy.verify p).decide (live (.verify p) (s'.find? k) now) now ≠
        (Policy.verify p).decide (live (.verify p) (s.find? k) now) now := by
  obtain ⟨hnone, r, -, hlive⟩ := h.still_live
  rw [hnone, hlive]
  intro heq
  cases congrArg Decision.record heq

theorem Dropped.fails_ne (h : Dropped p k s s' now) (hw : ∀ r ∈ s.find? k, p.Wrote r) :
    (Policy.verify p).decide (some (nextRecord (.verify p) k now (s'.find? k))) now ≠
      (Policy.verify p).decide (some (nextRecord (.verify p) k now (s.find? k))) now := by
  obtain ⟨hnone, r, hr, hlive⟩ := h.still_live
  have hcounted := (hw r hr).counted
  intro heq
  have hattempts : (nextRecord (.verify p) k now (s'.find? k)).attempts =
      (nextRecord (.verify p) k now (s.find? k)).attempts := congrArg Decision.attempts heq
  rw [nextRecord, nextRecord, hnone, hlive, Policy.applyFailure_attempts,
    Policy.applyFailure_attempts] at hattempts
  simp only [Option.map_none, Option.map_some, Option.getD_none, Option.getD_some, Policy.countUp,
    Counter.maxAttempts] at hattempts
  omega

theorem Trails.decisions_eq_iff (h : Trails p k t s s') {es : List (Event × Instant)}
    (hle : ∀ e ∈ es, t ≤ e.2) (hsorted : es.Pairwise (·.2 ≤ ·.2)) :
    decisions (.verify p) k s' es = decisions (.verify p) k s (es.filter (·.1 != .purged)) ↔
      ¬ Differs p k s s' es := by
  induction es generalizing t s s' with
  | nil => exact iff_of_true rfl not_differs_nil
  | cons e rest ih =>
    obtain ⟨hfirst, hrest⟩ := List.pairwise_cons.mp hsorted
    have hle₀ := hle e List.mem_cons_self
    obtain ⟨event, now⟩ := e
    cases event with
    | purged =>
      rw [differs_cons_purged h hfirst, ← ih (h.purge hle₀) hfirst hrest]
      rfl
    | succeeded =>
      rw [differs_cons_succeeded, ← ih (h.mono hle₀) hfirst hrest]
      rfl
    | removed =>
      rw [differs_cons_removed, ← ih (h.mono hle₀).erase hfirst hrest]
      rfl
    | evaluated =>
      have hkept : ((Event.evaluated, now) :: rest).filter (·.1 != .purged) =
          (.evaluated, now) :: rest.filter (·.1 != .purged) := rfl
      rw [differs_cons_evaluated h hle₀ hfirst, hkept, decisions_cons, decisions_cons]
      simp only [counter, run_evaluate (p := .verify p) rfl, Option.toList_some,
        List.singleton_append, List.cons.injEq, Except.ok.injEq]
      by_cases hd : Dropped p k s s' now
      · exact iff_of_false (fun heq => hd.decides_ne heq.1) (fun hnot => hnot (.inl hd))
      · rw [h.live_eq hle₀ hd, ih (h.mono hle₀) hfirst hrest]
        simp [hd]
    | failed =>
      have hkept : ((Event.failed, now) :: rest).filter (·.1 != .purged) =
          (.failed, now) :: rest.filter (·.1 != .purged) := rfl
      rw [differs_cons_failed h, hkept, decisions_cons, decisions_cons]
      simp only [counter, run_recordFailure (p := .verify p) rfl h.keyed,
        run_recordFailure (p := .verify p) rfl h.keyed', Option.toList_some,
        List.singleton_append, List.cons.injEq, Except.ok.injEq]
      by_cases hd : Dropped p k s s' now
      · exact iff_of_false (fun heq => hd.fails_ne h.wrote heq.1) (fun hnot => hnot (.inl hd))
      · have hlive := h.live_eq hle₀ hd
        rw [ih (h.put hlive) hfirst hrest, nextRecord, nextRecord, hlive]
        simp [hd]

end Decisions

/-- **Purging changes a decision just where it comes too early.** Over any run on a counter of
verifications, at instants in order, the decisions are those of the run without its purges,
unless a purge comes at the very end of the reset time after the last failure, and the next
decision at that instant. What is stored before the run is nothing, or a record as a failure
leaves it. A purge at that end drops a record that is not forgotten yet, and at every other
instant only what is. -/
theorem verify_decisions_purged_iff (p : VerifyPolicy) (k : Key) (s : Memory) (hs : s.Keyed)
    (ho : s.records.Ordered) (hw : ∀ r ∈ s.find? k, p.Wrote r) (es : List (Event × Instant))
    (hsorted : es.Pairwise (·.2 ≤ ·.2)) :
    (decisions (.verify p) k s es = decisions (.verify p) k s (es.filter (·.1 != .purged)) ↔
        ¬ PurgedEarly p ((s.find? k).map (·.updatedAt)) es) ∧
      ∀ r, p.Wrote r → ∀ now, r.isExpired now = true ↔
        (Policy.verify p).refresh r now = none ∨ r.updatedAt.after p.reset = now := by
  refine ⟨?_, fun r hr now => hr.isExpired_iff⟩
  obtain ⟨t, hle⟩ : ∃ t : Instant, ∀ e ∈ es, t ≤ e.2 := by
    cases es with
    | nil => exact ⟨.epoch, fun e he => by cases he⟩
    | cons e rest =>
      refine ⟨e.2, List.forall_mem_cons.mpr ⟨le_rfl, fun e' he' => ?_⟩⟩
      exact (List.pairwise_cons.mp hsorted).1 e' he'
  have hnone : ¬ ∃ d, Dropped p k s s d ∧ DecidesAt d es := by
    rintro ⟨d, ⟨hnone, r, hr, -⟩, -⟩
    rw [hnone] at hr
    cases hr
  rw [(trails_refl hs ho hw t).decisions_eq_iff hle hsorted, Differs, or_iff_left hnone]

/-- Failures are remembered for a minute. One purge comes a millisecond before a minute has
passed since the first, and finds its record live; the other a millisecond after a minute has
passed since the second, and finds it forgotten. -/
theorem verify_decisions_purged_after_a_minute :
    let p : VerifyPolicy := ⟨3, .seconds 60⟩
    let k : Key := ⟨.verify, { reference := .domain "acme", subject := "alice" }⟩
    let moment (millis : Int) (e : Event) : Event × Instant := (e, .ofMillis millis)
    let es := [moment 0 .failed, moment 59999 .purged, moment 60000 .evaluated,
      moment 60000 .failed, moment 120001 .purged, moment 120001 .evaluated,
      moment 120001 .failed]
    decisions (.verify p) k {} es = decisions (.verify p) k {} (es.filter (·.1 != .purged)) ∧
      (decisions (.verify p) k {} es).map (fun d => d.toOption.map (·.attempts)) =
        [some 1, some 1, some 2, some 0, some 1] := by
  intro p k moment es
  obtain ⟨hiff, -⟩ := verify_decisions_purged_iff p k {} Memory.keyed_empty Table.ordered_empty
    (fun _ h => by cases h) es (by decide)
  exact ⟨hiff.mpr (by decide +kernel), by decide +kernel⟩

/-- One failure is one too many, and is remembered for a minute, at whose very end another
verification is still denied. A purge at that instant drops the record, and it is allowed. -/
theorem purged_while_remembered :
    let p : VerifyPolicy := ⟨1, .seconds 60⟩
    let k : Key := ⟨.verify, { reference := .domain "acme", subject := "alice" }⟩
    let late : Instant := .ofMillis 60000
    let allowed (es : List (Event × Instant)) :=
      (decisions (.verify p) k {} es).map fun d => d.toOption.map (·.allowed)
    (Policy.verify p).WellConfigured ∧
      allowed [(.failed, .epoch), (.evaluated, late)] = [some false, some false] ∧
      allowed [(.failed, .epoch), (.purged, late), (.evaluated, late)] = [some false, some true] := by
  decide +kernel

end Engine

end Gatehouse.Counter
