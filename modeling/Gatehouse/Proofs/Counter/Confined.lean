import Gatehouse.Proofs.Counter.Engine
import Gatehouse.Proofs.Counter.Key

/-! Programs that keep to one key.

A program of the engine asks about the key it was given and about no other, as long as what
it finds there is a record of that key (`Confined`). A store where every record stands under
its own key answers so. Such a program does not tell apart two stores with the same record
under its key (`Confined.run_eq`), and leaves every other key as it was
(`Confined.run_other`). -/
namespace Gatehouse.Counter

theorem Key.storageKey_ne {a b : Key} (h : a ≠ b) : a.storageKey ≠ b.storageKey := by
  intro hsame
  refine h (Key.parts_injective ?_)
  rw [← Key.splitOn_storageKey a, hsame, Key.splitOn_storageKey b]

/-! ### One request -/

namespace Memory
variable {s s' : Memory} {k : Key}

theorem Keyed.key_eq (hs : s.Keyed) {r : Record} (h : s.find? k = some r) : r.key = k := by
  by_contra hne
  exact Key.storageKey_ne hne (hs.find? h)

theorem Keyed.run {α : Type} (hs : s.Keyed) (calls : Calls α) : (s.run calls).2.Keyed := by
  induction calls generalizing s with
  | done a => exact hs
  | ask r next ih =>
    rw [run_ask]
    exact ih _ (hs.answer r)

/-- The answer to a request depends on what stands under its key. -/
theorem answer_eq (r : Request) (h : s.find? r.key = s'.find? r.key) :
    (answer r s).1 = (answer r s').1 ∧
      (answer r s).2.find? r.key = (answer r s').2.find? r.key := by
  cases r with
  | find k => exact ⟨congrArg Except.ok h, h⟩
  | write mode r =>
    have hput : (s.put r).find? r.key = (s'.put r).find? r.key := by
      rw [find?_put s rfl, find?_put s' rfl]
    change s.find? r.key = s'.find? r.key at h
    show _ ∧ (answer _ s).2.find? r.key = (answer _ s').2.find? r.key
    cases mode with
    | create =>
      simp only [answer, h]
      split
      · exact ⟨rfl, h⟩
      · exact ⟨rfl, hput⟩
    | update =>
      simp only [answer, h]
      split
      · exact ⟨rfl, hput⟩
      · exact ⟨rfl, h⟩
  | delete k =>
    change s.find? k = s'.find? k at h
    refine ⟨?_, (find?_erase s k).trans (find?_erase s' k).symm⟩
    simp only [answer, h]

/-- A request changes nothing under another key. -/
theorem find?_answer_ne (r : Request) (h : k ≠ r.key) : (answer r s).2.find? k = s.find? k := by
  have hkeys := Key.storageKey_ne h
  cases r with
  | find _ => rfl
  | write mode r =>
    cases mode with
    | create =>
      simp only [answer]
      split
      · rfl
      · exact find?_put_ne s hkeys
    | update =>
      simp only [answer]
      split
      · exact find?_put_ne s hkeys
      · rfl
  | delete _ => exact find?_erase_ne s hkeys

end Memory

/-! ### Confined programs -/

/-- Whether an answer brings no record but one of the key. -/
def Request.Fits (k : Key) : (r : Request) → r.Answer → Prop
  | .find _, .ok stored => ∀ r ∈ stored, r.key = k
  | _, _ => True

/-- A program that asks about one key, whatever fitting answers it gets. -/
inductive Confined (k : Key) {α : Type} : Calls α → Prop where
  | done (a : α) : Confined k (.done a)
  | ask {r : Request} {next : r.Answer → Calls α} : r.key = k →
      (∀ x, r.Fits k x → Confined k (next x)) → Confined k (.ask r next)

theorem Memory.Keyed.fits {s : Memory} (hs : s.Keyed) (r : Request) :
    r.Fits r.key (Memory.answer r s).1 := by
  cases r with
  | find k => exact fun r hr => hs.key_eq hr
  | write mode r => trivial
  | delete k => trivial

namespace Confined
variable {α β : Type} {k : Key} {calls : Calls α} {s s' : Memory}

theorem bind {f : α → Calls β} (h : Confined k calls) (hf : ∀ a, Confined k (f a)) :
    Confined k (calls.bind f) := by
  induction h with
  | done a => exact hf a
  | ask hkey _ ih => exact .ask hkey ih

/-- Two stores with the same record under the key are one to a confined program. -/
theorem run_eq (h : Confined k calls) (hs : s.Keyed) (hs' : s'.Keyed)
    (hfind : s.find? k = s'.find? k) :
    (s.run calls).1 = (s'.run calls).1 ∧ (s.run calls).2.find? k = (s'.run calls).2.find? k := by
  induction h generalizing s s' with
  | done a => exact ⟨rfl, hfind⟩
  | @ask r next hkey _ ih =>
    subst hkey
    obtain ⟨hanswer, hnext⟩ := Memory.answer_eq r hfind
    rw [Memory.run_ask, Memory.run_ask, hanswer]
    exact ih _ (hs'.fits r) (hs.answer r) (hs'.answer r) hnext

/-- A confined program leaves every other key as it was. -/
theorem run_other (h : Confined k calls) (hs : s.Keyed) {other : Key} (hne : other ≠ k) :
    (s.run calls).2.find? other = s.find? other := by
  induction h generalizing s with
  | done a => rfl
  | @ask r next hkey _ ih =>
    subst hkey
    rw [Memory.run_ask, ih _ (hs.fits r) (hs.answer r), Memory.find?_answer_ne r hne]

end Confined

/-! ### The engine keeps to its key -/

namespace Engine
variable (p : Policy) (k : Key) (now : Instant)

theorem confined_evaluate : Confined k (evaluate p k now) := by
  unfold evaluate
  split
  · exact .done _
  · refine .ask rfl fun found _ => ?_
    cases found with
    | error e => exact .done _
    | ok stored => exact .done _

theorem confined_refused (e : Store.Error) {round left : Nat}
    (hagain : ∀ l, left = l + 1 → Confined k (rounds p k now (round + 1) l)) :
    Confined k (refused p k now round left e) := by
  cases hlost : e.isConflict || e.isNotFound with
  | false =>
    rw [refused_at_once p k now round left hlost]
    exact .done _
  | true =>
    cases left with
    | zero =>
      rw [refused_last p k now round hlost]
      exact .done _
    | succ l =>
      rw [refused_again p k now round l hlost]
      exact hagain l rfl

-- The record that is written has the key because the one that was found has it.
theorem confined_round {round left : Nat} (hrefused : ∀ e, Confined k (refused p k now round left e)) :
    Confined k (rounds p k now round left) := by
  rw [rounds_eq]
  refine .ask rfl fun found hfound => ?_
  cases found with
  | error e => exact .done _
  | ok stored =>
    refine .ask (nextRecord_key hfound) fun written _ => ?_
    cases written with
    | ok r => exact .done _
    | error e => exact hrefused e

theorem confined_rounds (round left : Nat) : Confined k (rounds p k now round left) := by
  induction left generalizing round with
  | zero =>
    refine confined_round p k now fun e => confined_refused p k now e fun l hl => ?_
    cases hl
  | succ left ih =>
    refine confined_round p k now fun e => confined_refused p k now e fun l hl => ?_
    cases hl
    exact ih _

theorem confined_recordFailure : Confined k (recordFailure p k now) := by
  unfold recordFailure
  split
  · exact .done _
  · exact confined_rounds p k now _ _

theorem confined_reset : Confined k (reset k) := .ask rfl fun _ _ => .done _

theorem confined_recordSuccess : Confined k (recordSuccess p k) := by
  unfold recordSuccess
  split
  · exact confined_reset k
  · exact .done _

end Engine

end Gatehouse.Counter
