import Gatehouse.Store.Program
import Mathlib.Data.Fintype.Card

/-! Programs that share a store.

Several programs run over one store, and between any two requests of one of them the
others may make any of theirs. Which of them comes next is a list of picks, so a
statement about every list of picks is one about every interleaving. A picked program
makes one request; one that has ended does nothing (`step_done`). What every pick keeps,
every interleaving keeps (`run_invariant`). -/
namespace Gatehouse.Store

/-- Whether a program has ended. -/
def Program.isDone {Request : Type} {Answer : Request → Type} {α : Type} :
    Program Request Answer α → Bool
  | done _ => true
  | ask _ _ => false

theorem Program.isDone_ask {Request : Type} {Answer : Request → Type} {α : Type} (r : Request)
    (next : Answer r → Program Request Answer α) : (ask r next).isDone = false := rfl

/-- The store, what each program has still to do, and what each has asked, in order. -/
structure Shared (Request : Type) (Answer : Request → Type) (σ ι α : Type) where
  store : σ
  programs : ι → Program Request Answer α
  asked : ι → List Request

namespace Shared
variable {Request : Type} {Answer : Request → Type} {σ ι α : Type}

/-- Programs that have asked nothing yet. -/
def start (store : σ) (programs : ι → Program Request Answer α) : Shared Request Answer σ ι α :=
  ⟨store, programs, fun _ => []⟩

/-- How many programs have ended. -/
def finished [Fintype ι] (w : Shared Request Answer σ ι α) : Nat :=
  (Finset.univ.filter fun i => (w.programs i).isDone).card

theorem finished_le [Fintype ι] (w : Shared Request Answer σ ι α) : w.finished ≤ Fintype.card ι :=
  Finset.card_filter_le _ _

variable [DecidableEq ι]

/-- The program picked makes its next request. -/
def step (handle : (r : Request) → StateM σ (Answer r)) (w : Shared Request Answer σ ι α) (i : ι) :
    Shared Request Answer σ ι α :=
  match w.programs i with
  | .done _ => w
  | .ask r next =>
    { store := (handle r w.store).2
      programs := Function.update w.programs i (next (handle r w.store).1)
      asked := Function.update w.asked i (w.asked i ++ [r]) }

/-- Programs make their requests in the order of the picks. -/
def run (handle : (r : Request) → StateM σ (Answer r)) (w : Shared Request Answer σ ι α) :
    List ι → Shared Request Answer σ ι α
  | [] => w
  | i :: rest => run handle (w.step handle i) rest

variable {handle : (r : Request) → StateM σ (Answer r)} {w : Shared Request Answer σ ι α} {i : ι}

theorem step_done {a : α} (h : w.programs i = .done a) : w.step handle i = w := by
  rw [step, h]

theorem step_ask {r : Request} {next : Answer r → Program Request Answer α}
    (h : w.programs i = .ask r next) :
    w.step handle i =
      { store := (handle r w.store).2
        programs := Function.update w.programs i (next (handle r w.store).1)
        asked := Function.update w.asked i (w.asked i ++ [r]) } := by
  rw [step, h]

/-- A pick asks nothing for the programs that were not picked. -/
theorem step_asked_of_ne {j : ι} (hj : j ≠ i) : (w.step handle i).asked j = w.asked j := by
  cases hi : w.programs i with
  | done a => rw [step_done hi]
  | ask r next =>
    rw [step_ask hi]
    exact Function.update_of_ne hj _ _

/-- A pick leaves the programs that were not picked as they are. -/
theorem step_programs_of_ne {j : ι} (hj : j ≠ i) : (w.step handle i).programs j = w.programs j := by
  cases hi : w.programs i with
  | done a => rw [step_done hi]
  | ask r next =>
    rw [step_ask hi]
    exact Function.update_of_ne hj _ _

/-- What holds of the program picked after its request, and of the others before it, holds of all
after it. -/
theorem step_programs {P : ι → Program Request Answer α → Prop}
    (hi : P i ((w.step handle i).programs i)) (h : ∀ j, P j (w.programs j)) (j : ι) :
    P j ((w.step handle i).programs j) := by
  by_cases hj : j = i
  · rw [hj]
    exact hi
  · rw [step_programs_of_ne hj]
    exact h j

/-- What every pick keeps, every interleaving keeps. -/
theorem run_invariant (Inv : Shared Request Answer σ ι α → Prop)
    (hstep : ∀ w i, Inv w → Inv (w.step handle i)) (h : Inv w) (picks : List ι) :
    Inv (w.run handle picks) := by
  induction picks generalizing w with
  | nil => exact h
  | cons i rest ih => exact ih (hstep w i h)

/-- A program that has ended keeps its result. -/
theorem run_done {a : α} (h : w.programs i = .done a) (picks : List ι) :
    (w.run handle picks).programs i = .done a := by
  refine run_invariant (fun w => w.programs i = .done a) (fun w j h => ?_) h picks
  cases hp : w.programs j with
  | done b => rw [step_done hp, h]
  | ask r next =>
    have hne : i ≠ j := by
      rintro rfl
      rw [h] at hp
      cases hp
    rw [step_ask hp]
    exact (Function.update_of_ne hne _ _).trans h

/-- Until it ends, a program asks something whenever it is picked. -/
theorem length_asked (handle : (r : Request) → StateM σ (Answer r))
    (w : Shared Request Answer σ ι α) (picks : List ι) (i : ι) :
    (∃ a, (w.run handle picks).programs i = .done a) ∨
      ((w.run handle picks).asked i).length = (w.asked i).length + picks.count i := by
  induction picks generalizing w with
  | nil => exact .inr rfl
  | cons j rest ih =>
    rw [run]
    cases hp : w.programs j with
    | done a =>
      rw [step_done hp]
      by_cases hij : j = i
      · subst hij
        exact .inl ⟨a, run_done hp rest⟩
      · rw [List.count_cons_of_ne hij]
        exact ih w
    | ask r next =>
      refine (ih (w.step handle j)).imp_right fun hasked => ?_
      rw [hasked, step_ask hp]
      by_cases hij : j = i
      · subst hij
        simp only [Function.update_self, List.length_append, List.length_singleton,
          List.count_cons_self]
        omega
      · simp only [Function.update_of_ne (Ne.symm hij), List.count_cons_of_ne hij]

/-- A pick ends at most the program picked. -/
theorem finished_step_ask [Fintype ι] {r : Request} {next : Answer r → Program Request Answer α}
    (h : w.programs i = .ask r next) :
    (w.step handle i).finished =
      w.finished + if (next (handle r w.store).1).isDone then 1 else 0 := by
  rw [step_ask h]
  unfold finished
  split
  · next hdone =>
    have hinsert : (Finset.univ.filter fun j =>
        (Function.update w.programs i (next (handle r w.store).1) j).isDone) =
          insert i (Finset.univ.filter fun j => (w.programs j).isDone) := by
      ext j
      by_cases hj : j = i
      · subst hj
        simp [hdone]
      · simp [hj]
    rw [hinsert, Finset.card_insert_of_notMem]
    simp [h, Program.isDone_ask]
  · next hgoes =>
    congr 1
    ext j
    by_cases hj : j = i
    · subst hj
      simp [hgoes, h, Program.isDone_ask]
    · simp [hj]

end Shared

end Gatehouse.Store
