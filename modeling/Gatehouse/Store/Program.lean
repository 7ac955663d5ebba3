/-! Programs of requests.

A program asks a store for one thing after another, each request chosen by the answers
before it, and ends with a result. It says nothing about the store: running it takes a
handler that answers every request, which may be a store in memory, one that follows
a script of faults, or one whose answers are interleaved with those to other
programs. `run_bind` says that a program made of two runs one after the other. -/
namespace Gatehouse.Store

/-- A program whose requests have answers of the types `Answer`. -/
inductive Program (Request : Type) (Answer : Request → Type) (α : Type) where
  | done (result : α)
  | ask (request : Request) (next : Answer request → Program Request Answer α)

namespace Program
variable {Request : Type} {Answer : Request → Type} {α β γ : Type}

/-- One program and then another that depends on its result. -/
def bind : Program Request Answer α → (α → Program Request Answer β) → Program Request Answer β
  | done a, f => f a
  | ask r next, f => ask r fun x => (next x).bind f

instance : Monad (Program Request Answer) where
  pure := done
  bind := bind

/-- A single request. -/
def request (r : Request) : Program Request Answer (Answer r) := ask r done

/-- Runs a program by a handler of its requests. -/
def run {m : Type → Type} [Monad m] (handle : (r : Request) → m (Answer r)) :
    Program Request Answer α → m α
  | done a => pure a
  | ask r next => do (next (← handle r)).run handle

/-- Answers the first request, if the program still has one. -/
def step {m : Type → Type} [Monad m] (handle : (r : Request) → m (Answer r)) :
    Program Request Answer α → m (Program Request Answer α)
  | done a => pure (done a)
  | ask r next => do return next (← handle r)

theorem bind_done (p : Program Request Answer α) : p.bind done = p := by
  induction p with
  | done a => rfl
  | ask r next ih => simp only [bind]; congr; funext x; exact ih x

theorem bind_assoc (p : Program Request Answer α) (f : α → Program Request Answer β)
    (g : β → Program Request Answer γ) : (p.bind f).bind g = p.bind fun a => (f a).bind g := by
  induction p with
  | done a => rfl
  | ask r next ih => simp only [bind]; congr; funext x; exact ih x

instance : LawfulMonad (Program Request Answer) := LawfulMonad.mk' _
  (fun p => bind_done p) (fun _ _ => rfl) (fun p f g => bind_assoc p f g)

theorem run_bind {m : Type → Type} [Monad m] [LawfulMonad m] (handle : (r : Request) → m (Answer r))
    (p : Program Request Answer α) (f : α → Program Request Answer β) :
    (p.bind f).run handle = p.run handle >>= fun a => (f a).run handle := by
  induction p with
  | done a => simp [bind, run]
  | ask r next ih => simp [bind, run, ih]

end Program

end Gatehouse.Store
