import Gatehouse.Guard.Basic
import Gatehouse.Proofs.Counter.Engine

/-! What a guard's action comes to over a store in memory: that of the calls it makes,
with its own result and reports. -/
namespace Gatehouse.Guard.Action

open Counter (Calls Memory)

variable {α β : Type} {s s' : Memory}

theorem run_reporting {calls : Calls (Except Store.Error β)} {b : β} (h : s.run calls = (.ok b, s'))
    (result : β → Except Failure α) (reports : β → List Audit.Report) :
    s.run (reporting calls result reports) = (⟨result b, reports b⟩, s') := by
  rw [reporting, Memory.run_bind, h]
  rfl

theorem run_quiet {calls : Calls (Except Store.Error α)} {a : α} (h : s.run calls = (.ok a, s')) :
    s.run (quiet calls) = (⟨.ok a, []⟩, s') := run_reporting h _ _

theorem run_andThen {action : Action α} {a : α} {reports : List Audit.Report}
    (h : s.run action = (⟨.ok a, reports⟩, s')) (next : α → Except Failure β) :
    s.run (action.andThen next) = (⟨next a, reports⟩, s') := by
  rw [andThen, Memory.run_bind, h]
  rfl

/-! ### What is left in the store -/

variable (s)

theorem snd_run_reporting (calls : Calls (Except Store.Error β)) (result : β → Except Failure α)
    (reports : β → List Audit.Report) :
    (s.run (reporting calls result reports)).2 = (s.run calls).2 := by
  rw [reporting, Memory.run_bind]
  cases (s.run calls).1 <;> rfl

theorem snd_run_andThen (action : Action α) (next : α → Except Failure β) :
    (s.run (action.andThen next)).2 = (s.run action).2 := by
  rw [andThen, Memory.run_bind]
  rfl

end Gatehouse.Guard.Action
