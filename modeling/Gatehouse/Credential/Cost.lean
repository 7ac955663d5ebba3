/-! What a password hash costs: memory, passes and lanes, and which costs are too low or
too high to be used. -/
namespace Gatehouse.Credential

/-- The cost of a hash. -/
structure Cost where
  /-- Memory in blocks of 1024 bytes. -/
  memory : Nat
  /-- Passes over the memory. -/
  passes : Nat
  /-- Lanes that could be filled side by side. -/
  lanes : Nat
  deriving DecidableEq, Repr, Inhabited

/-- Why a cost cannot be used. -/
inductive CostProblem where
  | memoryTooSmall
  | timeTooSmall
  | lanesTooFew
  | lanesTooMany
  deriving DecidableEq, Repr, Inhabited

/-- A problem in words. -/
def CostProblem.message : CostProblem → String
  | memoryTooSmall => "memory cost is too small"
  | timeTooSmall => "time cost is too small"
  | lanesTooFew => "not enough threads"
  | lanesTooMany => "too many threads"

namespace Cost

/-- The least memory: eight blocks for each lane. -/
def blocksPerLane : Nat := 8

/-- The largest number of lanes. -/
def maxLanes : Nat := 16777215

/-- The cost where none is chosen. -/
def standard : Cost := ⟨19456, 2, 1⟩

/-- The first problem of a cost. The memory is compared with what the lanes need in 32
bits. -/
def problem? (c : Cost) : Option CostProblem :=
  if c.memory < blocksPerLane then some .memoryTooSmall
  else if c.memory < c.lanes * blocksPerLane % Nat.pow 2 32 then some .memoryTooSmall
  else if c.passes < 1 then some .timeTooSmall
  else if c.lanes < 1 then some .lanesTooFew
  else if c.lanes > maxLanes then some .lanesTooMany
  else none

end Cost

end Gatehouse.Credential
