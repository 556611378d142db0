import Nendi.Lib.Binary64

/-! # The memory budget

`MemoryBudget` of `core/src/memory/budget.rs`.  Its clones share the counter, and every call
is one atomic access to it. -/

namespace Nendi.Core

open Nendi.Lib

structure MemoryBudget where
  budgetBytes : UInt64
  warnThreshold : Float64
  used : UInt64

inductive MemoryCall where
  | allocate (bytes : UInt64)
  | deallocate (bytes : UInt64)
deriving DecidableEq, Repr

namespace MemoryBudget

def new (budgetBytes : UInt64) (warnThreshold : Float64) : MemoryBudget := ⟨budgetBytes, warnThreshold.clampUnit, 0⟩

def step (budget : MemoryBudget) : MemoryCall → MemoryBudget
  -- `fetch_add` and `fetch_sub` wrap
  | .allocate bytes => { budget with used := budget.used + bytes }
  | .deallocate bytes => { budget with used := budget.used - bytes }

def usageRatio (budget : MemoryBudget) : Float64 :=
  .divide (round53 budget.used.toNat) (round53 budget.budgetBytes.toNat)

def isExceeded (budget : MemoryBudget) : Bool := decide (budget.budgetBytes < budget.used)

def isWarning (budget : MemoryBudget) : Bool := budget.warnThreshold.lt budget.usageRatio

def remaining (budget : MemoryBudget) : UInt64 :=
  -- `saturating_sub`
  if budget.used ≤ budget.budgetBytes then budget.budgetBytes - budget.used else 0

end MemoryBudget

end Nendi.Core
