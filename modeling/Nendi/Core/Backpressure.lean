import Nendi.Lib.BigEndian
import Nendi.Lib.Interleaving
import Nendi.Lib.SharedCell

/-! # Backpressure

`CreditThrottle` and `BackpressureGate` of `core/src/backpressure`.  A clone shares
the cells of its original, so one value stands for all clones, and calls on
different clones differ only in when they take effect. -/

namespace Nendi.Core

open Nendi.Lib

/-! ## Credits -/

structure CreditThrottle where
  credits : UInt32
  window : UInt32
deriving DecidableEq, Repr

namespace CreditThrottle

def new (window : UInt32) : CreditThrottle := ⟨window, window⟩

def tryConsume (throttle : CreditThrottle) : Bool × CreditThrottle :=
  -- the compare-and-exchange loop takes effect in the round in which it succeeds, or when it reads
  -- zero
  if throttle.credits = 0 then (false, throttle)
  else (true, { throttle with credits := throttle.credits - 1 })

def replenish (throttle : CreditThrottle) (amount : UInt32) : CreditThrottle :=
  -- `fetch_add` wraps
  { throttle with credits := throttle.credits + min amount throttle.window }

def reset (throttle : CreditThrottle) : CreditThrottle :=
  { throttle with credits := throttle.window }

def available (throttle : CreditThrottle) : UInt32 := throttle.credits

end CreditThrottle

inductive CreditAction where
  | tryConsume
  | replenish (amount : UInt32)
  | reset
deriving DecidableEq, Repr

namespace CreditThrottle

def step (throttle : CreditThrottle) : CreditAction → CreditThrottle
  | .tryConsume => throttle.tryConsume.2
  | .replenish amount => throttle.replenish amount
  | .reset => throttle.reset

def after (window : UInt32) (history : List CreditAction) : CreditThrottle :=
  history.foldl step (new window)

theorem after_snoc (window : UInt32) (past : List CreditAction) (action : CreditAction) :
    after window (past ++ [action]) = (after window past).step action := by
  rw [after, List.foldl_append]
  rfl

/-- A call with its answer; only `try_consume` has one. -/
def perform (throttle : CreditThrottle) : CreditAction → Option Bool × CreditThrottle
  | .tryConsume => (some throttle.tryConsume.1, throttle.tryConsume.2)
  | .replenish amount => (none, throttle.replenish amount)
  | .reset => (none, throttle.reset)

/-- The accesses that the calls make to the shared cell.  `replenish` reads the credits again for its
    log line, if that is written. -/
def code (window : UInt32) (logging : Bool) : CreditAction → CellCode UInt32 (Option Bool)
  | .tryConsume => .retry fun current =>
    if current = 0 then (some false, none) else (some true, some (current - 1))
  | .replenish amount => .once (fun credits => (none, credits + min amount window)) (if logging then 1 else 0)
  | .reset => .once (fun _ => (none, window)) 0

end CreditThrottle

/-! ## The gate -/

inductive PauseReason where
  | ringBufferFull
  | memoryBudgetExceeded
  | walLagHardCap
  | manual
deriving DecidableEq, Repr

structure BackpressureGate where
  isOpen : Bool
  pauseReason : Option PauseReason
  closeCount : UInt64
deriving DecidableEq, Repr

inductive GateOp where
  | storeOpen (value : Bool)
  | countClose
  | setReason (reason : Option PauseReason)
deriving DecidableEq, Repr

inductive GateCall where
  | close (reason : PauseReason)
  | openGate
deriving DecidableEq, Repr

def GateCall.steps : GateCall → List GateOp
  | .close reason => [.storeOpen false, .countClose, .setReason (some reason)]
  | .openGate => [.storeOpen true, .setReason none]

def GateCall.opens : GateCall → Bool
  | .close _ => false
  | .openGate => true

def GateOp.isFlag : GateOp → Bool
  | .storeOpen _ => true
  | _ => false

def GateOp.isReason : GateOp → Bool
  | .setReason _ => true
  | _ => false

namespace BackpressureGate

def new : BackpressureGate := ⟨true, none, 0⟩

def apply (gate : BackpressureGate) : GateOp → BackpressureGate
  | .storeOpen value => { gate with isOpen := value }
  | .countClose => { gate with closeCount := gate.closeCount + 1 }
  | .setReason reason => { gate with pauseReason := reason }

def call (gate : BackpressureGate) (gateCall : GateCall) : BackpressureGate :=
  gateCall.steps.foldl apply gate

def after (order : List (Nat × GateOp)) : BackpressureGate :=
  order.foldl (fun gate step => gate.apply step.2) new

theorem after_snoc (order : List (Nat × GateOp)) (step : Nat × GateOp) :
    after (order ++ [step]) = (after order).apply step.2 := by
  rw [after, List.foldl_append]
  rfl

end BackpressureGate

def gatePrograms (calls : List GateCall) : List (List (Nat × GateOp)) :=
  calls.mapIdx fun place call => call.steps.map fun step => (place, step)

end Nendi.Core
