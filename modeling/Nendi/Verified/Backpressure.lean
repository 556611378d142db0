import Nendi.Core.Backpressure
import Nendi.Lib.Machine

/-! # What backpressure guarantees

`replenish` caps the amount it adds, not the sum, so credits handed back that were
never spent push the counter past the window.  `credits_within_window_iff` says
which histories stay within it.

The gate keeps its flag and its reason in two cells.  `gate_agrees_iff` says for
every interleaving of calls whether the cells agree in the end: it depends on who
came last to each of them. -/

namespace Nendi.Verified

open Nendi.Lib Nendi.Core

/-! ## Credits -/

/-- What a replenishment adds fits beside the credits at hand, or their sum wraps. -/
def Replenishes (throttle : CreditThrottle) (amount : UInt32) : Prop :=
  throttle.credits.toNat + min amount.toNat throttle.window.toNat ≤ throttle.window.toNat ∨
    2 ^ 32 ≤ throttle.credits.toNat + min amount.toNat throttle.window.toNat

/-- The condition on the state before a call. -/
def CreditGuard (throttle : CreditThrottle) : CreditAction → Prop
  | .replenish amount => Replenishes throttle amount
  | _ => True

@[simp] theorem step_window (throttle : CreditThrottle) (action : CreditAction) :
    (throttle.step action).window = throttle.window := by
  cases action with
  | tryConsume =>
    simp only [CreditThrottle.step, CreditThrottle.tryConsume]
    split
    · rfl
    · rfl
  | replenish amount => rfl
  | reset => rfl

theorem toNat_min (first second : UInt32) : (min first second).toNat = min first.toNat second.toNat := by
  by_cases le : first ≤ second
  · rw [min_eq_left le, min_eq_left (UInt32.le_iff_toNat_le.mp le)]
  · have ge := le_of_lt (not_le.mp le)
    rw [min_eq_right ge, min_eq_right (UInt32.le_iff_toNat_le.mp ge)]

theorem replenish_within_iff {throttle : CreditThrottle} (within : throttle.credits ≤ throttle.window)
    (amount : UInt32) :
    (throttle.replenish amount).credits ≤ throttle.window ↔ Replenishes throttle amount := by
  have credits := UInt32.le_iff_toNat_le.mp within
  have window := throttle.window.toNat_lt
  simp only [CreditThrottle.replenish, Replenishes, UInt32.le_iff_toNat_le, UInt32.toNat_add, toNat_min]
  -- a sum that wraps comes out below both of its parts
  omega

theorem step_within_iff {throttle : CreditThrottle} (within : throttle.credits ≤ throttle.window)
    (action : CreditAction) :
    (throttle.step action).credits ≤ throttle.window ↔ CreditGuard throttle action := by
  cases action with
  | tryConsume =>
    simp only [CreditThrottle.step, CreditThrottle.tryConsume, CreditGuard, iff_true]
    split
    next => exact within
    next some_left =>
      have positive : throttle.credits.toNat ≠ 0 := fun zero =>
        some_left (UInt32.toNat_inj.mp zero)
      have one : (1 : UInt32) ≤ throttle.credits := by
        rw [UInt32.le_iff_toNat_le]
        exact Nat.one_le_iff_ne_zero.mpr positive
      rw [UInt32.le_iff_toNat_le] at within ⊢
      dsimp only
      rw [UInt32.toNat_sub_of_le _ _ one]
      omega
  | replenish amount => exact replenish_within_iff within amount
  | reset => simp [CreditThrottle.step, CreditThrottle.reset, CreditGuard]

theorem after_window (window : UInt32) (history : List CreditAction) :
    (CreditThrottle.after window history).window = window := by
  induction history using List.reverseRecOn with
  | nil => rfl
  | append_singleton past action inductionHypothesis =>
    rw [CreditThrottle.after_snoc, step_window, inductionHypothesis]

/-- The credits stay within the window at every point of a history exactly when
    no replenishment in it adds more than has been spent and not yet returned,
    short of wrapping around. -/
theorem credits_within_window_iff (window : UInt32) (history : List CreditAction) :
    (∀ past, past <+: history → (CreditThrottle.after window past).available ≤ window) ↔
      ∀ past action, past ++ [action] <+: history →
        CreditGuard (CreditThrottle.after window past) action := by
  apply always_iff
  · exact le_refl window
  · intro past action within
    have sameWindow := after_window window past
    have before : (CreditThrottle.after window past).credits ≤
        (CreditThrottle.after window past).window := by
      rw [sameWindow]
      exact within
    have step := step_within_iff before action
    rw [sameWindow] at step
    rw [CreditThrottle.after_snoc]
    exact step

/-- A window of two that is replenished before anything was spent. -/
theorem replenish_exceeds_window :
    ¬ ∀ past, past <+: [CreditAction.replenish 1] → (CreditThrottle.after 2 past).available ≤ 2 := by
  intro within
  exact absurd (within [.replenish 1] List.prefix_rfl) (by decide)

/-! ## The gate -/

def lastCaller (kind : GateOp → Bool) (order : List (Nat × GateOp)) : Option Nat :=
  ((order.filter fun step => kind step.2).getLast?).map Prod.fst

def opensAt (calls : List GateCall) (place : Nat) : Option Bool := calls[place]?.map GateCall.opens

theorem lastCaller_snoc (kind : GateOp → Bool) (order : List (Nat × GateOp)) (step : Nat × GateOp) :
    lastCaller kind (order ++ [step]) = if kind step.2 then some step.1 else lastCaller kind order := by
  by_cases isKind : kind step.2
  · simp [lastCaller, isKind]
  · simp [lastCaller, isKind]

def FromCalls (calls : List GateCall) (order : List (Nat × GateOp)) : Prop :=
  ∀ step ∈ order, ∃ call, calls[step.1]? = some call ∧ step.2 ∈ call.steps

theorem fromCalls_of_interleave {calls : List GateCall} {schedule : List Nat}
    {order : List (Nat × GateOp)} (scheduled : interleave (gatePrograms calls) schedule = some order) :
    FromCalls calls order := by
  intro step member
  have inPrograms := (interleave_perm scheduled).subset member
  obtain ⟨program, listed, inProgram⟩ := List.mem_flatten.mp inPrograms
  obtain ⟨place, bound, rfl⟩ := List.mem_mapIdx.mp listed
  obtain ⟨op, inSteps, rfl⟩ := List.mem_map.mp inProgram
  exact ⟨calls[place], List.getElem?_eq_getElem bound, inSteps⟩

/-- A cell that steps of one kind set to what their call stands for, and that other
    steps leave alone, ends up as the last of them set it. -/
theorem cell_after {calls : List GateCall} {order : List (Nat × GateOp)} (fromCalls : FromCalls calls order)
    {kind : GateOp → Bool} (cell : BackpressureGate → Bool) (start : cell .new = true)
    (sets : ∀ (gate : BackpressureGate) (call : GateCall) (op : GateOp), op ∈ call.steps →
      kind op = true → cell (gate.apply op) = call.opens)
    (leaves : ∀ (gate : BackpressureGate) (op : GateOp), kind op = false →
      cell (gate.apply op) = cell gate) :
    cell (BackpressureGate.after order) = ((lastCaller kind order).bind (opensAt calls)).getD true := by
  induction order using List.reverseRecOn with
  | nil => exact start
  | append_singleton order step inductionHypothesis =>
    rw [BackpressureGate.after_snoc, lastCaller_snoc]
    cases isKind : kind step.2 with
    | true =>
      obtain ⟨call, listed, inSteps⟩ := fromCalls step (by simp)
      simp [sets _ call step.2 inSteps isKind, opensAt, listed]
    | false =>
      rw [leaves _ _ isKind]
      exact inductionHypothesis fun earlier member => fromCalls earlier (List.mem_append_left _ member)

theorem flag_of_step {call : GateCall} {op : GateOp} (inSteps : op ∈ call.steps)
    (isFlag : op.isFlag = true) : op = .storeOpen call.opens := by
  cases call with
  | close reason =>
    simp only [GateCall.steps, List.mem_cons, List.not_mem_nil, or_false] at inSteps
    obtain rfl | rfl | rfl := inSteps
    · rfl
    · cases isFlag
    · cases isFlag
  | openGate =>
    simp only [GateCall.steps, List.mem_cons, List.not_mem_nil, or_false] at inSteps
    obtain rfl | rfl := inSteps
    · rfl
    · cases isFlag

theorem reason_of_step {call : GateCall} {op : GateOp} (inSteps : op ∈ call.steps)
    (isReason : op.isReason = true) : ∃ reason, op = .setReason reason ∧ reason.isNone = call.opens := by
  cases call with
  | close reason =>
    simp only [GateCall.steps, List.mem_cons, List.not_mem_nil, or_false] at inSteps
    obtain rfl | rfl | rfl := inSteps
    · cases isReason
    · cases isReason
    · exact ⟨some reason, rfl, rfl⟩
  | openGate =>
    simp only [GateCall.steps, List.mem_cons, List.not_mem_nil, or_false] at inSteps
    obtain rfl | rfl := inSteps
    · cases isReason
    · exact ⟨none, rfl, rfl⟩

theorem isOpen_after {calls : List GateCall} {order : List (Nat × GateOp)}
    (fromCalls : FromCalls calls order) :
    (BackpressureGate.after order).isOpen =
      ((lastCaller GateOp.isFlag order).bind (opensAt calls)).getD true := by
  refine cell_after fromCalls BackpressureGate.isOpen rfl ?_ ?_
  · intro gate call op inSteps isFlag
    rw [flag_of_step inSteps isFlag]
    rfl
  · intro gate op notFlag
    cases op with
    | storeOpen value => cases notFlag
    | countClose => rfl
    | setReason reason => rfl

theorem pauseReason_after {calls : List GateCall} {order : List (Nat × GateOp)}
    (fromCalls : FromCalls calls order) :
    (BackpressureGate.after order).pauseReason.isNone =
      ((lastCaller GateOp.isReason order).bind (opensAt calls)).getD true := by
  refine cell_after fromCalls (fun gate => gate.pauseReason.isNone) rfl ?_ ?_
  · intro gate call op inSteps isReason
    obtain ⟨reason, rfl, same⟩ := reason_of_step inSteps isReason
    exact same
  · intro gate op notReason
    cases op with
    | storeOpen value => rfl
    | countClose => rfl
    | setReason reason => cases notReason

theorem gateCall_has_step (call : GateCall) :
    (∃ op ∈ call.steps, op.isFlag = true) ∧ ∃ op ∈ call.steps, op.isReason = true := by
  cases call with
  | close reason =>
    exact ⟨⟨.storeOpen false, by simp [GateCall.steps], rfl⟩,
      ⟨.setReason (some reason), by simp [GateCall.steps], rfl⟩⟩
  | openGate =>
    exact ⟨⟨.storeOpen true, by simp [GateCall.steps], rfl⟩,
      ⟨.setReason none, by simp [GateCall.steps], rfl⟩⟩

theorem step_mem_order {calls : List GateCall} {schedule : List Nat} {order : List (Nat × GateOp)}
    (scheduled : interleave (gatePrograms calls) schedule = some order) {place : Nat} {call : GateCall}
    (listed : calls[place]? = some call) {op : GateOp} (inSteps : op ∈ call.steps) :
    (place, op) ∈ order := by
  have program : (gatePrograms calls)[place]? = some (call.steps.map fun step => (place, step)) := by
    simp [gatePrograms, listed]
  exact (interleave_sublist scheduled program).subset (List.mem_map_of_mem inSteps)

theorem lastCaller_of_mem {calls : List GateCall} {order : List (Nat × GateOp)}
    (fromCalls : FromCalls calls order) {kind : GateOp → Bool} {step : Nat × GateOp}
    (member : step ∈ order) (isKind : kind step.2 = true) :
    ∃ opens, (lastCaller kind order).bind (opensAt calls) = some opens := by
  have inKind : step ∈ order.filter fun step => kind step.2 := List.mem_filter.mpr ⟨member, isKind⟩
  obtain ⟨last, isLast⟩ := Option.ne_none_iff_exists'.mp
    (mt List.getLast?_eq_none_iff.mp (List.ne_nil_of_mem inKind))
  have inOrder := (List.mem_filter.mp (List.mem_of_getLast? isLast)).1
  obtain ⟨call, listed, _⟩ := fromCalls last inOrder
  exact ⟨call.opens, by simp [lastCaller, isLast, opensAt, listed]⟩

/-- A call that nothing comes between leaves the cells in agreement. -/
theorem call_agrees (gate : BackpressureGate) (gateCall : GateCall) :
    (gate.call gateCall).isOpen = true ↔ (gate.call gateCall).pauseReason = none := by
  cases gateCall with
  | close reason => simp [BackpressureGate.call, GateCall.steps, BackpressureGate.apply]
  | openGate => simp [BackpressureGate.call, GateCall.steps, BackpressureGate.apply]

/-- After any overlap of calls, the gate is open exactly when it has no pause reason
    if and only if the flag and the reason were last set by calls of one kind (by
    none, if no call was made). -/
theorem gate_agrees_iff (calls : List GateCall) (schedule : List Nat) (order : List (Nat × GateOp))
    (scheduled : interleave (gatePrograms calls) schedule = some order) :
    ((BackpressureGate.after order).isOpen = true ↔ (BackpressureGate.after order).pauseReason = none) ↔
      (lastCaller GateOp.isFlag order).bind (opensAt calls) =
        (lastCaller GateOp.isReason order).bind (opensAt calls) := by
  have fromCalls := fromCalls_of_interleave scheduled
  rw [← Option.isNone_iff_eq_none, ← Bool.eq_iff_iff, isOpen_after fromCalls, pauseReason_after fromCalls]
  cases order with
  | nil => simp [lastCaller]
  | cons step later =>
    -- some call has run to its end, so both cells have been written
    obtain ⟨call, listed, _⟩ := fromCalls step List.mem_cons_self
    obtain ⟨⟨flagStep, inFlag, isFlag⟩, ⟨reasonStep, inReason, isReason⟩⟩ := gateCall_has_step call
    obtain ⟨flag, flagSet⟩ := lastCaller_of_mem fromCalls (step_mem_order scheduled listed inFlag) isFlag
    obtain ⟨reason, reasonSet⟩ :=
      lastCaller_of_mem fromCalls (step_mem_order scheduled listed inReason) isReason
    simp [flagSet, reasonSet]

/-- A close and an open that overlap: the flag is stored by the open last, the
    reason by the close. -/
theorem gate_open_with_reason :
    ∃ order, interleave (gatePrograms [.close .manual, .openGate]) [0, 1, 0, 1, 0] = some order ∧
      ¬ ((BackpressureGate.after order).isOpen = true ↔
        (BackpressureGate.after order).pauseReason = none) :=
  ⟨_, rfl, by decide⟩

/-- A close that ends before the open begins. -/
theorem gate_agrees_in_turn :
    ∃ order, interleave (gatePrograms [.close .manual, .openGate]) [0, 0, 0, 1, 1] = some order ∧
      (((BackpressureGate.after order).isOpen = true ↔
          (BackpressureGate.after order).pauseReason = none) ↔
        (lastCaller GateOp.isFlag order).bind (opensAt [.close .manual, .openGate]) =
          (lastCaller GateOp.isReason order).bind (opensAt [.close .manual, .openGate])) :=
  ⟨_, rfl, gate_agrees_iff _ [0, 0, 0, 1, 1] _ rfl⟩

end Nendi.Verified
