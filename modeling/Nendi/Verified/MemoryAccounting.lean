import Mathlib.Algebra.BigOperators.Group.Finset.Piecewise
import Mathlib.Data.Fintype.Basic
import Nendi.Core.Memory

/-! # What the memory budget counts

The components of the daemon allocate and free against one counter that wraps in both
directions.  `memory_accounted` says that it is nevertheless the sum of what they hold, as long
as each frees only what it holds. -/

namespace Nendi.Verified

open Nendi.Lib Nendi.Core

variable {Component : Type}

def budgetAfter (budgetBytes : UInt64) (warnThreshold : Float64) (history : List (Component × MemoryCall)) :
    MemoryBudget :=
  (history.map Prod.snd).foldl MemoryBudget.step (.new budgetBytes warnThreshold)

theorem budgetAfter_settings (budgetBytes : UInt64) (warnThreshold : Float64)
    (history : List (Component × MemoryCall)) :
    (budgetAfter budgetBytes warnThreshold history).budgetBytes = budgetBytes ∧
      (budgetAfter budgetBytes warnThreshold history).warnThreshold = warnThreshold.clampUnit := by
  induction history using List.reverseRecOn with
  | nil => exact ⟨rfl, rfl⟩
  | append_singleton past last inductionHypothesis =>
    rw [budgetAfter, List.map_append, List.foldl_append, ← budgetAfter]
    cases call : last.2 with
    | allocate bytes => simpa [call, MemoryBudget.step] using inductionHypothesis
    | deallocate bytes => simpa [call, MemoryBudget.step] using inductionHypothesis

variable [DecidableEq Component]

def held (history : List (Component × MemoryCall)) : Component → Nat :=
  history.foldl (fun held entry =>
    match entry.2 with
    | .allocate bytes => Function.update held entry.1 (held entry.1 + bytes.toNat)
    | .deallocate bytes => Function.update held entry.1 (held entry.1 - bytes.toNat)) fun _ => 0

/-- No component frees more than it holds at the time. -/
def FreesOwn (history : List (Component × MemoryCall)) : Prop :=
  ∀ past component bytes later, history = past ++ (component, .deallocate bytes) :: later →
    bytes.toNat ≤ held past component

theorem held_snoc (past : List (Component × MemoryCall)) (component : Component) (call : MemoryCall) :
    held (past ++ [(component, call)]) = Function.update (held past) component
      (match call with
        | .allocate bytes => held past component + bytes.toNat
        | .deallocate bytes => held past component - bytes.toNat) := by
  rw [held, List.foldl_append]
  cases call with
  | allocate bytes => rfl
  | deallocate bytes => rfl

theorem FreesOwn.init {past : List (Component × MemoryCall)} {last : Component × MemoryCall}
    (own : FreesOwn (past ++ [last])) : FreesOwn past := by
  intro earlier component bytes later split
  exact own earlier component bytes (later ++ [last]) (by rw [split]; simp)

variable [Fintype Component]

theorem sum_update (holdings : Component → Nat) (component : Component) (value : Nat) :
    (∑ other, Function.update holdings component value other) + holdings component = (∑ other, holdings other) + value := by
  rw [Finset.sum_update_of_mem (Finset.mem_univ component),
    Finset.sum_eq_add_sum_sdiff_singleton_of_mem (Finset.mem_univ component) holdings]
  omega

theorem used_eq (budgetBytes : UInt64) (warnThreshold : Float64) (history : List (Component × MemoryCall))
    (own : FreesOwn history) :
    (budgetAfter budgetBytes warnThreshold history).used = UInt64.ofNat (∑ component, held history component) := by
  induction history using List.reverseRecOn with
  | nil => simp [budgetAfter, MemoryBudget.new, held]
  | append_singleton past last inductionHypothesis =>
    obtain ⟨component, call⟩ := last
    have before := inductionHypothesis own.init
    rw [budgetAfter, List.map_append, List.foldl_append, ← budgetAfter, held_snoc]
    cases call with
    | allocate bytes =>
      have sum := sum_update (held past) component (held past component + bytes.toNat)
      have more : (∑ other, Function.update (held past) component (held past component + bytes.toNat) other) =
          (∑ other, held past other) + bytes.toNat := by omega
      simp only [more, List.map_cons, List.map_nil, List.foldl_cons, List.foldl_nil, MemoryBudget.step, before,
        UInt64.ofNat_add, UInt64.ofNat_toNat]
    | deallocate bytes =>
      have enough := own past component bytes [] rfl
      have sum := sum_update (held past) component (held past component - bytes.toNat)
      have less : (∑ other, held past other) =
          (∑ other, Function.update (held past) component (held past component - bytes.toNat) other) + bytes.toNat := by
        omega
      simp only [List.map_cons, List.map_nil, List.foldl_cons, List.foldl_nil, MemoryBudget.step, before]
      rw [less, UInt64.ofNat_add, UInt64.ofNat_toNat]
      exact UInt64.add_sub_cancel _ _

theorem isWarning_of_isExceeded {budget : MemoryBudget} {threshold : ℚ}
    (isNumber : budget.warnThreshold = .finite threshold) (below : threshold < 1) (exceeded : budget.isExceeded = true) :
    budget.isWarning = true := by
  have more : budget.budgetBytes.toNat < budget.used.toNat := UInt64.lt_iff_toNat_lt.mp (of_decide_eq_true exceeded)
  have usedPositive : (0 : ℚ) < budget.used.toNat := by exact_mod_cast Nat.zero_lt_of_lt more
  rw [MemoryBudget.isWarning, isNumber, MemoryBudget.usageRatio]
  obtain zero | positive := Nat.eq_zero_or_pos budget.budgetBytes.toNat
  · rw [zero, Nat.cast_zero, round53_zero]
    exact Float64.lt_divide (le_refl 0) (round53_pos usedPositive).le (round53_pos usedPositive) below
  · have positive' : (0 : ℚ) < budget.budgetBytes.toNat := by exact_mod_cast positive
    exact Float64.lt_divide (round53_pos positive').le (round53_mono positive' (by exact_mod_cast more.le))
      (round53_pos usedPositive) below

/-- After any interleaving of the calls of any components, each of which frees only what it
    holds: the budget's answers are those for the sum of what they hold. -/
theorem memory_accounted (budgetBytes : UInt64) (warnThreshold : Float64)
    (history : List (Component × MemoryCall)) (own : FreesOwn history)
    (fits : (∑ component, held history component) < 2 ^ 64) :
    let total := ∑ component, held history component
    let budget := budgetAfter budgetBytes warnThreshold history
    budget.used.toNat = total ∧ (budget.isExceeded = true ↔ budgetBytes.toNat < total) ∧
      budget.remaining.toNat = budgetBytes.toNat - total ∧
      ∀ threshold, warnThreshold.clampUnit = .finite threshold → threshold < 1 → budgetBytes.toNat < total →
        budget.isWarning = true := by
  intro total budget
  obtain ⟨sameBudget, sameThreshold⟩ := budgetAfter_settings budgetBytes warnThreshold history
  have used : budget.used.toNat = total := by
    rw [used_eq budgetBytes warnThreshold history own, UInt64.toNat_ofNat_of_lt' fits]
  have exceeded : budget.isExceeded = true ↔ budgetBytes.toNat < total := by
    rw [MemoryBudget.isExceeded, sameBudget, decide_eq_true_eq, UInt64.lt_iff_toNat_lt, used]
  refine ⟨used, exceeded, ?_, ?_⟩
  · rw [MemoryBudget.remaining, sameBudget]
    split
    next within =>
      rw [UInt64.toNat_sub_of_le _ _ within, used]
    next beyond =>
      rw [UInt64.le_iff_toNat_le, used] at beyond
      show 0 = _
      omega
  · intro threshold isNumber below more
    exact isWarning_of_isExceeded (sameThreshold.trans isNumber) below (exceeded.mpr more)

def twoComponents : List (Bool × MemoryCall) :=
  [(false, .allocate 70), (true, .allocate 50), (false, .deallocate 10)]

theorem twoComponents_own : FreesOwn twoComponents := by
  intro past component bytes later split
  match past with
  | [] => cases split
  | [_] => cases split
  | [_, _] =>
    cases split
    decide
  | _ :: _ :: _ :: _ => simp [twoComponents] at split

theorem memory_accounted_two_components :
    (budgetAfter 100 (.finite (1 / 2)) twoComponents).used.toNat = 110 ∧
      (budgetAfter 100 (.finite (1 / 2)) twoComponents).isWarning = true := by
  obtain ⟨used, _, _, warns⟩ :=
    memory_accounted 100 (.finite (1 / 2)) twoComponents twoComponents_own (by decide)
  exact ⟨used, warns (1 / 2) (by norm_num [Float64.clampUnit]) (by norm_num) (by decide)⟩

end Nendi.Verified
