import Nendi.Core.Backpressure

/-! # Credits under concurrent calls

`try_consume` is a loop of `load` and `compare_exchange_weak`, and the clones of a throttle
are called from several threads.  `credit_calls_linearize` says that the loop can be taken
for a single step, as `CreditThrottle.tryConsume` does, somewhere between its call and its
return, and that no thread goes round without another one getting on.  `credits_conserved` says
that no credit is lost or spent twice. -/

namespace Nendi.Verified

open Nendi.Lib Nendi.Core

theorem perform_eq_atomically (throttle : CreditThrottle) (logging : Bool) (action : CreditAction) :
    throttle.perform action =
      let done := (CreditThrottle.code throttle.window logging action).atomically throttle.credits
      (done.1, ⟨done.2, throttle.window⟩) := by
  cases action with
  | tryConsume =>
    simp only [CreditThrottle.perform, CreditThrottle.tryConsume, CreditThrottle.code, CellCode.atomically]
    split <;> rfl
  | replenish amount => rfl
  | reset => rfl

theorem trace_perform (window start : UInt32) (logging : Bool) (calls : List CreditAction) :
    trace CreditThrottle.perform ⟨start, window⟩ calls =
      let done := trace (fun credits action => (CreditThrottle.code window logging action).atomically credits) start calls
      (⟨done.1, window⟩, done.2) := by
  induction calls using List.reverseRecOn with
  | nil => rfl
  | append_singleton calls action inductionHypothesis =>
    rw [trace_snoc, trace_snoc, inductionHypothesis, perform_eq_atomically _ logging]

section
variable {θ : Type} [DecidableEq θ]

/-- Concurrent calls give the answers and leave the credits that they do one at a time, in the
    order in which they take effect, and each takes effect between its start and its return.
    A thread that finds the credits changed, and starts again, does so at most once for each call
    of another thread that took effect. -/
theorem credit_calls_linearize (window : UInt32) (logging : Bool) (steps : List (ThreadStep CreditAction θ))
    (final : CellThreads UInt32 CreditAction (Option Bool) θ)
    (history : List (ThreadStep CreditAction θ × ThreadOutcome CreditAction (Option Bool)))
    (ran : run (CellThreads.step (CreditThrottle.code window logging)) (.idle window) steps = some (final, history)) :
    trace CreditThrottle.perform (.new window) ((effects history).map Prod.fst) =
        (⟨final.cell, window⟩, effects history) ∧
      ∀ thread, Bracketed thread history final ∧ lostRaces thread history ≤ effectsElsewhere thread history := by
  refine ⟨?_, fun thread => ⟨bracketed ran thread, lostRaces_le ran thread⟩⟩
  rw [CreditThrottle.new, trace_perform window window logging, effects_linearize ran]

/-- Two threads read the same credit; the one that comes too late reads again. -/
def racingSteps : List (ThreadStep CreditAction Bool) :=
  [.start true .tryConsume, .start false .tryConsume, .access true false, .access false false,
    .access false false, .access true false, .access true false, .leave true, .leave false]

theorem credit_calls_linearize_racing :
    ∃ final history,
      run (CellThreads.step (CreditThrottle.code 1 true)) (.idle 1) racingSteps = some (final, history) ∧
      effects history = [(.tryConsume, some true), (.tryConsume, some false)] ∧
      lostRaces true history = 1 ∧ Bracketed true history final ∧
      trace CreditThrottle.perform (.new 1) [.tryConsume, .tryConsume] = (⟨final.cell, 1⟩, effects history) := by
  have linear := credit_calls_linearize 1 true racingSteps _ _ rfl
  exact ⟨_, _, rfl, rfl, rfl, (linear.2 true).1, linear.1⟩

/-! ## No credit lost or spent twice -/

/-- Credits granted and handed back since the last reset. -/
structure CreditLedger where
  granted : Nat
  replenished : Nat

def CreditLedger.enter (window : UInt32) (ledger : CreditLedger) : CreditAction × Option Bool → CreditLedger
  | (.tryConsume, answer) => if answer = some true then { ledger with granted := ledger.granted + 1 } else ledger
  | (.replenish amount, _) => { ledger with replenished := ledger.replenished + (min amount window).toNat }
  | (.reset, _) => ⟨0, 0⟩

def ledgerOf (window : UInt32) (returns : List (CreditAction × Option Bool)) : CreditLedger :=
  returns.foldl (CreditLedger.enter window) ⟨0, 0⟩

theorem ledgerOf_snoc (window : UInt32) (past : List (CreditAction × Option Bool))
    (entry : CreditAction × Option Bool) :
    ledgerOf window (past ++ [entry]) = (ledgerOf window past).enter window entry := by
  rw [ledgerOf, List.foldl_append]
  rfl

/-- As long as the credits handed out fit the counter, the books balance. -/
def Balances (window : UInt32) (past : List (CreditAction × Option Bool)) (throttle : CreditThrottle) : Prop :=
  throttle.window = window ∧
    (window.toNat + (ledgerOf window past).replenished < 2 ^ 32 →
      throttle.credits.toNat + (ledgerOf window past).granted = window.toNat + (ledgerOf window past).replenished)

theorem balances_step {window : UInt32} {past : List (CreditAction × Option Bool)} {throttle : CreditThrottle}
    (balances : Balances window past throttle) (action : CreditAction) :
    Balances window (past ++ [(action, (throttle.perform action).1)]) (throttle.perform action).2 := by
  obtain ⟨rfl, balance⟩ := balances
  rw [Balances, ledgerOf_snoc]
  cases action with
  | tryConsume =>
    by_cases none_left : throttle.credits = 0
    · simpa [CreditThrottle.perform, CreditThrottle.tryConsume, none_left, CreditLedger.enter] using balance
    · have positive : 0 < throttle.credits.toNat := by
        rw [Nat.pos_iff_ne_zero]
        exact fun zero => none_left (UInt32.toNat_inj.mp zero)
      have one : (1 : UInt32) ≤ throttle.credits := UInt32.le_iff_toNat_le.mpr positive
      simp only [CreditThrottle.perform, CreditThrottle.tryConsume, none_left, CreditLedger.enter, if_true, if_false,
        UInt32.toNat_sub_of_le _ _ one, true_and]
      intro fits
      have before := balance fits
      change throttle.credits.toNat - 1 + _ = _
      omega
  | replenish amount =>
    simp only [CreditThrottle.perform, CreditThrottle.replenish, CreditLedger.enter, UInt32.toNat_add, true_and]
    intro fits
    -- the sum fits, so the counter does not wrap
    have before := balance (by omega)
    rw [Nat.mod_eq_of_lt (by omega)]
    omega
  | reset => simp [CreditThrottle.perform, CreditThrottle.reset, CreditLedger.enter]

/-- Whatever calls overlap, the credits at hand and those granted since the last reset are the
    window and what was handed back since then, as long as that sum fits the counter. -/
theorem credits_conserved (window : UInt32) (logging : Bool) (steps : List (ThreadStep CreditAction θ))
    (final : CellThreads UInt32 CreditAction (Option Bool) θ)
    (history : List (ThreadStep CreditAction θ × ThreadOutcome CreditAction (Option Bool)))
    (ran : run (CellThreads.step (CreditThrottle.code window logging)) (.idle window) steps = some (final, history))
    (fits : window.toNat + (ledgerOf window (effects history)).replenished < 2 ^ 32) :
    final.cell.toNat + (ledgerOf window (effects history)).granted =
      window.toNat + (ledgerOf window (effects history)).replenished := by
  have balances : Balances window
      (trace CreditThrottle.perform ⟨window, window⟩ ((effects history).map Prod.fst)).2
      (trace CreditThrottle.perform ⟨window, window⟩ ((effects history).map Prod.fst)).1 := by
    apply trace_invariant (Balances window)
    · exact ⟨rfl, fun _ => rfl⟩
    · intro past throttle action holds
      exact balances_step holds action
  -- one at a time, in the order of their effects, the calls keep the balance
  rw [trace_perform window window logging, effects_linearize ran] at balances
  exact balances.2 fits

theorem credits_conserved_racing :
    ∃ final history,
      run (CellThreads.step (CreditThrottle.code 1 true)) (.idle 1) racingSteps = some (final, history) ∧
      final.cell.toNat + (ledgerOf 1 (effects history)).granted = 1 := by
  have conserved := credits_conserved 1 true racingSteps _ _ rfl (by decide)
  exact ⟨_, _, rfl, conserved⟩

end

end Nendi.Verified
