import Nendi.Http.Retry

/-! # Backoff before it is capped

A retry waits half a second times a power of two, at most a minute.  The product is made
before the cap, so the policy is what it should be only as long as the product is a duration
at all: up to attempt 64.  Attempt 65 would wait `2 ^ 64` seconds, and panics.
-/

namespace Nendi.Verified

open Nendi.Lib Nendi.Http

/-- Every attempt below the maximum waits `500 ms * 2 ^ attempt` or 60 s, whichever is
    shorter, and no less than the attempts before it. -/
structure BacksOff (policy : RetryPolicy) : Prop where
  capped : ∀ attempt < policy.maxAttempts, ∃ backoff, policy.backoffFor attempt = some backoff ∧
    backoff.nanos = min (500 * 10 ^ 6 * 2 ^ attempt.toNat) (60 * 10 ^ 9)
  monotone : ∀ earlier later firstBackoff secondBackoff, earlier ≤ later → later < policy.maxAttempts →
    policy.backoffFor earlier = some firstBackoff → policy.backoffFor later = some secondBackoff →
    firstBackoff ≤ secondBackoff

theorem toInt32_toInt (attempt : UInt32) : attempt.toInt32.toInt = Int.bmod attempt.toNat (2 ^ 32) := by
  rw [← Int32.toInt_toBitVec, UInt32.toBitVec_toInt32, BitVec.toInt_eq_toNat_bmod]
  rfl

theorem toInt32_toInt_of_lt {attempt : UInt32} (small : attempt.toNat < 2 ^ 31) :
    attempt.toInt32.toInt = attempt.toNat := by
  rw [toInt32_toInt, Int.bmod]
  omega

theorem toInt32_toInt_of_ge {attempt : UInt32} (wrapped : 2 ^ 31 ≤ attempt.toNat) : attempt.toInt32.toInt ≤ -1 := by
  have bound := attempt.toNat_lt
  rw [toInt32_toInt, Int.bmod]
  omega

theorem backoffFor_of_lt (target : WebhookTarget) {attempt : UInt32} (small : attempt.toNat < 2 ^ 31) :
    (RetryPolicy.fromTarget target).backoffFor attempt =
      (if fits : 500 * 10 ^ 6 * 2 ^ attempt.toNat < 2 ^ 64 * 10 ^ 9 then some ⟨_, fits⟩ else none).map
        (min · (Duration.fromSecs 60)) := by
  have product : (2 : ℚ) ^ attempt.toInt32.toInt * (Duration.fromMillis 500).asSecs =
      ((500 * 10 ^ 6 * 2 ^ attempt.toNat : Nat) : ℚ) / 10 ^ 9 := by
    have initial : (Duration.fromMillis 500).nanos = 500 * 10 ^ 6 := rfl
    rw [toInt32_toInt_of_lt small, zpow_natCast, Duration.asSecs, initial]
    push_cast
    ring
  show (Duration.fromSecsF64 ((2 : ℚ) ^ attempt.toInt32.toInt * (Duration.fromMillis 500).asSecs)).map _ = _
  rw [product, fromSecsF64_nanos]
  rfl

/-- An attempt that is negative as an `i32` does not panic; it waits a quarter of a second at most. -/
theorem backoffFor_of_ge (target : WebhookTarget) {attempt : UInt32} (wrapped : 2 ^ 31 ≤ attempt.toNat) :
    ∃ backoff, (RetryPolicy.fromTarget target).backoffFor attempt = some backoff ∧ backoff.nanos ≤ 250 * 10 ^ 6 := by
  have factor : (2 : ℚ) ^ attempt.toInt32.toInt ≤ 2 ^ (-1 : Int) :=
    zpow_le_zpow_right₀ (by norm_num) (toInt32_toInt_of_ge wrapped)
  have positive : (0 : ℚ) < 2 ^ attempt.toInt32.toInt := zpow_pos (by norm_num) _
  have initial : (Duration.fromMillis 500).asSecs = 1 / 2 := by
    rw [Duration.asSecs, show (Duration.fromMillis 500).nanos = 500 * 10 ^ 6 from rfl]
    norm_num
  have product : (2 : ℚ) ^ attempt.toInt32.toInt * (Duration.fromMillis 500).asSecs * 10 ^ 9 ≤
      (250 * 10 ^ 6 : Nat) := by
    rw [initial]
    norm_num at factor ⊢
    linarith
  obtain ⟨backoff, returned, short⟩ := fromSecsF64_le (by rw [initial]; positivity) product (by decide)
  refine ⟨min backoff (Duration.fromSecs 60), ?_, ?_⟩
  · show (Duration.fromSecsF64 ((2 : ℚ) ^ attempt.toInt32.toInt * (Duration.fromMillis 500).asSecs)).map _ = _
    rw [returned]
    rfl
  · rw [min_nanos]
    exact (Nat.min_le_left _ _).trans short

theorem backoffFor_of_le (target : WebhookTarget) {attempt : UInt32} (early : attempt.toNat ≤ 64) :
    ∃ backoff, (RetryPolicy.fromTarget target).backoffFor attempt = some backoff ∧
      backoff.nanos = min (500 * 10 ^ 6 * 2 ^ attempt.toNat) (60 * 10 ^ 9) := by
  have power : 2 ^ attempt.toNat ≤ 2 ^ 64 := Nat.pow_le_pow_right (by decide) early
  have fits : 500 * 10 ^ 6 * 2 ^ attempt.toNat < 2 ^ 64 * 10 ^ 9 := by omega
  rw [backoffFor_of_lt target (by omega), dif_pos fits]
  exact ⟨_, rfl, min_nanos _ _⟩

theorem backoffFor_sixtyFive (target : WebhookTarget) : (RetryPolicy.fromTarget target).backoffFor 65 = none := by
  have tooLong : ¬ 500 * 10 ^ 6 * 2 ^ (65 : UInt32).toNat < 2 ^ 64 * 10 ^ 9 := by decide
  rw [backoffFor_of_lt target (by decide), dif_neg tooLong, Option.map_none]

/-- The policy of a target backs off as documented exactly if it makes at most 65 attempts. -/
theorem backsOff_iff (target : WebhookTarget) :
    BacksOff (RetryPolicy.fromTarget target) ↔ target.retryMaxAttempts ≤ 65 := by
  have attempts : (RetryPolicy.fromTarget target).maxAttempts = target.retryMaxAttempts := rfl
  constructor
  · intro backsOff
    by_contra more
    have below : 65 < (RetryPolicy.fromTarget target).maxAttempts := by
      rw [attempts]
      exact UInt32.not_le.mp more
    obtain ⟨backoff, returned, _⟩ := backsOff.capped 65 below
    rw [backoffFor_sixtyFive] at returned
    cases returned
  · intro few
    have early : ∀ attempt < (RetryPolicy.fromTarget target).maxAttempts, attempt.toNat ≤ 64 := by
      intro attempt below
      have bound : attempt < 65 := UInt32.lt_of_lt_of_le below few
      exact Nat.le_of_lt_succ (UInt32.lt_iff_toNat_lt.mp bound)
    refine ⟨fun attempt below => backoffFor_of_le target (early attempt below), ?_⟩
    intro earlier later firstBackoff secondBackoff le below firstReturned secondReturned
    have lePow : 2 ^ earlier.toNat ≤ 2 ^ later.toNat := Nat.pow_le_pow_right (by decide) (UInt32.le_iff_toNat_le.mp le)
    obtain ⟨_, returned, firstNanos⟩ := backoffFor_of_le target (early earlier (UInt32.lt_of_le_of_lt le below))
    cases firstReturned.symm.trans returned
    obtain ⟨_, returned, secondNanos⟩ := backoffFor_of_le target (early later below)
    cases secondReturned.symm.trans returned
    show firstBackoff.nanos ≤ secondBackoff.nanos
    omega

/-- A policy with more attempts retries after attempt 64, and panics. -/
theorem retries_into_panic {target : WebhookTarget} (more : 65 < target.retryMaxAttempts) :
    (RetryPolicy.fromTarget target).shouldRetry 64 = true ∧ (RetryPolicy.fromTarget target).backoffFor 65 = none := by
  have next : (64 : UInt32) + 1 < target.retryMaxAttempts := more
  exact ⟨decide_eq_true next, backoffFor_sixtyFive target⟩

theorem attempt_sixtyFive_panics :
    65 < (RetryPolicy.fromTarget ⟨"", 66, none⟩).maxAttempts ∧
      (RetryPolicy.fromTarget ⟨"", 66, none⟩).backoffFor 65 = none :=
  ⟨by decide, backoffFor_sixtyFive _⟩

end Nendi.Verified
