import Nendi.Lib.Binary64
import Nendi.Verified.ReplicationRate

/-! # The throttle refuses nothing it could grant

The rate bounds what the throttle grants from above.  `refused_iff_rate_spent` is the other
direction: a call is refused only where one more grant would break the bound in some window
that ends with the call.  `backoff_predicts_grant` says that the wait it suggests after a
refusal is the right one, to the nanosecond. -/

namespace Nendi.Verified

open Nendi.Lib Nendi.Pgsql

/-! ## Nothing is lost -/

/-- The bucket has all that the rate leaves of some window. -/
def Saved (rate : ℚ) (burst : UInt64) (history : List (Nat × Bool)) (tokens : ℚ) (now : Nat) : Prop :=
  ∃ start ≤ now, grantsSince history start + tokens = burst.toNat + rate * inSeconds (now - start)

section

variable {rate : ℚ} {burst : UInt64} {history : List (Nat × Bool)} {throttle : ReplicationThrottle}

theorem refill_unused (full : throttle.tokens = throttle.burst.toNat) (nonneg : 0 ≤ throttle.rate) (now : Nat) :
    (throttle.refill now).tokens = throttle.burst.toNat := by
  show min _ _ = _
  rw [full]
  apply min_eq_right
  have added : 0 ≤ ((now - throttle.lastRefill : Nat) : ℚ) / 10 ^ 9 * throttle.rate := by positivity
  linarith

theorem saved_refill (metered : Metered rate burst history throttle) (nonneg : 0 ≤ rate) {now : Nat}
    (ordered : ∀ call ∈ history, call.1 ≤ now) (full : history = [] → throttle.tokens = burst.toNat)
    (saved : Saved rate burst history throttle.tokens throttle.lastRefill) :
    Saved rate burst history (throttle.refill now).tokens now := by
  have isFull : grantsSince history now = 0 → (throttle.refill now).tokens = burst.toNat →
      Saved rate burst history (throttle.refill now).tokens now := by
    intro none refilled
    exact ⟨now, le_refl _, by rw [none, refilled]; simp [inSeconds]⟩
  by_cases unused : history = []
  · subst unused
    apply isFull rfl
    rw [refill_unused (by rw [full rfl, metered.burst_eq]) (metered.rate_eq ▸ nonneg), metered.burst_eq]
  · have later := metered.lastRefill_le ordered unused
    have tokens : (throttle.refill now).tokens =
        min (throttle.tokens + inSeconds (now - throttle.lastRefill) * rate) burst.toNat := by
      rw [← metered.rate_eq, ← metered.burst_eq]
      rfl
    obtain fits | overflows := le_or_gt (throttle.tokens + inSeconds (now - throttle.lastRefill) * rate) burst.toNat
    · -- the window that was tight before is tight still
      obtain ⟨start, before, tight⟩ := saved
      refine ⟨start, before.trans later, ?_⟩
      have split : inSeconds (now - start) =
          inSeconds (now - throttle.lastRefill) + inSeconds (throttle.lastRefill - start) := by
        rw [← inSeconds_add]
        congr 1
        omega
      rw [tokens, min_eq_left fits, split]
      linarith
    · -- a bucket that runs over was not touched since the clock moved
      have moved : throttle.lastRefill < now := by
        apply lt_of_le_of_ne later
        intro same
        have capacity := metered.paid (throttle.lastRefill + 1)
        rw [same] at overflows capacity
        simp [inSeconds] at overflows capacity
        have some : (0 : ℚ) ≤ grantsSince history (now + 1) := Nat.cast_nonneg _
        linarith
      apply isFull
      · apply grantsSince_eq_zero
        intro call member
        exact (metered.passed call member).trans_lt moved
      · rw [tokens, min_eq_right overflows.le]

theorem saved_acquired (metered : Metered rate burst history throttle) (nonneg : 0 ≤ rate) {now : Nat}
    (ordered : ∀ call ∈ history, call.1 ≤ now) (full : history = [] → throttle.tokens = burst.toNat)
    (saved : Saved rate burst history throttle.tokens throttle.lastRefill) {granted : Bool}
    {next : ReplicationThrottle} (acquired : Acquired throttle now granted next) :
    Saved rate burst (history ++ [(now, granted)]) next.tokens next.lastRefill := by
  obtain ⟨start, before, tight⟩ := saved_refill metered nonneg ordered full saved
  refine ⟨start, acquired.lastRefill_eq ▸ before, ?_⟩
  have balance := acquired.balance
  have counted : (grantsSince (history ++ [(now, granted)]) start : ℚ) =
      grantsSince history start + if granted then 1 else 0 := by
    rw [grantsSince_snoc]
    cases granted <;> simp [before]
  rw [acquired.lastRefill_eq]
  linarith

end

theorem acquisitions_before (rate : ℚ) (burst : UInt64) (created : Nat) {times : List Nat} {now : Nat}
    (sorted : (times ++ [now]).Pairwise (· ≤ ·)) :
    ∀ call ∈ acquisitions (.new rate burst created) times, call.1 ≤ now := by
  intro call member
  apply (List.pairwise_append.mp sorted).2.2 call.1 _ now List.mem_cons_self
  rw [← acquisitions_times (.new rate burst created) times]
  exact List.mem_map_of_mem member

theorem acquisitions_full (rate : ℚ) (burst : UInt64) (created : Nat) (times : List Nat)
    (unused : acquisitions (.new rate burst created) times = []) :
    (trace ReplicationThrottle.tryAcquire (.new rate burst created) times).1.tokens = burst.toNat := by
  have none : times = [] := by
    rw [← acquisitions_times (.new rate burst created) times, unused]
    rfl
  rw [none]
  rfl

theorem saved_run {rate : ℚ} (nonneg : 0 ≤ rate) (burst : UInt64) (created : Nat) {times : List Nat}
    (sorted : times.Pairwise (· ≤ ·)) :
    Saved rate burst (acquisitions (.new rate burst created) times)
      (trace ReplicationThrottle.tryAcquire (.new rate burst created) times).1.tokens
      (trace ReplicationThrottle.tryAcquire (.new rate burst created) times).1.lastRefill := by
  induction times using List.reverseRecOn with
  | nil => exact ⟨created, le_refl _, by simp [acquisitions, trace, grantsSince, ReplicationThrottle.new, inSeconds]⟩
  | append_singleton times now inductionHypothesis =>
    obtain ⟨earlier, _, _⟩ := List.pairwise_append.mp sorted
    have metered := metered_run nonneg burst created earlier
    rw [acquisitions, trace_snoc]
    exact saved_acquired metered nonneg (acquisitions_before rate burst created sorted)
      (acquisitions_full rate burst created times) (inductionHypothesis earlier) (acquired_tryAcquire _ now)

/-! ## Refusals -/

theorem tryAcquire_refused_iff (throttle : ReplicationThrottle) (now : Nat) :
    (throttle.tryAcquire now).1 = false ↔ (throttle.refill now).tokens < 1 := by
  simp only [ReplicationThrottle.tryAcquire]
  split
  next enough => simpa using enough
  next short => simpa using short

/-- After any calls, a call is refused if and only if with it some window that ends there had
    more grants than burst and rate allow. -/
theorem refused_iff_rate_spent (rate : ℚ) (burst : UInt64) (created : Nat) (times : List Nat) (now : Nat)
    (nonneg : 0 ≤ rate) (sorted : (times ++ [now]).Pairwise (· ≤ ·)) :
    ((trace ReplicationThrottle.tryAcquire (.new rate burst created) times).1.tryAcquire now).1 = false ↔
      ∃ start ≤ now, burst.toNat + rate * inSeconds (now - start) <
        grantsSince (acquisitions (.new rate burst created) times) start + 1 := by
  obtain ⟨earlier, _, _⟩ := List.pairwise_append.mp sorted
  have metered := metered_run nonneg burst created earlier
  have before := acquisitions_before rate burst created sorted
  rw [tryAcquire_refused_iff]
  constructor
  · intro short
    obtain ⟨start, le, tight⟩ :=
      saved_refill metered nonneg before (acquisitions_full rate burst created times) (saved_run nonneg burst created earlier)
    exact ⟨start, le, by linarith⟩
  · rintro ⟨start, _, spent⟩
    have paid := metered.paid_refill before nonneg start
    linarith

/-- The third call of a burst of two. -/
theorem refused_iff_rate_spent_third :
    ∃ start ≤ 5, ((2 : UInt64).toNat : ℚ) + 1 * inSeconds (5 - start) <
      grantsSince (acquisitions (.new 1 2 0) [5, 5]) start + 1 :=
  (refused_iff_rate_spent 1 2 0 [5, 5] 5 (by norm_num) (by decide)).mp (by decide +kernel)

/-! ## Waiting -/

theorem backoff_near {throttle : ReplicationThrottle} {wait : Duration} (short : throttle.tokens < 1)
    (positive : 0 < throttle.rate) (suggested : throttle.backoffDuration = some wait) :
    |(wait.nanos : ℚ) - (1 - throttle.tokens) / throttle.rate * 10 ^ 9| ≤ 1 / 2 := by
  have deficit : 0 ≤ (1 - throttle.tokens) / throttle.rate := div_nonneg (by linarith) positive.le
  rw [ReplicationThrottle.backoffDuration, if_neg (not_le.mpr short), if_neg positive.ne',
    Duration.fromSecsF64, if_neg (not_lt.mpr deficit)] at suggested
  split at suggested
  next fits =>
    cases suggested
    have nonneg : 0 ≤ roundEven ((1 - throttle.tokens) / throttle.rate * 10 ^ 9) :=
      le_roundEven (by rw [Int.cast_zero]; positivity)
    have cast : (((roundEven ((1 - throttle.tokens) / throttle.rate * 10 ^ 9)).toNat : Nat) : ℚ) =
        roundEven ((1 - throttle.tokens) / throttle.rate * 10 ^ 9) := by
      exact_mod_cast Int.toNat_of_nonneg nonneg
    rw [cast]
    exact roundEven_error _
  next => cases suggested

/-- With room for a token, a call is granted once the deficit has been refilled. -/
theorem granted_iff_refilled {throttle : ReplicationThrottle} (room : 1 ≤ throttle.burst) (positive : 0 < throttle.rate)
    {later : Nat} (notBack : throttle.lastRefill ≤ later) :
    (throttle.tryAcquire later).1 = true ↔
      (1 - throttle.tokens) / throttle.rate * 10 ^ 9 ≤ (later : ℚ) - throttle.lastRefill := by
  have room' : (1 : ℚ) ≤ throttle.burst.toNat := by exact_mod_cast UInt64.le_iff_toNat_le.mp room
  have elapsed : ((later - throttle.lastRefill : Nat) : ℚ) = (later : ℚ) - throttle.lastRefill := by
    push_cast [notBack]
    ring
  have refilled : 1 ≤ (throttle.refill later).tokens ↔
      1 ≤ throttle.tokens + ((later : ℚ) - throttle.lastRefill) / 10 ^ 9 * throttle.rate := by
    show 1 ≤ min _ _ ↔ _
    rw [le_min_iff, elapsed]
    exact and_iff_left room'
  rw [← not_iff_not, Bool.not_eq_true, tryAcquire_refused_iff, ← not_le, not_iff_not, refilled,
    div_mul_eq_mul_div (1 - throttle.tokens), div_le_iff₀ positive]
  constructor
  · intro enough
    have scaled : (1 - throttle.tokens) ≤ ((later : ℚ) - throttle.lastRefill) / 10 ^ 9 * throttle.rate := by linarith
    calc (1 - throttle.tokens) * 10 ^ 9
        ≤ ((later : ℚ) - throttle.lastRefill) / 10 ^ 9 * throttle.rate * 10 ^ 9 := by linarith
      _ = ((later : ℚ) - throttle.lastRefill) * throttle.rate := by ring
  · intro enough
    have scaled : ((later : ℚ) - throttle.lastRefill) / 10 ^ 9 * throttle.rate =
        ((later : ℚ) - throttle.lastRefill) * throttle.rate / 10 ^ 9 := by ring
    rw [scaled]
    linarith

/-- After a refusal, the next call is granted if it waits a nanosecond longer than it was told,
    and refused if it waits a nanosecond less. -/
theorem backoff_predicts_grant (throttle refused : ReplicationThrottle) (now later : Nat) (wait : Duration)
    (room : 1 ≤ throttle.burst) (positive : 0 < throttle.rate)
    (refuses : throttle.tryAcquire now = (false, refused)) (suggested : refused.backoffDuration = some wait) :
    (now + wait.nanos + 1 ≤ later → (refused.tryAcquire later).1 = true) ∧
      (now ≤ later → later + 1 ≤ now + wait.nanos → (refused.tryAcquire later).1 = false) := by
  have acquired := acquired_tryAcquire throttle now
  rw [refuses] at acquired
  have short : refused.tokens < 1 := by
    have balance := acquired.balance
    simp only [Bool.false_eq_true, if_false, add_zero] at balance
    rw [balance, ← tryAcquire_refused_iff, refuses]
  have room' : 1 ≤ refused.burst := acquired.burst_eq ▸ room
  have positive' : 0 < refused.rate := acquired.rate_eq ▸ positive
  have near := abs_le.mp (backoff_near short positive' suggested)
  constructor
  · intro waited
    rw [granted_iff_refilled room' positive' (by rw [acquired.lastRefill_eq]; omega), acquired.lastRefill_eq]
    have waited' : (now : ℚ) + wait.nanos + 1 ≤ later := by exact_mod_cast waited
    linarith
  · intro notBack early
    rw [← Bool.not_eq_true, granted_iff_refilled room' positive' (by rw [acquired.lastRefill_eq]; exact notBack),
      acquired.lastRefill_eq, not_le]
    have early' : (later : ℚ) + 1 ≤ now + wait.nanos := by exact_mod_cast early
    linarith

def emptyBucket : ReplicationThrottle := ⟨1, 3, 0, 0⟩

theorem backoff_predicts_grant_three_per_second :
    emptyBucket.tryAcquire 0 = (false, emptyBucket) ∧ emptyBucket.backoffDuration = some ⟨333333333, by decide⟩ ∧
      (emptyBucket.tryAcquire 333333334).1 = true ∧ (emptyBucket.tryAcquire 333333332).1 = false := by
  have refuses : emptyBucket.tryAcquire 0 = (false, emptyBucket) := by decide +kernel
  have suggested : emptyBucket.backoffDuration = some ⟨333333333, by decide⟩ := by decide +kernel
  have predicts (later : Nat) := backoff_predicts_grant emptyBucket emptyBucket 0 later ⟨333333333, by decide⟩ (by decide)
    (by norm_num [emptyBucket]) refuses suggested
  exact ⟨refuses, suggested, (predicts _).1 (by decide), (predicts _).2 (by decide) (by decide)⟩

end Nendi.Verified
