import Nendi.Lib.Machine
import Nendi.Pgsql.Throttle

/-! # The throttle respects its rate

Grants are paid for with tokens.  From any moment on, the grants made and the tokens left are
together at most what the bucket holds and what the rate has added since (`Metered.paid`); a
call keeps this, whether it grants or refuses.  The rate of every window follows, whenever it
begins: before it, at most a full bucket can have been saved.
-/

namespace Nendi.Verified

open Nendi.Lib Nendi.Pgsql

def inSeconds (nanos : Nat) : ℚ := nanos / 10 ^ 9

def acquisitions (throttle : ReplicationThrottle) (times : List Nat) : List (Nat × Bool) :=
  (trace ReplicationThrottle.tryAcquire throttle times).2

theorem acquisitions_times (throttle : ReplicationThrottle) (times : List Nat) :
    (acquisitions throttle times).map Prod.fst = times := trace_actions _ _ _

theorem acquisitions_snoc (throttle : ReplicationThrottle) (times : List Nat) (now : Nat) :
    ∃ granted, acquisitions throttle (times ++ [now]) = acquisitions throttle times ++ [(now, granted)] := by
  rw [acquisitions, trace_snoc]
  exact ⟨_, rfl⟩

/-- How many calls returned true between two moments, both included. -/
def grantsWithin (history : List (Nat × Bool)) (start stop : Nat) : Nat :=
  history.countP fun call => start ≤ call.1 && call.1 ≤ stop && call.2

def grantsSince (history : List (Nat × Bool)) (start : Nat) : Nat :=
  history.countP fun call => start ≤ call.1 && call.2

/-! ## One call -/

/-- What is kept from call to call, `history` being the calls so far. -/
structure Metered (rate : ℚ) (burst : UInt64) (history : List (Nat × Bool)) (throttle : ReplicationThrottle) :
    Prop where
  rate_eq : throttle.rate = rate
  burst_eq : throttle.burst = burst
  nonneg : 0 ≤ throttle.tokens
  read : history = [] ∨ throttle.lastRefill ∈ history.map Prod.fst
  passed : ∀ call ∈ history, call.1 ≤ throttle.lastRefill
  paid : ∀ start, grantsSince history start + throttle.tokens ≤
    burst.toNat + rate * inSeconds (throttle.lastRefill - start)

theorem grantsSince_snoc (history : List (Nat × Bool)) (time : Nat) (granted : Bool) (start : Nat) :
    grantsSince (history ++ [(time, granted)]) start =
      grantsSince history start + if start ≤ time ∧ granted = true then 1 else 0 := by
  simp [grantsSince, List.countP_append, List.countP_cons]

theorem inSeconds_nonneg (nanos : Nat) : 0 ≤ inSeconds nanos := by
  unfold inSeconds
  positivity

theorem inSeconds_add (first second : Nat) : inSeconds (first + second) = inSeconds first + inSeconds second := by
  simp only [inSeconds, Nat.cast_add, add_div]

theorem grantsSince_eq_zero {history : List (Nat × Bool)} {start : Nat}
    (earlier : ∀ call ∈ history, call.1 < start) : grantsSince history start = 0 := by
  rw [grantsSince, List.countP_eq_zero]
  intro call member
  simp [Nat.not_le.mpr (earlier call member)]

theorem refill_tokens_nonneg {throttle : ReplicationThrottle} (rate : 0 ≤ throttle.rate) (tokens : 0 ≤ throttle.tokens)
    (now : Nat) : 0 ≤ (throttle.refill now).tokens := by
  apply le_min
  · positivity
  · exact Nat.cast_nonneg _

theorem refill_tokens_le_burst (throttle : ReplicationThrottle) (now : Nat) :
    (throttle.refill now).tokens ≤ throttle.burst.toNat := min_le_right _ _

theorem refill_tokens_le (throttle : ReplicationThrottle) (now : Nat) :
    (throttle.refill now).tokens ≤ throttle.tokens + throttle.rate * inSeconds (now - throttle.lastRefill) := by
  rw [mul_comm]
  exact min_le_left _ _

/-- What a call does: it refills, and a grant takes a token out that is there. -/
structure Acquired (throttle : ReplicationThrottle) (now : Nat) (granted : Bool) (next : ReplicationThrottle) :
    Prop where
  rate_eq : next.rate = throttle.rate
  burst_eq : next.burst = throttle.burst
  lastRefill_eq : next.lastRefill = now
  balance : next.tokens + (if granted then 1 else 0) = (throttle.refill now).tokens
  covered : 0 ≤ (throttle.refill now).tokens → 0 ≤ next.tokens

theorem acquired_tryAcquire (throttle : ReplicationThrottle) (now : Nat) :
    Acquired throttle now (throttle.tryAcquire now).1 (throttle.tryAcquire now).2 := by
  simp only [ReplicationThrottle.tryAcquire]
  split
  next enough => exact ⟨rfl, rfl, rfl, sub_add_cancel _ _, fun _ => sub_nonneg.mpr enough⟩
  next => exact ⟨rfl, rfl, rfl, add_zero _, id⟩

section
variable {rate : ℚ} {burst : UInt64} {history : List (Nat × Bool)} {throttle : ReplicationThrottle}

theorem Metered.lastRefill_le (metered : Metered rate burst history throttle) {now : Nat}
    (ordered : ∀ call ∈ history, call.1 ≤ now) (called : history ≠ []) : throttle.lastRefill ≤ now := by
  obtain none | read := metered.read
  · exact absurd none called
  · obtain ⟨call, member, same⟩ := List.mem_map.mp read
    exact same ▸ ordered call member

theorem Metered.paid_refill (metered : Metered rate burst history throttle) {now : Nat}
    (ordered : ∀ call ∈ history, call.1 ≤ now) (nonneg : 0 ≤ rate) (start : Nat) :
    grantsSince history start + (throttle.refill now).tokens ≤ burst.toNat + rate * inSeconds (now - start) := by
  -- refilling adds no more than the rate allows, and overflows into nothing
  have full : (throttle.refill now).tokens ≤ burst.toNat := metered.burst_eq ▸ refill_tokens_le_burst throttle now
  have added := mul_nonneg nonneg (inSeconds_nonneg (now - start))
  by_cases inside : history ≠ [] ∧ start ≤ throttle.lastRefill
  · have later := metered.lastRefill_le ordered inside.1
    have refilled := refill_tokens_le throttle now
    have paid := metered.paid start
    have split : inSeconds (now - start) =
        inSeconds (now - throttle.lastRefill) + inSeconds (throttle.lastRefill - start) := by
      rw [← inSeconds_add]
      congr 1
      omega
    rw [metered.rate_eq] at refilled
    rw [split, mul_add]
    linarith
  · -- no call was made since `start`, and what was saved before fits into the bucket
    have none : grantsSince history start = 0 := by
      apply grantsSince_eq_zero
      intro call member
      have passed := metered.passed call member
      have outside := not_and.mp inside (List.ne_nil_of_mem member)
      omega
    rw [none, Nat.cast_zero, zero_add]
    linarith

theorem metered_acquired (metered : Metered rate burst history throttle) {now : Nat} {granted : Bool}
    {next : ReplicationThrottle} (acquired : Acquired throttle now granted next)
    (ordered : ∀ call ∈ history, call.1 ≤ now) (nonneg : 0 ≤ rate) :
    Metered rate burst (history ++ [(now, granted)]) next where
  rate_eq := acquired.rate_eq.trans metered.rate_eq
  burst_eq := acquired.burst_eq.trans metered.burst_eq
  nonneg := acquired.covered (refill_tokens_nonneg (metered.rate_eq ▸ nonneg) metered.nonneg now)
  read := by
    right
    rw [acquired.lastRefill_eq, List.map_append]
    exact List.mem_append_right _ List.mem_cons_self
  passed := by
    intro call member
    rw [acquired.lastRefill_eq]
    obtain old | last := List.mem_append.mp member
    · exact ordered call old
    · rw [List.mem_singleton.mp last]
  paid := by
    intro start
    have paid := metered.paid_refill ordered nonneg start
    have balance := acquired.balance
    have counted : (grantsSince (history ++ [(now, granted)]) start : ℚ) ≤
        grantsSince history start + if granted then 1 else 0 := by
      rw [grantsSince_snoc]
      cases granted <;> simp
      split <;> simp
    rw [acquired.lastRefill_eq]
    linarith

end

/-! ## Any window -/

theorem metered_run {rate : ℚ} (nonneg : 0 ≤ rate) (burst : UInt64) (created : Nat) {times : List Nat}
    (sorted : times.Pairwise (· ≤ ·)) :
    Metered rate burst (acquisitions (.new rate burst created) times)
      (trace ReplicationThrottle.tryAcquire (.new rate burst created) times).1 := by
  induction times using List.reverseRecOn with
  | nil =>
    refine ⟨rfl, rfl, Nat.cast_nonneg _, .inl rfl, fun call member => absurd member List.not_mem_nil, ?_⟩
    intro start
    have added := mul_nonneg nonneg (inSeconds_nonneg (created - start))
    simpa [acquisitions, trace, grantsSince, ReplicationThrottle.new] using added
  | append_singleton times now inductionHypothesis =>
    obtain ⟨earlier, _, ordered⟩ := List.pairwise_append.mp sorted
    rw [acquisitions, trace_snoc]
    apply metered_acquired (inductionHypothesis earlier) (acquired_tryAcquire _ now) _ nonneg
    intro call member
    have time : call.1 ∈ times := acquisitions_times _ times ▸ List.mem_map_of_mem member
    exact ordered call.1 time now List.mem_cons_self

theorem grantsWithin_le_grantsSince (history : List (Nat × Bool)) (start stop : Nat) :
    grantsWithin history start stop ≤ grantsSince history start := by
  apply List.countP_mono_left
  intro call _ counted
  simp only [Bool.and_eq_true] at counted ⊢
  exact ⟨counted.1.1, counted.2⟩

theorem grantsWithin_snoc_of_lt {stop now : Nat} (behind : stop < now) (history : List (Nat × Bool)) (start : Nat)
    (granted : Bool) :
    grantsWithin (history ++ [(now, granted)]) start stop = grantsWithin history start stop := by
  simp [grantsWithin, Nat.not_le.mpr behind]

theorem inSeconds_mono {first second : Nat} (le : first ≤ second) : inSeconds first ≤ inSeconds second := by
  rw [← Nat.add_sub_cancel' le, inSeconds_add]
  exact le_add_of_nonneg_right (inSeconds_nonneg _)

/-- In no window does the throttle let more calls pass than its burst and its rate allow. -/
theorem throttle_respects_rate (rate : ℚ) (burst : UInt64) (created : Nat) (times : List Nat) (nonneg : 0 ≤ rate)
    (sorted : times.Pairwise (· ≤ ·)) (start stop : Nat) :
    (grantsWithin (acquisitions (.new rate burst created) times) start stop : ℚ) ≤
      burst.toNat + rate * inSeconds (stop - start) := by
  induction times using List.reverseRecOn with
  | nil =>
    have added := mul_nonneg nonneg (inSeconds_nonneg (stop - start))
    have capacity : (0 : ℚ) ≤ burst.toNat := Nat.cast_nonneg _
    simpa [acquisitions, trace, grantsWithin] using add_nonneg capacity added
  | append_singleton times now inductionHypothesis =>
    obtain ⟨earlier, _, ordered⟩ := List.pairwise_append.mp sorted
    by_cases behind : stop < now
    · obtain ⟨granted, history⟩ := acquisitions_snoc (.new rate burst created) times now
      rw [history, grantsWithin_snoc_of_lt behind]
      exact inductionHypothesis earlier
    · -- the last call is in the window, which therefore reaches to the end of the run
      have metered := metered_run nonneg burst created sorted
      have paid := metered.paid start
      have counted : (grantsWithin (acquisitions (.new rate burst created) (times ++ [now])) start stop : ℚ) ≤
          grantsSince (acquisitions (.new rate burst created) (times ++ [now])) start :=
        Nat.cast_le.mpr (grantsWithin_le_grantsSince _ _ _)
      have inside : (trace ReplicationThrottle.tryAcquire (.new rate burst created) (times ++ [now])).1.lastRefill ≤
          stop := by
        rw [trace_snoc, (acquired_tryAcquire _ now).lastRefill_eq]
        exact Nat.le_of_not_lt behind
      have added := mul_le_mul_of_nonneg_left (inSeconds_mono (Nat.sub_le_sub_right inside start)) nonneg
      have left := metered.nonneg
      linarith

-- the bound is reached: the burst at once, and the next call a second later
theorem throttle_respects_rate_tight :
    grantsWithin (acquisitions (.new 1 2 0) [0, 0, 0, 1000000000]) 0 1000000000 = 3 ∧
      (grantsWithin (acquisitions (.new 1 2 0) [0, 0, 0, 1000000000]) 0 1000000000 : ℚ) ≤
        (2 : UInt64).toNat + 1 * inSeconds (1000000000 - 0) := by
  constructor
  · decide +kernel
  · exact throttle_respects_rate 1 2 0 [0, 0, 0, 1000000000] (by norm_num) (by decide) 0 1000000000

end Nendi.Verified
