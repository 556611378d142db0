import Mathlib.Data.List.DropRight
import Nendi.Http.Webhook
import Nendi.Lib.Machine

/-! # The dead letter queue loses nothing early

At any point of a run the queue holds what was pushed by the last so many calls: all of those
behind the last drain, or as many of them as the bound allows, and one if the bound is zero
(`Queued`, kept by each call).  A drain returns that, so an entry is missing from its first
drain only if enough entries came behind it.
-/

namespace Nendi.Verified

open Nendi.Lib Nendi.Shared Nendi.Http

/-! ## Runs -/

def pushed : DlqCall → Option DlqEntry
  | .push event error attempts now => some { event, error, attempts, timestampUs := now }
  | .drainAll => none

def isPush (call : DlqCall) : Bool := (pushed call).isSome

def pushedAt (calls : List DlqCall) (position : Nat) : Option DlqEntry := calls[position]?.bind pushed

def dlqAfter (maxSize : Nat) (calls : List DlqCall) : DeadLetterQueue :=
  (trace DeadLetterQueue.step (.new maxSize) calls).1

def dlqAnswers (maxSize : Nat) (calls : List DlqCall) : List (DlqCall × List DlqEntry) :=
  (trace DeadLetterQueue.step (.new maxSize) calls).2

/-- `drain` is the first drain behind `position`. -/
structure FirstDrainAll (calls : List DlqCall) (position drain : Nat) : Prop where
  later : position < drain
  drains : calls[drain]? = some .drainAll
  first : ∀ between, position < between → between < drain → calls[between]? ≠ some .drainAll

def pushesBetween (calls : List DlqCall) (position drain : Nat) : Nat :=
  ((calls.take drain).drop (position + 1)).countP isPush

theorem isPush_iff (call : DlqCall) : isPush call = true ↔ call ≠ .drainAll := by
  cases call with
  | push event error attempts now => simp [isPush, pushed]
  | drainAll => simp [isPush, pushed]

theorem dlqAfter_snoc (maxSize : Nat) (calls : List DlqCall) (call : DlqCall) :
    dlqAfter maxSize (calls ++ [call]) = ((dlqAfter maxSize calls).step call).2 := by
  rw [dlqAfter, trace_snoc]
  rfl

/-! ## What is in the queue -/

/-- The queue holds what the last calls pushed, as many as the bound allows. -/
structure Queued (maxSize : Nat) (calls : List DlqCall) (dlq : DeadLetterQueue) : Prop where
  bound : dlq.maxSize = maxSize
  entries : (calls.rtake dlq.queue.length).map pushed = dlq.queue.map some
  count : dlq.queue.length = min (calls.rtakeWhile isPush).length (max maxSize 1)
  total : dlq.totalEntries = UInt64.ofNat (calls.countP isPush)

theorem Queued.length_le {maxSize : Nat} {calls : List DlqCall} {dlq : DeadLetterQueue}
    (queued : Queued maxSize calls dlq) : dlq.queue.length ≤ calls.length := by
  have window := (List.rtakeWhile_suffix isPush calls).length_le
  rw [queued.count]
  omega

theorem tail_rtake {α : Type} (list : List α) {count : Nat} (fits : count ≤ list.length) :
    (list.rtake count).tail = list.rtake (count - 1) := by
  cases count with
  | zero => simp
  | succ count => rw [List.rtake, List.rtake, List.tail_drop, Nat.add_sub_cancel]; congr 1; omega

theorem entries_snoc {calls : List DlqCall} {call : DlqCall} {entry : DlqEntry} {room : List DlqEntry}
    (pushes : pushed call = some entry) (entries : (calls.rtake room.length).map pushed = room.map some) :
    ((calls ++ [call]).rtake (room ++ [entry]).length).map pushed = (room ++ [entry]).map some := by
  rw [List.length_append, List.length_singleton, List.rtake_concat_succ, List.map_append, List.map_append, entries,
    List.map_singleton, List.map_singleton, pushes]

theorem queued_push {maxSize : Nat} {calls : List DlqCall} {dlq : DeadLetterQueue}
    (queued : Queued maxSize calls dlq) (event : ChangeEvent) (error : String) (attempts : UInt32) (now : UInt64) :
    Queued maxSize (calls ++ [.push event error attempts now]) (dlq.push event error attempts now) where
  bound := queued.bound
  entries := by
    apply entries_snoc rfl
    split
    next full =>
      rw [List.length_tail, ← tail_rtake calls queued.length_le, List.map_tail, List.map_tail, queued.entries]
    next => exact queued.entries
  count := by
    have length := queued.count
    rw [List.rtakeWhile_concat_pos _ _ _ rfl, List.length_append, List.length_singleton]
    simp only [DeadLetterQueue.push, queued.bound, List.length_append, List.length_singleton]
    split
    next full =>
      rw [List.length_tail]
      omega
    next => omega
  total := by
    rw [List.countP_append, UInt64.ofNat_add, ← queued.total]
    rfl

theorem queued_drainAll {maxSize : Nat} {calls : List DlqCall} {dlq : DeadLetterQueue}
    (queued : Queued maxSize calls dlq) : Queued maxSize (calls ++ [.drainAll]) dlq.drainAll.2 where
  bound := queued.bound
  entries := by simp [DeadLetterQueue.drainAll]
  count := by
    rw [List.rtakeWhile_concat_neg _ _ _ (by simp [isPush, pushed])]
    simp [DeadLetterQueue.drainAll]
  total := by
    rw [List.countP_append, ← Nat.add_zero (calls.countP isPush)]
    exact queued.total

theorem queued_run (maxSize : Nat) (calls : List DlqCall) : Queued maxSize calls (dlqAfter maxSize calls) := by
  induction calls using List.reverseRecOn with
  | nil => exact ⟨rfl, rfl, by simp [dlqAfter, trace, DeadLetterQueue.new], rfl⟩
  | append_singleton calls call inductionHypothesis =>
    rw [dlqAfter_snoc]
    cases call with
    | push event error attempts now => exact queued_push inductionHypothesis event error attempts now
    | drainAll => exact queued_drainAll inductionHypothesis

/-! ## What a drain returns -/

/-- The positions of the entries that a drain at `drain` returns: those right before it. -/
def returnedBy (maxSize : Nat) (calls : List DlqCall) (drain : Nat) : List Nat :=
  let count := (dlqAfter maxSize (calls.take drain)).queue.length
  List.range' (drain - count) count

theorem dlqAnswers_drain {maxSize : Nat} {calls : List DlqCall} {drain : Nat}
    (drains : calls[drain]? = some .drainAll) :
    (dlqAnswers maxSize calls)[drain]? = some (.drainAll, (dlqAfter maxSize (calls.take drain)).queue) := by
  rw [dlqAnswers, trace_getElem?, drains]
  rfl

theorem map_pushedAt_range' {calls : List DlqCall} {drain count : Nat} (inside : drain ≤ calls.length)
    (fits : count ≤ drain) :
    (List.range' (drain - count) count).map (pushedAt calls) = ((calls.take drain).rtake count).map pushed := by
  apply List.ext_getElem
  · simp [List.rtake]
    omega
  · intro index small _
    have within : index < count := by simpa using small
    have before : drain - count + index < calls.length := by omega
    simp [List.rtake, pushedAt, Nat.min_eq_left inside, List.getElem?_eq_getElem before]

theorem mem_returnedBy {maxSize : Nat} {calls : List DlqCall} {drain position : Nat} :
    position ∈ returnedBy maxSize calls drain ↔
      drain - (dlqAfter maxSize (calls.take drain)).queue.length ≤ position ∧ position < drain := by
  have fits := (queued_run maxSize (calls.take drain)).length_le
  rw [List.length_take] at fits
  simp only [returnedBy, List.mem_range'_1]
  omega

theorem isPush_of_recent {calls : List DlqCall} {position : Nat} {call : DlqCall}
    (recent : calls.length ≤ position + (calls.rtakeWhile isPush).length) (found : calls[position]? = some call) :
    isPush call = true := by
  obtain ⟨front, whole⟩ := List.rtakeWhile_suffix isPush calls
  have lengths : front.length + (calls.rtakeWhile isPush).length = calls.length := by
    rw [← List.length_append, whole]
  rw [← whole, List.getElem?_append_right (by omega)] at found
  exact List.mem_rtakeWhile_imp (List.mem_of_getElem? found)

theorem length_le_rtakeWhile {calls : List DlqCall} {position : Nat}
    (pushes : ∀ call ∈ calls.drop position, isPush call = true) :
    calls.length ≤ position + (calls.rtakeWhile isPush).length := by
  -- where only pushes follow, no drain separates a position from the end
  have reversed : calls.reverse = (calls.drop position).reverse ++ (calls.take position).reverse := by
    rw [← List.reverse_append, List.take_append_drop]
  rw [List.rtakeWhile, List.length_reverse, reversed, List.takeWhile_append_of_pos (by simpa using pushes),
    List.length_append, List.length_reverse, List.length_drop]
  omega

theorem FirstDrainAll.pushes {calls : List DlqCall} {position drain : Nat} {entry : DlqEntry}
    (firstDrain : FirstDrainAll calls position drain) (pushes : pushedAt calls position = some entry) :
    ∀ call ∈ (calls.take drain).drop position, isPush call = true := by
  intro call member
  obtain ⟨index, found⟩ := List.mem_iff_getElem?.mp member
  rw [List.getElem?_drop, List.getElem?_take] at found
  split at found
  next before =>
    cases index with
    | zero =>
      rw [pushedAt, show calls[position]? = some call from found, Option.bind_some] at pushes
      rw [isPush, pushes, Option.isSome_some]
    | succ index =>
      rw [isPush_iff]
      rintro rfl
      exact firstDrain.first (position + (index + 1)) (by omega) before found
  next => cases found

theorem FirstDrainAll.unique {calls : List DlqCall} {position first second : Nat}
    (firstDrain : FirstDrainAll calls position first) (secondDrain : FirstDrainAll calls position second) :
    first = second := by
  obtain less | equal | greater := Nat.lt_trichotomy first second
  · exact absurd firstDrain.drains (secondDrain.first first firstDrain.later less)
  · exact equal
  · exact absurd secondDrain.drains (firstDrain.first second secondDrain.later greater)

theorem firstDrainAll_of_mem {maxSize : Nat} {calls : List DlqCall} {position drain : Nat}
    (drains : calls[drain]? = some .drainAll) (member : position ∈ returnedBy maxSize calls drain) :
    FirstDrainAll calls position drain := by
  obtain ⟨recent, before⟩ := mem_returnedBy.mp member
  have count := (queued_run maxSize (calls.take drain)).count
  refine ⟨before, drains, ?_⟩
  intro between later earlier drainsBetween
  have push : isPush .drainAll = true := by
    apply @isPush_of_recent (calls.take drain) between
    · rw [List.length_take]
      omega
    · rw [List.getElem?_take_of_lt earlier, drainsBetween]
  cases push

/-- A pushed entry is returned by its first drain exactly if fewer entries follow than the queue holds. -/
theorem mem_returnedBy_iff {maxSize : Nat} {calls : List DlqCall} {position drain : Nat} {entry : DlqEntry}
    (firstDrain : FirstDrainAll calls position drain) (pushes : pushedAt calls position = some entry) :
    position ∈ returnedBy maxSize calls drain ↔ pushesBetween calls position drain < max maxSize 1 := by
  have inside : drain < calls.length := (List.getElem?_eq_some_iff.mp firstDrain.drains).1
  have later := firstDrain.later
  have onlyPushes := firstDrain.pushes pushes
  have window := length_le_rtakeWhile onlyPushes
  have count := (queued_run maxSize (calls.take drain)).count
  have between : pushesBetween calls position drain = drain - (position + 1) := by
    have allPushes : ∀ call ∈ (calls.take drain).drop (position + 1), isPush call = true := by
      intro call member
      rw [← List.drop_drop] at member
      exact onlyPushes call (List.mem_of_mem_drop member)
    rw [pushesBetween, List.countP_eq_length.mpr allPushes, List.length_drop, List.length_take]
    omega
  rw [mem_returnedBy, between]
  rw [List.length_take] at window
  omega

/-! ## Whole runs -/

/-- What a user of the queue relies on, where `returned drain` lists the positions of the
    pushes whose entries the drain at `drain` returns. -/
structure DeadLettersKept (maxSize : Nat) (calls : List DlqCall) (returned : Nat → List Nat) : Prop where
  answered : ∀ drain, calls[drain]? = some .drainAll →
    ∃ entries, (dlqAnswers maxSize calls)[drain]? = some (.drainAll, entries) ∧
      (returned drain).map (pushedAt calls) = entries.map some
  pushOrder : ∀ drain, (returned drain).Pairwise (· < ·)
  once : ∀ first second position, calls[first]? = some .drainAll → calls[second]? = some .drainAll →
    position ∈ returned first → position ∈ returned second → first = second
  notEarly : ∀ position drain, (pushedAt calls position).isSome → FirstDrainAll calls position drain →
    position ∉ returned drain → maxSize ≤ pushesBetween calls position drain
  total : (dlqAfter maxSize calls).totalEntries = UInt64.ofNat (calls.countP isPush)

/-- The queue loses nothing early, in any run and for any bound. -/
theorem deadLetters_kept (maxSize : Nat) (calls : List DlqCall) :
    DeadLettersKept maxSize calls (returnedBy maxSize calls) where
  answered := by
    intro drain drains
    have inside : drain < calls.length := (List.getElem?_eq_some_iff.mp drains).1
    have queued := queued_run maxSize (calls.take drain)
    have fits := queued.length_le
    rw [List.length_take] at fits
    refine ⟨_, dlqAnswers_drain drains, ?_⟩
    rw [returnedBy, map_pushedAt_range' (by omega) (by omega), queued.entries]
  pushOrder := by
    intro drain
    exact List.pairwise_lt_range'
  once := by
    intro first second position firstDrains secondDrains inFirst inSecond
    exact (firstDrainAll_of_mem firstDrains inFirst).unique (firstDrainAll_of_mem secondDrains inSecond)
  notEarly := by
    intro position drain pushes firstDrain missing
    obtain ⟨entry, pushes⟩ := Option.isSome_iff_exists.mp pushes
    rw [mem_returnedBy_iff firstDrain pushes] at missing
    omega
  total := (queued_run maxSize calls).total

end Nendi.Verified
