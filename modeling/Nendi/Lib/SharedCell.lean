import Nendi.Lib.Machine
import Mathlib.Logic.Function.Basic

/-! # Calls on a shared cell

Threads share a cell and access it one at a time.  A call is a single access that takes effect, or
a loop that reads the cell, works out what to write, and writes it if the cell still holds what
was read.  Behind its effect a call may read the cell again before it returns.

`effects_linearize` says that the calls, in the order in which they take effect, do what they
would do one at a time: it does not matter that the cell may have changed and changed back
between a read and an exchange.  `bracketed` says that this order is one that callers can
believe in, since each effect lies between the start and the return of its call.
`lostRaces_le` says that a thread goes round again only because others get on, or because the
exchange fails for no reason. -/

namespace Nendi.Lib

inductive CellCode (σ ω : Type) where
  -- one access that takes effect, and then this many that only read
  | once (effect : σ → ω × σ) (reads : Nat)
  -- with the value it read, the loop has an answer at once, or once it has put a new value in its
  -- place
  | retry (attempt : σ → ω × Option σ)

/-- What a call does if nothing comes between its accesses. -/
def CellCode.atomically {σ ω : Type} : CellCode σ ω → σ → ω × σ
  | .once effect _, cell => effect cell
  | .retry attempt, cell => ((attempt cell).1, (attempt cell).2.getD cell)

inductive CallPhase (σ ω : Type) where
  -- without effect, with what a loop has read
  | trying (read : Option σ)
  -- behind its effect, with this many reads to come
  | done (result : ω) (reads : Nat)

/-- The cell, and of each thread the call it is in. -/
structure CellThreads (σ α ω θ : Type) where
  cell : σ
  running : θ → Option (α × CallPhase σ ω)

inductive ThreadStep (α θ : Type) where
  | start (thread : θ) (call : α)
  -- the next access of a thread. An exchange may fail without a reason
  | access (thread : θ) (spurious : Bool)
  | leave (thread : θ)

def ThreadStep.thread {α θ : Type} : ThreadStep α θ → θ
  | .start thread _ => thread
  | .access thread _ => thread
  | .leave thread => thread

inductive ThreadOutcome (α ω : Type) where
  | started (call : α)
  | pending
  -- an exchange that found another value than the one read
  | lostRace
  | tookEffect (call : α) (result : ω)
  | returned (call : α) (result : ω)

namespace CellThreads

variable {σ α ω θ : Type} [DecidableEq θ]

def idle (cell : σ) : CellThreads σ α ω θ := ⟨cell, fun _ => none⟩

def resume (threads : CellThreads σ α ω θ) (thread : θ) (state : Option (α × CallPhase σ ω)) :
    CellThreads σ α ω θ :=
  { threads with running := Function.update threads.running thread state }

@[simp] theorem resume_running (threads : CellThreads σ α ω θ) (thread : θ) (state : Option (α × CallPhase σ ω)) :
    (threads.resume thread state).running thread = state := by
  simp [resume]

theorem resume_running_of_ne (threads : CellThreads σ α ω θ) {thread other : θ} (different : other ≠ thread)
    (state : Option (α × CallPhase σ ω)) : (threads.resume thread state).running other = threads.running other := by
  simp [resume, different]

def takeEffect (threads : CellThreads σ α ω θ) (thread : θ) (call : α) (effect : ω × σ) (reads : Nat) :
    CellThreads σ α ω θ × ThreadOutcome α ω :=
  ({ threads.resume thread (some (call, .done effect.1 reads)) with cell := effect.2 }, .tookEffect call effect.1)

/-- The thread has read a value that is no longer in the cell. -/
def Stale (threads : CellThreads σ α ω θ) (thread : θ) : Prop :=
  ∃ call read, threads.running thread = some (call, .trying (some read)) ∧ read ≠ threads.cell

/-- What a step may do to the cell and to the thread that takes it. -/
inductive Moves (code : α → CellCode σ ω) (threads : CellThreads σ α ω θ) (thread : θ) :
    CellThreads σ α ω θ → ThreadOutcome α ω → Prop where
  | starts (call : α) (wasIdle : threads.running thread = none) :
      Moves code threads thread (threads.resume thread (some (call, .trying none))) (.started call)
  | takesEffect {read : Option σ} {effect : ω × σ} (call : α)
      (inCall : threads.running thread = some (call, .trying read))
      (atomic : (code call).atomically threads.cell = effect) (reads : Nat) :
      Moves code threads thread (threads.takeEffect thread call effect reads).1 (.tookEffect call effect.1)
  | reads {read : Option σ} (call : α) (inCall : threads.running thread = some (call, .trying read)) :
      Moves code threads thread (threads.resume thread (some (call, .trying (some threads.cell)))) .pending
  | fails {read : Option σ} (call : α) (inCall : threads.running thread = some (call, .trying read)) :
      Moves code threads thread (threads.resume thread (some (call, .trying none))) .pending
  | loses {read : σ} (call : α) (inCall : threads.running thread = some (call, .trying (some read)))
      (changed : read ≠ threads.cell) :
      Moves code threads thread (threads.resume thread (some (call, .trying none))) .lostRace
  | readsAgain (call : α) (result : ω) (reads : Nat)
      (inCall : threads.running thread = some (call, .done result (reads + 1))) :
      Moves code threads thread (threads.resume thread (some (call, .done result reads))) .pending
  | returns (call : α) (result : ω) (inCall : threads.running thread = some (call, .done result 0)) :
      Moves code threads thread (threads.resume thread none) (.returned call result)

theorem Moves.running_of_ne {code : α → CellCode σ ω} {threads next : CellThreads σ α ω θ}
    {outcome : ThreadOutcome α ω} {thread other : θ} (moves : Moves code threads thread next outcome)
    (different : other ≠ thread) : next.running other = threads.running other := by
  cases moves <;> exact resume_running_of_ne threads different _

variable [DecidableEq σ]

def attempt (threads : CellThreads σ α ω θ) (thread : θ) (call : α) (spurious : Bool) :
    CellCode σ ω → Option σ → CellThreads σ α ω θ × ThreadOutcome α ω
  | .once effect reads, _ => threads.takeEffect thread call (effect threads.cell) reads
  | .retry attempt, none =>
    match attempt threads.cell with
    | (result, none) => threads.takeEffect thread call (result, threads.cell) 0
    | (_, some _) => (threads.resume thread (some (call, .trying (some threads.cell))), .pending)
  | .retry attempt, some read =>
    if threads.cell ≠ read then (threads.resume thread (some (call, .trying none)), .lostRace)
    else if spurious then (threads.resume thread (some (call, .trying none)), .pending)
    else threads.takeEffect thread call ((CellCode.retry attempt).atomically read) 0

def step (code : α → CellCode σ ω) (threads : CellThreads σ α ω θ) :
    ThreadStep α θ → Option (CellThreads σ α ω θ × ThreadOutcome α ω)
  | .start thread call =>
    match threads.running thread with
    | none => some (threads.resume thread (some (call, .trying none)), .started call)
    | some _ => none
  | .access thread spurious =>
    match threads.running thread with
    | some (call, .trying read) => some (threads.attempt thread call spurious (code call) read)
    | some (call, .done result (reads + 1)) => some (threads.resume thread (some (call, .done result reads)), .pending)
    | _ => none
  | .leave thread =>
    match threads.running thread with
    | some (call, .done result 0) => some (threads.resume thread none, .returned call result)
    | _ => none

/-! ## What a step does -/

section
variable {code : α → CellCode σ ω} {threads next : CellThreads σ α ω θ} {outcome : ThreadOutcome α ω}

theorem moves_attempt {thread : θ} {call : α} {read : Option σ}
    (inCall : threads.running thread = some (call, .trying read)) (spurious : Bool) :
    Moves code threads thread (threads.attempt thread call spurious (code call) read).1
      (threads.attempt thread call spurious (code call) read).2 := by
  cases isCode : code call with
  | once effect reads => exact .takesEffect call inCall (by rw [isCode]; rfl) reads
  | retry attempt =>
    cases read with
    | none =>
      simp only [CellThreads.attempt]
      split
      next result tried =>
        refine .takesEffect call inCall ?_ 0
        simp [isCode, CellCode.atomically, tried]
      next => exact .reads call inCall
    | some read =>
      simp only [CellThreads.attempt]
      split
      next changed => exact .loses call inCall (Ne.symm changed)
      next same =>
        split
        · exact .fails call inCall
        · -- the cell may have changed in between, but what it holds is what was read
          refine .takesEffect call inCall ?_ 0
          rw [isCode, not_not.mp same]

theorem step_moves {step : ThreadStep α θ} (stepped : threads.step code step = some (next, outcome)) :
    Moves code threads step.thread next outcome := by
  cases step with
  | start thread call =>
    simp only [CellThreads.step] at stepped
    split at stepped
    · next wasIdle =>
      cases stepped
      exact .starts call wasIdle
    · cases stepped
  | access thread spurious =>
    simp only [CellThreads.step] at stepped
    split at stepped
    · next call read inCall =>
      have moves : Moves code threads thread _ _ := moves_attempt inCall spurious
      rwa [Option.some.inj stepped] at moves
    · next call result reads inCall =>
      cases stepped
      exact .readsAgain call result reads inCall
    · cases stepped
  | leave thread =>
    simp only [CellThreads.step] at stepped
    split at stepped
    · next call result inCall =>
      cases stepped
      exact .returns call result inCall
    · cases stepped

end

end CellThreads

/-! ## The order of the effects -/

section
variable {σ α ω θ : Type}

def effects (history : List (ThreadStep α θ × ThreadOutcome α ω)) : List (α × ω) :=
  history.filterMap fun
    | (_, .tookEffect call result) => some (call, result)
    | _ => none

@[simp] theorem effects_snoc (past : List (ThreadStep α θ × ThreadOutcome α ω)) (step : ThreadStep α θ)
    (outcome : ThreadOutcome α ω) :
    effects (past ++ [(step, outcome)]) =
      effects past ++ (match outcome with | .tookEffect call result => [(call, result)] | _ => []) := by
  cases outcome <;> simp [effects]

variable [DecidableEq θ] [DecidableEq σ] {code : α → CellCode σ ω} {start : σ} {final : CellThreads σ α ω θ}
  {steps : List (ThreadStep α θ)} {history : List (ThreadStep α θ × ThreadOutcome α ω)}

/-- The calls that took effect give the results and the cell when made one at a time. -/
def Linearizes (code : α → CellCode σ ω) (start : σ) (past : List (ThreadStep α θ × ThreadOutcome α ω))
    (threads : CellThreads σ α ω θ) : Prop :=
  trace (fun cell call => (code call).atomically cell) start ((effects past).map Prod.fst) =
    (threads.cell, effects past)

theorem linearizes_step {past : List (ThreadStep α θ × ThreadOutcome α ω)} {threads next : CellThreads σ α ω θ}
    {step : ThreadStep α θ} {outcome : ThreadOutcome α ω} (holds : Linearizes code start past threads)
    (stepped : threads.step code step = some (next, outcome)) :
    Linearizes code start (past ++ [(step, outcome)]) next := by
  rw [Linearizes] at holds ⊢
  rw [effects_snoc]
  cases CellThreads.step_moves stepped with
  | takesEffect call inCall atomic reads =>
    rw [List.map_append, List.map_singleton, trace_snoc, holds, atomic]
    rfl
  | _ => simpa [CellThreads.resume] using holds

/-- Concurrent calls have the results and the effect that they have one at a time, in the
    order in which they take effect. -/
theorem effects_linearize (ran : run (CellThreads.step code) (.idle start) steps = some (final, history)) :
    Linearizes code start history final := by
  refine run_invariant ?_ ?_ ran
  · rfl
  · intro past threads step next outcome holds stepped
    exact linearizes_step holds stepped

/-! ## Each effect within its call -/

def callEvents (thread : θ) (history : List (ThreadStep α θ × ThreadOutcome α ω)) : List (ThreadOutcome α ω) :=
  history.filterMap fun (step, outcome) =>
    if step.thread = thread then
      match outcome with
      | .pending => none
      | .lostRace => none
      | event => some event
    else none

/-- Calls one behind the other, each with a start, an effect, and a return of the effect's result. -/
inductive WholeCalls : List (ThreadOutcome α ω) → Prop where
  | none : WholeCalls []
  | further {past : List (ThreadOutcome α ω)} (whole : WholeCalls past) (call : α) (result : ω) :
      WholeCalls (past ++ [.started call, .tookEffect call result, .returned call result])

def openCall : Option (α × CallPhase σ ω) → List (ThreadOutcome α ω)
  | none => []
  | some (call, .trying _) => [.started call]
  | some (call, .done result _) => [.started call, .tookEffect call result]

/-- Whole calls, and the one the thread is in. -/
def Bracketed (thread : θ) (past : List (ThreadStep α θ × ThreadOutcome α ω)) (threads : CellThreads σ α ω θ) : Prop :=
  ∃ whole, WholeCalls whole ∧ callEvents thread past = whole ++ openCall (threads.running thread)

theorem callEvents_snoc (thread : θ) (past : List (ThreadStep α θ × ThreadOutcome α ω)) (step : ThreadStep α θ)
    (outcome : ThreadOutcome α ω) :
    callEvents thread (past ++ [(step, outcome)]) = callEvents thread past ++ callEvents thread [(step, outcome)] := by
  simp [callEvents]

theorem bracketed_step {past : List (ThreadStep α θ × ThreadOutcome α ω)} {threads next : CellThreads σ α ω θ}
    {step : ThreadStep α θ} {outcome : ThreadOutcome α ω} {thread : θ} (bracketed : Bracketed thread past threads)
    (stepped : threads.step code step = some (next, outcome)) : Bracketed thread (past ++ [(step, outcome)]) next := by
  obtain ⟨whole, calls, events⟩ := bracketed
  have moves := CellThreads.step_moves stepped
  rw [Bracketed, callEvents_snoc, events]
  by_cases own : step.thread = thread
  · subst own
    cases moves with
    | returns call result inCall =>
      refine ⟨_, calls.further call result, ?_⟩
      simp [inCall, openCall, callEvents]
    | starts call wasIdle => exact ⟨whole, calls, by simp [wasIdle, openCall, callEvents]⟩
    | takesEffect call inCall atomic reads =>
      exact ⟨whole, calls, by simp [inCall, openCall, callEvents, CellThreads.takeEffect]⟩
    | reads call inCall => exact ⟨whole, calls, by simp [inCall, openCall, callEvents]⟩
    | fails call inCall => exact ⟨whole, calls, by simp [inCall, openCall, callEvents]⟩
    | loses call inCall changed => exact ⟨whole, calls, by simp [inCall, openCall, callEvents]⟩
    | readsAgain call result reads inCall => exact ⟨whole, calls, by simp [inCall, openCall, callEvents]⟩
  · rw [moves.running_of_ne (Ne.symm own)]
    exact ⟨whole, calls, by simp [callEvents, own]⟩

/-- Every thread's history is made of calls whose effect lies between start and return. -/
theorem bracketed (ran : run (CellThreads.step code) (.idle start) steps = some (final, history)) (thread : θ) :
    Bracketed thread history final := by
  refine run_invariant ?_ ?_ ran
  · exact ⟨[], .none, rfl⟩
  · intro past threads step next outcome holds stepped
    exact bracketed_step holds stepped

/-! ## Lost races -/

def lostRaces (thread : θ) (history : List (ThreadStep α θ × ThreadOutcome α ω)) : Nat :=
  history.countP fun
    | (step, .lostRace) => step.thread = thread
    | _ => false

def effectsElsewhere (thread : θ) (history : List (ThreadStep α θ × ThreadOutcome α ω)) : Nat :=
  history.countP fun
    | (step, .tookEffect _ _) => step.thread ≠ thread
    | _ => false

section
variable (thread : θ) (past : List (ThreadStep α θ × ThreadOutcome α ω)) (step : ThreadStep α θ)
  (outcome : ThreadOutcome α ω)

@[simp] theorem lostRaces_snoc : lostRaces thread (past ++ [(step, outcome)]) =
    lostRaces thread past +
      (match outcome with | .lostRace => if step.thread = thread then 1 else 0 | _ => 0) := by
  cases outcome <;> simp [lostRaces, List.countP_singleton]

@[simp] theorem effectsElsewhere_snoc : effectsElsewhere thread (past ++ [(step, outcome)]) =
    effectsElsewhere thread past +
      (match outcome with | .tookEffect _ _ => if step.thread = thread then 0 else 1 | _ => 0) := by
  cases outcome <;> simp [effectsElsewhere, List.countP_singleton]

end

/-- The races lost so far, and the one a stale read is going to lose. -/
def RacesPaid (thread : θ) (past : List (ThreadStep α θ × ThreadOutcome α ω)) (threads : CellThreads σ α ω θ) : Prop :=
  lostRaces thread past ≤ effectsElsewhere thread past ∧
    (threads.Stale thread → lostRaces thread past < effectsElsewhere thread past)

theorem racesPaid_step {past : List (ThreadStep α θ × ThreadOutcome α ω)} {threads next : CellThreads σ α ω θ}
    {step : ThreadStep α θ} {outcome : ThreadOutcome α ω} {thread : θ} (paid : RacesPaid thread past threads)
    (stepped : threads.step code step = some (next, outcome)) :
    RacesPaid thread (past ++ [(step, outcome)]) next := by
  obtain ⟨lost, stale⟩ := paid
  have moves := CellThreads.step_moves stepped
  by_cases own : step.thread = thread
  · subst own
    have fresh : ¬ next.Stale step.thread := by
      cases moves <;> simp [CellThreads.Stale, CellThreads.takeEffect, CellThreads.resume]
    refine ⟨?_, fun isStale => absurd isStale fresh⟩
    cases moves with
    | loses call inCall changed =>
      have ahead := stale ⟨call, _, inCall, changed⟩
      simp
      omega
    | _ => simpa using lost
  · have running := moves.running_of_ne (Ne.symm own)
    cases moves with
    | takesEffect call inCall atomic reads =>
      -- this effect pays for the race that the thread may lose because of it
      simp [RacesPaid, own]
      omega
    | _ =>
      simp only [RacesPaid, CellThreads.Stale, running, lostRaces_snoc, effectsElsewhere_snoc, own, if_false, Nat.add_zero]
      exact ⟨lost, stale⟩

/-- For each race that a thread loses, another thread's call has taken effect. -/
theorem lostRaces_le (ran : run (CellThreads.step code) (.idle start) steps = some (final, history)) (thread : θ) :
    lostRaces thread history ≤ effectsElsewhere thread history := by
  have paid : RacesPaid thread history final := by
    refine run_invariant ?_ ?_ ran
    · simp [RacesPaid, lostRaces, effectsElsewhere, CellThreads.Stale, CellThreads.idle]
    · intro past threads step next outcome paid stepped
      exact racesPaid_step paid stepped
  exact paid.1

end

end Nendi.Lib
