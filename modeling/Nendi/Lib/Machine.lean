import Mathlib.Data.List.Induction

/-! # Runs of a machine with observable outputs

A machine is a partial step function: an action is either not enabled, or leads
to a new state and an output.  `run` executes a list of actions and keeps the
history of actions with their outputs; `run_invariant` is the induction every
safety property of a machine goes through, with the history in scope so that a
property may compare the state with what has happened.

A machine that always has an answer is run by `trace`, with the same rule.

`always_iff` is the same induction for a property that steps may break: if one
knows which steps keep it, one knows which histories do.  `holds_iff_since` is for a property
that steps set and reset. -/

namespace Nendi.Lib

variable {σ α ω : Type} (step : σ → α → Option (σ × ω))

def run : σ → List α → Option (σ × List (α × ω))
  | state, [] => some (state, [])
  | state, action :: actions => do
    let (next, output) ← step state action
    let (final, history) ← run next actions
    pure (final, (action, output) :: history)

variable {step}

@[simp] theorem run_nil (state : σ) : run step state [] = some (state, []) := rfl

theorem run_cons_eq_some {state final : σ} {action : α} {actions : List α} {history : List (α × ω)}
    (ran : run step state (action :: actions) = some (final, history)) :
    ∃ next output rest, step state action = some (next, output) ∧
      run step next actions = some (final, rest) ∧ history = (action, output) :: rest := by
  simp only [run, Option.bind_eq_bind, Option.bind_eq_some_iff, Prod.exists] at ran
  obtain ⟨next, output, stepped, last, rest, continued, equal⟩ := ran
  simp only [Option.pure_def, Option.some.injEq, Prod.mk.injEq] at equal
  obtain ⟨rfl, rfl⟩ := equal
  exact ⟨next, output, rest, stepped, continued, rfl⟩

theorem run_append_eq_some {state final : σ} {first second : List α} {history : List (α × ω)}
    (ran : run step state (first ++ second) = some (final, history)) :
    ∃ middle early late, run step state first = some (middle, early) ∧
      run step middle second = some (final, late) ∧ history = early ++ late := by
  induction first generalizing state history with
  | nil => exact ⟨state, [], history, rfl, ran, rfl⟩
  | cons action actions inductionHypothesis =>
    obtain ⟨next, output, rest, stepped, continued, rfl⟩ := run_cons_eq_some ran
    obtain ⟨middle, early, late, firstRan, secondRan, rfl⟩ := inductionHypothesis continued
    refine ⟨middle, (action, output) :: early, late, ?_, secondRan, rfl⟩
    simp [run, stepped, firstRan]

/-- A property of state and history that holds at the start and is kept by every
    enabled step holds after every run. -/
theorem run_invariant {Invariant : List (α × ω) → σ → Prop} {start final : σ} {actions : List α}
    {history : List (α × ω)} (initially : Invariant [] start)
    (preserved : ∀ past state action next output, Invariant past state →
      step state action = some (next, output) → Invariant (past ++ [(action, output)]) next)
    (ran : run step start actions = some (final, history)) : Invariant history final := by
  suffices general : ∀ past state history, Invariant past state →
      run step state actions = some (final, history) → Invariant (past ++ history) final by
    exact general [] start history initially ran
  clear ran history
  induction actions with
  | nil =>
    intro past state history holds ran
    cases ran
    rwa [List.append_nil]
  | cons action actions inductionHypothesis =>
    intro past state history holds ran
    obtain ⟨next, output, rest, stepped, continued, rfl⟩ := run_cons_eq_some ran
    have later := inductionHypothesis (past ++ [(action, output)]) next rest
      (preserved past state action next output holds stepped) continued
    rwa [List.append_assoc, List.singleton_append] at later

/-- The run of a machine that answers every action: the state it reaches, and the
    actions with their outputs. -/
def trace (step : σ → α → ω × σ) (start : σ) (actions : List α) : σ × List (α × ω) :=
  actions.foldl (fun reached action =>
    ((step reached.1 action).2, reached.2 ++ [(action, (step reached.1 action).1)])) (start, [])

theorem trace_snoc (step : σ → α → ω × σ) (start : σ) (actions : List α) (action : α) :
    trace step start (actions ++ [action]) =
      ((step (trace step start actions).1 action).2,
        (trace step start actions).2 ++ [(action, (step (trace step start actions).1 action).1)]) := by
  rw [trace, List.foldl_append]
  rfl

theorem trace_actions (step : σ → α → ω × σ) (start : σ) (actions : List α) :
    (trace step start actions).2.map Prod.fst = actions := by
  induction actions using List.reverseRecOn with
  | nil => rfl
  | append_singleton actions action inductionHypothesis => simp [trace_snoc, inductionHypothesis]

theorem trace_getElem? (step : σ → α → ω × σ) (start : σ) (actions : List α) (position : Nat) :
    (trace step start actions).2[position]? =
      actions[position]?.map fun action => (action, (step (trace step start (actions.take position)).1 action).1) := by
  induction actions using List.reverseRecOn with
  | nil => rfl
  | append_singleton actions action inductionHypothesis =>
    have sameLength : (trace step start actions).2.length = actions.length := by
      rw [← List.length_map Prod.fst, trace_actions]
    rw [trace_snoc]
    obtain early | last | late := Nat.lt_trichotomy position actions.length
    · rw [List.getElem?_append_left (by omega), List.getElem?_append_left early, inductionHypothesis,
        List.take_append_of_le_length (by omega)]
    · subst last
      simp [← sameLength]
    · rw [List.getElem?_eq_none (by simp; omega), List.getElem?_eq_none (by simp; omega)]
      rfl

/-- What holds at the start and is kept by every step holds after every run. -/
theorem trace_invariant (Invariant : List (α × ω) → σ → Prop) {step : σ → α → ω × σ} {start : σ}
    (initially : Invariant [] start)
    (preserved : ∀ past state action, Invariant past state →
      Invariant (past ++ [(action, (step state action).1)]) (step state action).2)
    (actions : List α) : Invariant (trace step start actions).2 (trace step start actions).1 := by
  induction actions using List.reverseRecOn with
  | nil => exact initially
  | append_singleton actions action inductionHypothesis =>
    rw [trace_snoc]
    exact preserved _ _ action inductionHypothesis

/-- A property holds at every point of a history exactly when each step, taken
    where the property holds, is one that keeps it. -/
theorem always_iff {Holds : List α → Prop} {Keeps : List α → α → Prop} (initially : Holds [])
    (kept : ∀ past action, Holds past → (Holds (past ++ [action]) ↔ Keeps past action))
    (history : List α) :
    (∀ past, past <+: history → Holds past) ↔
      ∀ past action, past ++ [action] <+: history → Keeps past action := by
  constructor
  · intro holds past action isPrefix
    have before := holds past ((List.prefix_append past [action]).trans isPrefix)
    exact (kept past action before).mp (holds (past ++ [action]) isPrefix)
  · intro keeps past
    induction past using List.reverseRecOn with
    | nil =>
      intro _
      exact initially
    | append_singleton past action inductionHypothesis =>
      intro isPrefix
      have before := inductionHypothesis ((List.prefix_append past [action]).trans isPrefix)
      exact (kept past action before).mpr (keeps past action isPrefix)

/-- What some steps set and others reset holds after a history exactly when it has been
    set and not been reset since. -/
theorem holds_iff_since {Holds : List α → Prop} {Sets : List α → α → Prop} {Resets : α → Prop}
    (initially : ¬ Holds [])
    (changes : ∀ past action, Holds (past ++ [action]) ↔ Sets past action ∨ Holds past ∧ ¬ Resets action)
    (history : List α) :
    Holds history ↔ ∃ before action after,
      history = before ++ action :: after ∧ Sets before action ∧ ∀ later ∈ after, ¬ Resets later := by
  induction history using List.reverseRecOn with
  | nil => simp [initially]
  | append_singleton past last inductionHypothesis =>
    rw [changes, inductionHypothesis]
    constructor
    · rintro (sets | ⟨⟨before, action, after, rfl, sets, kept⟩, keeps⟩)
      · exact ⟨past, last, [], rfl, sets, by simp⟩
      · refine ⟨before, action, after ++ [last], by simp, sets, ?_⟩
        exact List.forall_mem_append.mpr ⟨kept, List.forall_mem_singleton.mpr keeps⟩
    · rintro ⟨before, action, after, split, sets, kept⟩
      -- the step that sets is the last one, or there is a last one behind it
      induction after using List.reverseRecOn with
      | nil =>
        obtain ⟨rfl, same⟩ := List.append_inj' split rfl
        cases same
        exact Or.inl sets
      | append_singleton after other =>
        rw [← List.cons_append, ← List.append_assoc] at split
        obtain ⟨rfl, same⟩ := List.append_inj' split rfl
        cases same
        obtain ⟨earlier, keeps⟩ := List.forall_mem_append.mp kept
        exact Or.inr ⟨⟨before, action, after, rfl, sets, earlier⟩, keeps _ (List.mem_singleton_self _)⟩

end Nendi.Lib
