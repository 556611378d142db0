import Mathlib.Logic.Function.Iterate
import Nendi.Lib.Cursor

/-! # Reading from a slice that may end too early

Two predicates about readers that index without looking at the length first.

* `Needs reader before` — `before` is the weakest precondition of `reader`: it turns a
  condition on the bytes that are left when the reader is done into the condition on the
  bytes it starts from under which it does not panic.  Sequencing readers composes these
  transformers and a counted loop iterates one.
* `Stable reader` — what the reader returns does not depend on the bytes behind those it
  has read, so a value read from a cut slice is the one the whole slice gives.
-/

namespace Nendi.Lib.CursorM

variable {ε α β : Type}

/-! ## What a reader needs to be there -/

/-- `reader` does not panic at `pos`, and `rest` holds of what is left behind a value. -/
def SafeAt (reader : CursorM ε α) (rest : List UInt8 → Prop) (data : List UInt8) (pos : Nat) : Prop :=
  match reader data pos with
  | (.ok _, end_) => rest (data.drop end_)
  | (.error (.err _), _) => True
  | (.error .panic, _) => False

structure Needs (reader : CursorM ε α) (before : (List UInt8 → Prop) → List UInt8 → Prop) : Prop where
  stays : ∀ data pos value end_, pos ≤ data.length → reader data pos = (.ok value, end_) →
    end_ ≤ data.length
  safeAt_iff : ∀ rest data pos, pos ≤ data.length →
    (SafeAt reader rest data pos ↔ before rest (data.drop pos))

def skipThen (count : Nat) (rest : List UInt8 → Prop) (bytes : List UInt8) : Prop :=
  count ≤ bytes.length ∧ rest (bytes.drop count)

def byteThen (rest : UInt8 → List UInt8 → Prop) : List UInt8 → Prop
  | [] => False
  | value :: bytes => rest value bytes

theorem safeAt_trivial_iff (reader : CursorM ε α) (data : List UInt8) (pos : Nat) :
    SafeAt reader (fun _ => True) data pos ↔ (reader data pos).1 ≠ .error .panic := by
  unfold SafeAt
  split
  next ran => simp [ran]
  next ran => simp [ran]
  next ran => simp [ran]

namespace Needs

variable {first reader : CursorM ε α} {next : α → CursorM ε β}
  {before behind : (List UInt8 → Prop) → List UInt8 → Prop}

theorem congr (needs : Needs reader before) (same : ∀ rest bytes, before rest bytes ↔ behind rest bytes) :
    Needs reader behind :=
  ⟨needs.stays, fun rest data pos inside => (needs.safeAt_iff rest data pos inside).trans (same rest _)⟩

theorem pure (value : α) : Needs (Pure.pure value : CursorM ε α) id := by
  constructor
  · intro data pos result end_ inside ran
    cases ran
    exact inside
  · intro rest data pos _
    rfl

theorem fail (error : ε) : Needs (CursorM.fail error : CursorM ε α) fun _ _ => True := by
  constructor
  · intro data pos result end_ inside ran
    cases ran
  · intro rest data pos _
    rfl

theorem bind (needs : Needs first before) (continues : ∀ value, Needs (next value) behind) :
    Needs (first >>= next) (before ∘ behind) := by
  constructor
  · intro data pos result end_ inside ran
    obtain ⟨value, middle, firstRan, nextRan⟩ := bind_eq_ok ran
    exact (continues value).stays _ _ _ _ (needs.stays _ _ _ _ inside firstRan) nextRan
  · intro rest data pos inside
    rw [Function.comp_apply, ← needs.safeAt_iff (behind rest) data pos inside]
    rw [SafeAt, SafeAt, bind_run]
    cases outcome : first data pos with
    | mk result middle =>
      cases result with
      | ok value =>
        exact (continues value).safeAt_iff rest data middle (needs.stays _ _ _ _ inside outcome)
      | error fault =>
        cases fault with
        | err error => rfl
        | panic => rfl

theorem map (needs : Needs reader before) (function : α → β) :
    Needs (do let value ← reader; Pure.pure (function value)) before :=
  needs.bind fun value => pure (function value)

theorem take_bind {count : Nat} {next : List UInt8 → CursorM ε β}
    (behind : List UInt8 → (List UInt8 → Prop) → List UInt8 → Prop)
    (continues : ∀ bytes, bytes.length = count → Needs (next bytes) (behind bytes)) :
    Needs (CursorM.take count >>= next)
      fun rest bytes => skipThen count (behind (bytes.take count) rest) bytes := by
  constructor
  · intro data pos result end_ inside ran
    obtain ⟨bytes, middle, taken, nextRan⟩ := bind_eq_ok ran
    obtain ⟨enough, rfl, rfl⟩ := take_eq_ok taken
    exact (continues _ (length_window enough)).stays _ _ _ _ enough nextRan
  · intro rest data pos inside
    by_cases enough : pos + count ≤ data.length
    · have there : count ≤ (data.drop pos).length := by
        rw [List.length_drop]
        omega
      have continued := (continues _ (length_window enough)).safeAt_iff rest data (pos + count) enough
      simp only [skipThen, there, true_and, List.drop_drop]
      rw [← continued, SafeAt, SafeAt, bind_run, take_run, if_pos enough]
    · have short : ¬ count ≤ (data.drop pos).length := by
        rw [List.length_drop]
        omega
      simp only [skipThen, short, false_and, SafeAt, bind_run, take_run, enough, if_false]

theorem take (count : Nat) : Needs (CursorM.take count : CursorM ε _) (skipThen count) := by
  have bound : Needs (CursorM.take count >>= Pure.pure : CursorM ε _) (skipThen count) :=
    take_bind (fun _ => id) fun bytes _ => pure bytes
  rwa [bind_pure] at bound

theorem takeByte_bind {next : UInt8 → CursorM ε β}
    {behind : UInt8 → (List UInt8 → Prop) → List UInt8 → Prop}
    (continues : ∀ value, Needs (next value) (behind value)) :
    Needs (CursorM.takeByte >>= next) fun rest => byteThen fun value => behind value rest := by
  constructor
  · intro data pos result end_ inside ran
    obtain ⟨value, middle, taken, nextRan⟩ := bind_eq_ok ran
    obtain ⟨present, rfl⟩ := takeByte_eq_ok taken
    obtain ⟨within, _⟩ := List.getElem?_eq_some_iff.mp present
    exact (continues value).stays _ _ _ _ within nextRan
  · intro rest data pos inside
    by_cases within : pos < data.length
    · have continued := (continues data[pos]).safeAt_iff rest data (pos + 1) within
      rw [List.drop_eq_getElem_cons within, byteThen, ← continued, SafeAt, SafeAt, bind_run, takeByte_run,
        List.getElem?_eq_getElem within]
    · rw [List.drop_of_length_le (Nat.not_lt.mp within)]
      simp [byteThen, SafeAt, bind_run, takeByte_run, within]

theorem ite {condition : Prop} [Decidable condition] {yes no : CursorM ε α}
    (whenTrue : Needs yes before) (whenFalse : Needs no behind) :
    Needs (if condition then yes else no)
      fun rest bytes => if condition then before rest bytes else behind rest bytes := by
  by_cases holds : condition
  · simpa only [if_pos holds] using whenTrue
  · simpa only [if_neg holds] using whenFalse

theorem atEnd {yes no : CursorM ε α} (whenTrue : Needs yes before) (whenFalse : Needs no behind) :
    Needs (do
      let pos ← position
      let length ← size
      if pos ≥ length then yes else no)
      fun rest bytes => if bytes = [] then before rest bytes else behind rest bytes := by
  have asks : ∀ data pos, (do
      let pos ← position
      let length ← size
      if pos ≥ length then yes else no : CursorM ε α) data pos =
        if data.drop pos = [] then yes data pos else no data pos := by
    intro data pos
    rw [bind_ok (position_run _ _), bind_ok (size_run _ _)]
    simp only [List.drop_eq_nil_iff, ge_iff_le]
    split <;> rfl
  constructor
  · intro data pos value end_ inside ran
    rw [asks] at ran
    split at ran
    · exact whenTrue.stays _ _ _ _ inside ran
    · exact whenFalse.stays _ _ _ _ inside ran
  · intro rest data pos inside
    rw [SafeAt, asks]
    by_cases ended : data.drop pos = []
    · rw [if_pos ended, if_pos ended]
      exact whenTrue.safeAt_iff rest data pos inside
    · rw [if_neg ended, if_neg ended]
      exact whenFalse.safeAt_iff rest data pos inside

theorem collect {body : Nat → CursorM ε α} (needs : ∀ place, Needs (body place) before)
    (count first : Nat) : Needs (CursorM.collect body first count) before^[count] := by
  induction count generalizing first with
  | zero => exact pure []
  | succ count inductionHypothesis =>
    rw [Function.iterate_succ']
    exact (needs first).bind fun value => (inductionHypothesis (first + 1)).map (value :: ·)

end Needs

/-! ## What a reader returns if the slice goes on -/

/-- A value read from `data` ends inside it and is read from every longer slice too. -/
def Stable (reader : CursorM ε α) : Prop :=
  ∀ data more pos value end_, pos ≤ data.length → reader data pos = (.ok value, end_) →
    end_ ≤ data.length ∧ reader (data ++ more) pos = (.ok value, end_)

namespace Stable

variable {first : CursorM ε α} {next : α → CursorM ε β}

theorem pure (value : α) : Stable (Pure.pure value : CursorM ε α) := by
  intro data more pos result end_ inside ran
  cases ran
  exact ⟨inside, rfl⟩

theorem fail (error : ε) : Stable (CursorM.fail error : CursorM ε α) := by
  intro data more pos result end_ _ ran
  cases ran

theorem bind (stable : Stable first) (continues : ∀ value, Stable (next value)) :
    Stable (first >>= next) := by
  intro data more pos result end_ inside ran
  obtain ⟨value, middle, firstRan, nextRan⟩ := bind_eq_ok ran
  obtain ⟨between, firstLonger⟩ := stable data more pos value middle inside firstRan
  obtain ⟨stays, nextLonger⟩ := continues value data more middle result end_ between nextRan
  exact ⟨stays, by rw [bind_ok firstLonger, nextLonger]⟩

theorem take (count : Nat) : Stable (CursorM.take count : CursorM ε _) := by
  intro data more pos bytes end_ inside ran
  obtain ⟨enough, rfl, rfl⟩ := take_eq_ok ran
  have longer : pos + count ≤ (data ++ more).length := by
    rw [List.length_append]
    omega
  refine ⟨enough, ?_⟩
  rw [take_run, if_pos longer, List.drop_append_of_le_length inside, List.take_append_of_le_length]
  rw [List.length_drop]
  omega

theorem takeByte : Stable (CursorM.takeByte : CursorM ε _) := by
  intro data more pos value end_ _ ran
  obtain ⟨present, rfl⟩ := takeByte_eq_ok ran
  obtain ⟨within, _⟩ := List.getElem?_eq_some_iff.mp present
  refine ⟨within, ?_⟩
  rw [takeByte_run, List.getElem?_append_left within, present]

theorem collect {body : Nat → CursorM ε α} (stable : ∀ place, Stable (body place)) (count first : Nat) :
    Stable (CursorM.collect body first count) := by
  induction count generalizing first with
  | zero => exact pure []
  | succ count inductionHypothesis =>
    exact (stable first).bind fun value =>
      (inductionHypothesis (first + 1)).bind fun rest => pure (value :: rest)

theorem cut {reader : CursorM ε α} {bytes : List UInt8} {value result : α} {data more before after : List UInt8}
    {end_ : Nat} (stable : Stable reader) (reads : Reads reader bytes value)
    (whole : data ++ more = before ++ bytes ++ after) (bound : (data ++ more).length ≤ isizeMax)
    (inside : before.length ≤ data.length) (ran : reader data before.length = (.ok result, end_)) :
    result = value ∧ end_ = (before ++ bytes).length ∧ (before ++ bytes).length ≤ data.length := by
  obtain ⟨stays, longer⟩ := stable data more before.length result end_ inside ran
  rw [whole] at bound longer
  rw [reads before after bound] at longer
  cases longer
  exact ⟨rfl, rfl, stays⟩

end Stable

end Nendi.Lib.CursorM
