import Nendi.Lib.BigEndian

/-! # Computations over a byte slice and a cursor

`CursorM` is the shape of hand-written binary decoders: a byte slice that is
only read, a position that is advanced by hand, and three ways to finish — a
value, an error returned to the caller, or a panic (an index or a slice out of
range, or an overflowing position).  The position is returned in every case, so
what a failing reader leaves behind in a `&mut usize` can be talked about.

Three predicates carry the proofs about decoders, each closed under `bind` and
under the counted loop `collect`:

* `Reads` — the reader consumes exactly the given bytes and returns the value;
* `Yields` — every value the reader returns satisfies a postcondition;
* `TotalWith ahead` — with `ahead` bytes left the reader does not panic and
  leaves its cursor inside the slice; `Total` asks for nothing ahead.
-/

namespace Nendi.Lib

/-- How a computation stops early: with an error for its caller, or by panicking. -/
inductive Fault (ε : Type) where
  | err (error : ε)
  | panic
deriving DecidableEq, Repr

abbrev Exec (ε α : Type) := Except (Fault ε) α

/-- No allocation, hence no slice, is longer than `isize::MAX` bytes. -/
def isizeMax : Nat := 2 ^ 63 - 1

def usizeBound : Nat := 2 ^ 64

def CursorM (ε α : Type) : Type := List UInt8 → Nat → Exec ε α × Nat

namespace CursorM

variable {ε α β : Type}

def bind (first : CursorM ε α) (next : α → CursorM ε β) : CursorM ε β := fun data pos =>
  match first data pos with
  | (.ok value, pos) => next value data pos
  | (.error fault, pos) => (.error fault, pos)

instance : Monad (CursorM ε) where
  pure value := fun _ pos => (.ok value, pos)
  bind := bind

def fail (error : ε) : CursorM ε α := fun _ pos => (.error (.err error), pos)

def position : CursorM ε Nat := fun _ pos => (.ok pos, pos)

def size : CursorM ε Nat := fun data pos => (.ok data.length, pos)

/-- `pos + count`, as the guards compute it before they compare it with the length. -/
def endOf (count : Nat) : CursorM ε Nat := fun _ pos =>
  if pos + count < usizeBound then (.ok (pos + count), pos) else (.error .panic, pos)

/-- `data[pos]`. -/
def byte : CursorM ε UInt8 := fun data pos =>
  match data[pos]? with
  | some value => (.ok value, pos)
  | none => (.error .panic, pos)

/-- `data[pos..pos + count]`; an overflowing end panics just as one past the slice does. -/
def slice (count : Nat) : CursorM ε (List UInt8) := fun data pos =>
  if pos + count ≤ data.length then (.ok ((data.drop pos).take count), pos)
  else (.error .panic, pos)

/-- `data[start..stop]`, wherever the cursor is. -/
def range (start stop : Nat) : CursorM ε (List UInt8) := fun data pos =>
  if start ≤ stop ∧ stop ≤ data.length then (.ok ((data.drop start).take (stop - start)), pos)
  else (.error .panic, pos)

def advance (count : Nat) : CursorM ε Unit := fun _ pos => (.ok (), pos + count)

/-- Where `while pos < data.len() && keep(data[pos]) { pos += 1 }` stops. -/
def stopAt (keep : UInt8 → Bool) (data : List UInt8) (pos : Nat) : Nat :=
  if inside : pos < data.length then
    if keep data[pos] then stopAt keep data (pos + 1) else pos
  else pos
termination_by data.length - pos

def skipWhile (keep : UInt8 → Bool) : CursorM ε Unit := fun data pos => (.ok (), stopAt keep data pos)

/-- `if pos + count > data.len() { return Err(error) }`. -/
def require (count : Nat) (error : Nat → ε) : CursorM ε Unit := do
  let pos ← position
  let stop ← endOf count
  let length ← size
  if stop > length then fail (error pos) else pure ()

/-- `if pos >= data.len() { return Err(error) }`. -/
def requireByte (error : Nat → ε) : CursorM ε Unit := do
  let pos ← position
  let length ← size
  if pos ≥ length then fail (error pos) else pure ()

def take (count : Nat) : CursorM ε (List UInt8) := do
  let bytes ← slice count
  advance count
  pure bytes

def takeByte : CursorM ε UInt8 := do
  let value ← byte
  advance 1
  pure value

/-- `for i in first..first + count { result.push(body(i)?) }`. -/
def collect (body : Nat → CursorM ε α) : Nat → Nat → CursorM ε (List α)
  | _, 0 => pure []
  | first, count + 1 => do
    let value ← body first
    let rest ← collect body (first + 1) count
    pure (value :: rest)

/-! ## Running -/

@[simp] theorem pure_run (value : α) (data : List UInt8) (pos : Nat) :
    (pure value : CursorM ε α) data pos = (.ok value, pos) := rfl

theorem bind_run (first : CursorM ε α) (next : α → CursorM ε β) (data : List UInt8) (pos : Nat) :
    (first >>= next) data pos =
      match first data pos with
      | (.ok value, pos) => next value data pos
      | (.error fault, pos) => (.error fault, pos) := rfl

@[simp] theorem fail_run (error : ε) (data : List UInt8) (pos : Nat) :
    (fail error : CursorM ε α) data pos = (.error (.err error), pos) := rfl

@[simp] theorem position_run (data : List UInt8) (pos : Nat) :
    (position : CursorM ε Nat) data pos = (.ok pos, pos) := rfl

@[simp] theorem size_run (data : List UInt8) (pos : Nat) :
    (size : CursorM ε Nat) data pos = (.ok data.length, pos) := rfl

@[simp] theorem advance_run (count : Nat) (data : List UInt8) (pos : Nat) :
    (advance count : CursorM ε Unit) data pos = (.ok (), pos + count) := rfl

theorem endOf_run {count pos : Nat} {data : List UInt8} (bound : pos + count < usizeBound) :
    (endOf count : CursorM ε Nat) data pos = (.ok (pos + count), pos) := if_pos bound

theorem byte_run {data : List UInt8} {pos : Nat} {value : UInt8} (present : data[pos]? = some value) :
    (byte : CursorM ε UInt8) data pos = (.ok value, pos) := by
  simp [byte, present]

theorem slice_run {count pos : Nat} {data : List UInt8} (bound : pos + count ≤ data.length) :
    (slice count : CursorM ε (List UInt8)) data pos = (.ok ((data.drop pos).take count), pos) :=
  if_pos bound

theorem take_run (count : Nat) (data : List UInt8) (pos : Nat) :
    (take count : CursorM ε _) data pos =
      if pos + count ≤ data.length then (.ok ((data.drop pos).take count), pos + count)
      else (.error .panic, pos) := by
  rw [take, bind_run, slice]
  by_cases enough : pos + count ≤ data.length
  · rw [if_pos enough, if_pos enough]
    rfl
  · rw [if_neg enough, if_neg enough]

theorem takeByte_run (data : List UInt8) (pos : Nat) :
    (takeByte : CursorM ε _) data pos =
      match data[pos]? with
      | some value => (.ok value, pos + 1)
      | none => (.error .panic, pos) := by
  rw [takeByte, bind_run, byte]
  cases data[pos]? with
  | none => rfl
  | some value => rfl

theorem range_run {start stop : Nat} {data : List UInt8} {pos : Nat} (ordered : start ≤ stop)
    (bound : stop ≤ data.length) :
    (range start stop : CursorM ε (List UInt8)) data pos =
      (.ok ((data.drop start).take (stop - start)), pos) :=
  if_pos ⟨ordered, bound⟩

@[simp] theorem skipWhile_run (keep : UInt8 → Bool) (data : List UInt8) (pos : Nat) :
    (skipWhile keep : CursorM ε Unit) data pos = (.ok (), stopAt keep data pos) := rfl

theorem require_run {count pos : Nat} {error : Nat → ε} {data : List UInt8}
    (sized : data.length ≤ isizeMax) (inside : pos ≤ data.length) (small : count ≤ isizeMax) :
    require count error data pos =
      if pos + count > data.length then (.error (.err (error pos)), pos) else (.ok (), pos) := by
  -- in a slice of admissible length the sum of the guard does not overflow
  have bound : pos + count < usizeBound := by
    unfold isizeMax at sized small
    unfold usizeBound
    omega
  change bind (endOf count) _ data pos = _
  rw [bind, endOf_run bound]
  change (if pos + count > data.length then fail (error pos) else pure ()) data pos = _
  split <;> rfl

theorem requireByte_run (error : Nat → ε) (data : List UInt8) (pos : Nat) :
    requireByte error data pos =
      if pos ≥ data.length then (.error (.err (error pos)), pos) else (.ok (), pos) := by
  change (if pos ≥ data.length then fail (error pos) else pure ()) data pos = _
  split <;> rfl

theorem bind_ok {first : CursorM ε α} {next : α → CursorM ε β} {data : List UInt8} {pos pos' : Nat}
    {value : α} (ran : first data pos = (.ok value, pos')) :
    (first >>= next) data pos = next value data pos' := by
  rw [bind_run, ran]

instance : LawfulMonad (CursorM ε) := by
  refine LawfulMonad.mk' (CursorM ε) ?_ (fun _ _ => rfl) ?_
  · intro α reader
    funext data pos
    change (reader >>= pure) data pos = reader data pos
    rw [bind_run]
    cases reader data pos with
    | mk result middle =>
      cases result with
      | error fault => rfl
      | ok value => rfl
  · intro α β γ first next last
    funext data pos
    rw [bind_run, bind_run, bind_run]
    cases first data pos with
    | mk result middle =>
      cases result with
      | error fault => rfl
      | ok value => rfl

theorem bind_eq_ok {first : CursorM ε α} {next : α → CursorM ε β} {data : List UInt8}
    {pos end_ : Nat} {result : β} (ran : (first >>= next) data pos = (.ok result, end_)) :
    ∃ value middle, first data pos = (.ok value, middle) ∧
      next value data middle = (.ok result, end_) := by
  rw [bind_run] at ran
  cases outcome : first data pos with
  | mk result middle =>
    rw [outcome] at ran
    cases result with
    | error fault => simp at ran
    | ok value => exact ⟨value, middle, rfl, ran⟩

theorem require_eq_ok {count pos end_ : Nat} {error : Nat → ε} {data : List UInt8}
    (ran : require count error data pos = (.ok (), end_)) : end_ = pos := by
  obtain ⟨_, _, atPos, rest⟩ := bind_eq_ok ran
  cases atPos
  obtain ⟨stop, _, added, rest⟩ := bind_eq_ok rest
  simp only [endOf] at added
  split at added
  next =>
    cases added
    obtain ⟨_, _, sized, rest⟩ := bind_eq_ok rest
    cases sized
    split at rest
    · cases rest
    · cases rest
      rfl
  next => cases added

theorem requireByte_eq_ok {pos end_ : Nat} {error : Nat → ε} {data : List UInt8}
    (ran : requireByte error data pos = (.ok (), end_)) : end_ = pos := by
  rw [requireByte_run] at ran
  split at ran
  · cases ran
  · cases ran
    rfl

theorem length_window {data : List UInt8} {pos count : Nat} (enough : pos + count ≤ data.length) :
    ((data.drop pos).take count).length = count := by
  rw [List.length_take, List.length_drop]
  omega

theorem take_eq_ok {count pos end_ : Nat} {data bytes : List UInt8}
    (ran : (take count : CursorM ε _) data pos = (.ok bytes, end_)) :
    pos + count ≤ data.length ∧ bytes = (data.drop pos).take count ∧ end_ = pos + count := by
  rw [take_run] at ran
  split at ran
  next inside =>
    cases ran
    exact ⟨inside, rfl, rfl⟩
  next => cases ran

theorem takeByte_eq_ok {pos end_ : Nat} {data : List UInt8} {value : UInt8}
    (ran : (takeByte : CursorM ε _) data pos = (.ok value, end_)) :
    data[pos]? = some value ∧ end_ = pos + 1 := by
  rw [takeByte_run] at ran
  split at ran
  next present =>
    cases ran
    exact ⟨present, rfl⟩
  next => cases ran

theorem bind_run_congr {first : CursorM ε α} {next other : α → CursorM ε β} {data : List UInt8} {pos : Nat}
    (same : ∀ value middle, first data pos = (.ok value, middle) →
      next value data middle = other value data middle) :
    (first >>= next) data pos = (first >>= other) data pos := by
  rw [bind_run, bind_run]
  cases outcome : first data pos with
  | mk result middle =>
    cases result with
    | error fault => rfl
    | ok value => exact same value middle outcome

/-! ## Where a scan stops -/

theorem le_stopAt (keep : UInt8 → Bool) (data : List UInt8) (pos : Nat) : pos ≤ stopAt keep data pos := by
  fun_induction stopAt keep data pos with
  | case1 pos inside kept inductionHypothesis => omega
  | case2 pos inside stopped => exact le_refl _
  | case3 pos outside => exact le_refl _

theorem stopAt_le_length (keep : UInt8 → Bool) (data : List UInt8) (pos : Nat)
    (inside : pos ≤ data.length) : stopAt keep data pos ≤ data.length := by
  fun_induction stopAt keep data pos with
  | case1 pos before kept inductionHypothesis => exact inductionHypothesis before
  | case2 pos before stopped => exact inside
  | case3 pos outside => exact inside

theorem stopAt_append {keep : UInt8 → Bool} {last : UInt8} (stops : keep last = false)
    (before bytes after : List UInt8) (kept : ∀ value ∈ bytes, keep value = true) :
    stopAt keep (before ++ (bytes ++ last :: after)) before.length = before.length + bytes.length := by
  induction bytes generalizing before with
  | nil =>
    rw [stopAt]
    simp [stops]
  | cons value bytes inductionHypothesis =>
    have next := inductionHypothesis (before ++ [value]) fun other member =>
      kept other (List.mem_cons_of_mem _ member)
    have here : (before ++ (value :: bytes ++ last :: after))[before.length]? = some value := by simp
    obtain ⟨inside, found⟩ := List.getElem?_eq_some_iff.mp here
    rw [stopAt, dif_pos inside, found, if_pos (kept value List.mem_cons_self)]
    simp only [List.length_append, List.length_cons, List.length_nil, List.append_assoc,
      List.cons_append, List.nil_append, Nat.zero_add] at next ⊢
    omega

/-! ## Reading what was written -/

/-- Wherever `bytes` stands in a slice, `reader` started at its first byte
    consumes exactly `bytes` and returns `value`. -/
def Reads (reader : CursorM ε α) (bytes : List UInt8) (value : α) : Prop :=
  ∀ before after : List UInt8, (before ++ bytes ++ after).length ≤ isizeMax →
    reader (before ++ bytes ++ after) before.length = (.ok value, (before ++ bytes).length)

theorem Reads.pure (value : α) : Reads (Pure.pure value : CursorM ε α) [] value := by
  intro before after _
  simp

theorem Reads.bind {first : CursorM ε α} {next : α → CursorM ε β} {bytes rest : List UInt8}
    {value : α} {result : β} (reads : Reads first bytes value) (continues : Reads (next value) rest result) :
    Reads (first >>= next) (bytes ++ rest) result := by
  intro before after bound
  -- the rest is what follows for the first reader, the first part what precedes for the second
  have firstStep := reads before (rest ++ after) (by simpa using bound)
  have nextStep := continues (before ++ bytes) after (by simpa using bound)
  simp only [List.append_assoc] at firstStep nextStep ⊢
  rw [bind_ok firstStep, nextStep]

theorem Reads.map {reader : CursorM ε α} {bytes : List UInt8} {value : α} (reads : Reads reader bytes value)
    (function : α → β) : Reads (do let value ← reader; Pure.pure (function value)) bytes (function value) := by
  have mapped : Reads (reader >>= fun value => Pure.pure (function value)) (bytes ++ []) (function value) :=
    reads.bind (Reads.pure (function value))
  simpa using mapped

theorem Reads.take {count : Nat} {bytes : List UInt8} (length : bytes.length = count) :
    Reads (CursorM.take count : CursorM ε _) bytes bytes := by
  subst length
  intro before after _
  rw [CursorM.take, bind_ok (slice_run (by simp)), bind_ok (advance_run _ _ _)]
  simp

theorem Reads.takeByte (value : UInt8) : Reads (CursorM.takeByte : CursorM ε _) [value] value := by
  intro before after _
  have present : (before ++ [value] ++ after)[before.length]? = some value := by simp
  rw [CursorM.takeByte, bind_ok (byte_run present), bind_ok (advance_run _ _ _)]
  simp

theorem Reads.slice_bind {count : Nat} {bytes rest : List UInt8} {next : List UInt8 → CursorM ε β}
    {result : β} (length : bytes.length = count) (continues : Reads (next bytes) (bytes ++ rest) result) :
    Reads (CursorM.slice count >>= next) (bytes ++ rest) result := by
  -- bytes that are looked at before the cursor moves past them
  subst length
  intro before after bound
  have sliced := continues before after bound
  rw [bind_ok (slice_run (by simp))]
  simpa using sliced

theorem Reads.advance_bind {count : Nat} {bytes rest : List UInt8} {next : Unit → CursorM ε β}
    {result : β} (length : bytes.length = count) (continues : Reads (next ()) rest result) :
    Reads (CursorM.advance count >>= next) (bytes ++ rest) result := by
  subst length
  intro before after bound
  have moved := continues (before ++ bytes) after (by simpa using bound)
  rw [bind_ok (advance_run _ _ _)]
  simpa using moved

theorem Reads.require_bind {count : Nat} {error : Nat → ε} {bytes : List UInt8}
    {next : Unit → CursorM ε β} {result : β} (enough : count ≤ bytes.length)
    (continues : Reads (next ()) bytes result) : Reads (CursorM.require count error >>= next) bytes result := by
  intro before after bound
  have inside : before.length + count ≤ (before ++ bytes ++ after).length := by
    simp only [List.length_append]
    omega
  have guard : CursorM.require count error (before ++ bytes ++ after) before.length =
      (.ok (), before.length) := by
    rw [require_run bound (by omega) (by omega), if_neg (by omega)]
  rw [bind_ok guard]
  exact continues before after bound

theorem Reads.requireByte_bind {error : Nat → ε} {bytes : List UInt8} {next : Unit → CursorM ε β}
    {result : β} (nonempty : bytes ≠ []) (continues : Reads (next ()) bytes result) :
    Reads (CursorM.requireByte error >>= next) bytes result := by
  intro before after bound
  have positive := List.length_pos_iff.mpr nonempty
  have guard : CursorM.requireByte error (before ++ bytes ++ after) before.length =
      (.ok (), before.length) := by
    rw [requireByte_run, if_neg]
    simp only [List.length_append]
    omega
  rw [bind_ok guard]
  exact continues before after bound

/-- A counted loop reads one encoded item after another.  The index handed to the
    body is the item's place in the list. -/
theorem Reads.collect {ι : Type} {body : Nat → CursorM ε α} {encode : ι → List UInt8}
    (decoded : Nat → ι → α) (items : List ι) (first : Nat)
    (reads : ∀ place item, items[place]? = some item →
      Reads (body (first + place)) (encode item) (decoded (first + place) item)) :
    Reads (CursorM.collect body first items.length) (items.flatMap encode)
      (items.mapIdx fun place item => decoded (first + place) item) := by
  induction items generalizing first with
  | nil => exact Reads.pure []
  | cons item items inductionHypothesis =>
    have head := reads 0 item rfl
    have tail := inductionHypothesis (first + 1) (fun place item found => by
      have later := reads (place + 1) item (by simpa using found)
      rwa [show first + (place + 1) = first + 1 + place by omega] at later)
    have whole : Reads (CursorM.collect body first (items.length + 1)) _ _ :=
      head.bind (tail.map (decoded first item :: ·))
    simpa [List.mapIdx_cons, Nat.add_assoc, Nat.add_comm 1] using whole

theorem Reads.collect_map {ι : Type} {body : CursorM ε α} {encode : ι → List UInt8} (decoded : ι → α)
    (items : List ι) (reads : ∀ item ∈ items, Reads body (encode item) (decoded item)) :
    Reads (CursorM.collect (fun _ => body) 0 items.length) (items.flatMap encode) (items.map decoded) := by
  have loop : Reads (CursorM.collect (fun _ => body) 0 items.length) (items.flatMap encode)
      (items.mapIdx fun _ item => decoded item) :=
    Reads.collect (fun _ item => decoded item) items 0 fun _ item found =>
      reads item (List.mem_of_getElem? found)
  have unindexed : (items.mapIdx fun _ item => decoded item) = items.map decoded := by
    apply List.ext_getElem <;> simp
  rwa [unindexed] at loop

/-! ## Postconditions -/

/-- Every value `reader` returns satisfies `post`. -/
def Yields (reader : CursorM ε α) (post : α → Prop) : Prop :=
  ∀ data pos value end_, reader data pos = (.ok value, end_) → post value

theorem Yields.pure {value : α} {post : α → Prop} (holds : post value) :
    Yields (Pure.pure value : CursorM ε α) post := by
  intro data pos result end_ ran
  simp only [pure_run, Prod.mk.injEq, Except.ok.injEq] at ran
  exact ran.1 ▸ holds

theorem Yields.fail {error : ε} {post : α → Prop} : Yields (CursorM.fail error : CursorM ε α) post := by
  intro data pos result end_ ran
  simp at ran

theorem Yields.trivial (reader : CursorM ε α) : Yields reader fun _ => True := by
  intro data pos result end_ ran
  exact True.intro

theorem Yields.bind {first : CursorM ε α} {next : α → CursorM ε β} {middle : α → Prop} {post : β → Prop}
    (yields : Yields first middle) (continues : ∀ value, middle value → Yields (next value) post) :
    Yields (first >>= next) post := by
  intro data pos result end_ ran
  obtain ⟨value, pos', firstRan, nextRan⟩ := bind_eq_ok ran
  exact continues value (yields data pos value pos' firstRan) data pos' result end_ nextRan

theorem Yields.take (count : Nat) :
    Yields (CursorM.take count : CursorM ε _) fun bytes => bytes.length = count := by
  intro data pos bytes end_ ran
  obtain ⟨enough, rfl, rfl⟩ := take_eq_ok ran
  exact length_window enough

theorem Yields.collect {body : Nat → CursorM ε α} {post : α → Prop} (count first : Nat)
    (yields : ∀ place, Yields (body place) post) :
    Yields (CursorM.collect body first count) fun values =>
      values.length = count ∧ ∀ value ∈ values, post value := by
  induction count generalizing first with
  | zero => exact Yields.pure (by simp)
  | succ count inductionHypothesis =>
    refine (yields first).bind fun value holds => ?_
    refine (inductionHypothesis (first + 1)).bind fun rest restHolds => ?_
    apply Yields.pure
    obtain ⟨length, all⟩ := restHolds
    refine ⟨by simp [length], ?_⟩
    intro other member
    obtain rfl | later := List.mem_cons.mp member
    · exact holds
    · exact all other later

/-! ## Totality -/

/-- On a slice of admissible length, from a cursor with at least `ahead` bytes
    left, `reader` does not panic and leaves the cursor inside the slice. -/
def TotalWith (ahead : Nat) (reader : CursorM ε α) : Prop :=
  ∀ data pos, data.length ≤ isizeMax → pos + ahead ≤ data.length →
    (reader data pos).1 ≠ .error .panic ∧ (reader data pos).2 ≤ data.length

/-- `reader` neither panics nor leaves the slice, from every cursor inside it. -/
abbrev Total (reader : CursorM ε α) : Prop := TotalWith 0 reader

namespace TotalWith

variable {ahead count : Nat} {first : CursorM ε α} {next : α → CursorM ε β}

theorem pure (value : α) : TotalWith ahead (Pure.pure value : CursorM ε α) := by
  intro data pos _ inside
  exact ⟨by simp, by simp only [pure_run]; omega⟩

theorem fail (error : ε) : TotalWith ahead (CursorM.fail error : CursorM ε α) := by
  intro data pos _ inside
  exact ⟨by simp, by simp only [fail_run]; omega⟩

theorem bind (total : TotalWith ahead first) (continues : ∀ value, Total (next value)) :
    TotalWith ahead (first >>= next) := by
  intro data pos sized inside
  obtain ⟨noPanic, stays⟩ := total data pos sized inside
  rw [bind_run]
  cases outcome : first data pos with
  | mk result middle =>
    rw [outcome] at noPanic stays
    cases result with
    | error fault => exact ⟨by simpa using noPanic, stays⟩
    | ok value => exact continues value data middle sized stays

theorem ite {condition : Prop} [Decidable condition] {yes no : CursorM ε α}
    (whenTrue : TotalWith ahead yes) (whenFalse : TotalWith ahead no) :
    TotalWith ahead (if condition then yes else no) := by
  split
  · exact whenTrue
  · exact whenFalse

theorem bind_still (still : ∀ data pos, pos + ahead ≤ data.length →
      ∃ value, first data pos = (.ok value, pos))
    (continues : ∀ value, TotalWith ahead (next value)) : TotalWith ahead (first >>= next) := by
  intro data pos sized inside
  obtain ⟨value, ran⟩ := still data pos inside
  rw [bind_ok ran]
  exact continues value data pos sized inside

theorem slice_bind {next : List UInt8 → CursorM ε β} (continues : ∀ bytes, TotalWith count (next bytes)) :
    TotalWith count (slice count >>= next) :=
  bind_still (fun _ _ inside => ⟨_, slice_run inside⟩) continues

theorem byte_bind {next : UInt8 → CursorM ε β} (continues : ∀ value, TotalWith 1 (next value)) :
    TotalWith 1 (byte >>= next) :=
  bind_still (fun _ _ inside => ⟨_, byte_run (List.getElem?_eq_getElem inside)⟩) continues

theorem advance_bind {next : Unit → CursorM ε β} (continues : Total (next ())) :
    TotalWith count (advance count >>= next) := by
  intro data pos sized inside
  rw [bind_ok (advance_run count data pos)]
  exact continues data (pos + count) sized inside

theorem take (count : Nat) : TotalWith count (CursorM.take count : CursorM ε _) :=
  slice_bind fun bytes => advance_bind (pure bytes)

theorem takeByte : TotalWith 1 (CursorM.takeByte : CursorM ε _) :=
  byte_bind fun value => advance_bind (pure value)

theorem require_bind {error : Nat → ε} {next : Unit → CursorM ε β} (small : count ≤ isizeMax)
    (continues : TotalWith count (next ())) : Total (require count error >>= next) := by
  intro data pos sized inside
  have entered : pos ≤ data.length := inside
  rw [bind_run, require_run sized entered small]
  by_cases outside : pos + count > data.length
  · rw [if_pos outside]
    exact ⟨by simp, inside⟩
  · rw [if_neg outside]
    exact continues data pos sized (Nat.not_lt.mp outside)

theorem requireByte_bind {error : Nat → ε} {next : Unit → CursorM ε β}
    (continues : TotalWith 1 (next ())) : Total (requireByte error >>= next) := by
  intro data pos sized inside
  rw [bind_run, requireByte_run]
  by_cases outside : pos ≥ data.length
  · rw [if_pos outside]
    exact ⟨by simp, inside⟩
  · rw [if_neg outside]
    exact continues data pos sized (Nat.not_le.mp outside)

theorem collect {body : Nat → CursorM ε α} (count first : Nat) (total : ∀ place, Total (body place)) :
    Total (CursorM.collect body first count) := by
  induction count generalizing first with
  | zero => exact pure []
  | succ count inductionHypothesis =>
    exact (total first).bind fun value =>
      (inductionHypothesis (first + 1)).bind fun rest => pure (value :: rest)

end TotalWith

end CursorM

end Nendi.Lib
