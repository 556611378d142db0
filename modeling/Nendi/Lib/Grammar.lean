import Nendi.Lib.Cursor

/-! # Byte strings with a grammar

Two notions for saying which byte strings a reader lets through.

* `SelfDelimiting encode` — an encoded item can be told apart from what follows it, so a
  byte string begins with at most one.
* `Consumes reader accepts` — whatever the reader returns, the bytes it has moved over
  stand in the relation `accepts` to the value.  It is the converse of `Reads`, and closed
  under the same operations.
-/

namespace Nendi.Lib

/-! ## Codes -/

section Codes

variable {ι : Type} {encode : ι → List UInt8}

def SelfDelimiting (encode : ι → List UInt8) : Prop :=
  ∀ ⦃first second : ι⦄ ⦃rest other : List UInt8⦄,
    encode first ++ rest = encode second ++ other → first = second ∧ rest = other

theorem SelfDelimiting.fixed {width : Nat} (length : ∀ item, (encode item).length = width)
    (injective : Function.Injective encode) : SelfDelimiting encode := by
  intro first second rest other same
  obtain ⟨sameFirst, sameRest⟩ := List.append_inj same ((length first).trans (length second).symm)
  exact ⟨injective sameFirst, sameRest⟩

theorem uint16_selfDelimiting : SelfDelimiting UInt16.toBeBytes :=
  .fixed UInt16.toBeBytes_length (Function.LeftInverse.injective UInt16.ofBeBytes_toBeBytes)

theorem uint32_selfDelimiting : SelfDelimiting UInt32.toBeBytes :=
  .fixed UInt32.toBeBytes_length (Function.LeftInverse.injective UInt32.ofBeBytes_toBeBytes)

theorem SelfDelimiting.flatMap (code : SelfDelimiting encode) {firsts seconds : List ι}
    {rest other : List UInt8} (sameLength : firsts.length = seconds.length)
    (same : firsts.flatMap encode ++ rest = seconds.flatMap encode ++ other) :
    firsts = seconds ∧ rest = other := by
  induction firsts generalizing seconds with
  | nil =>
    rw [List.length_nil] at sameLength
    rw [List.eq_nil_of_length_eq_zero sameLength.symm] at same ⊢
    exact ⟨rfl, same⟩
  | cons first firsts inductionHypothesis =>
    cases seconds with
    | nil => cases sameLength
    | cons second seconds =>
      simp only [List.flatMap_cons, List.append_assoc] at same
      obtain ⟨rfl, behind⟩ := code same
      obtain ⟨rfl, sameRest⟩ := inductionHypothesis (by simpa using sameLength) behind
      exact ⟨rfl, sameRest⟩

end Codes

namespace CursorM

variable {ε α β : Type}

/-! ## What a reader has moved over -/

def Consumes (reader : CursorM ε α) (accepts : List UInt8 → α → Prop) : Prop :=
  ∀ data pos value end_, pos ≤ data.length → reader data pos = (.ok value, end_) →
    ∃ bytes, data.drop pos = bytes ++ data.drop end_ ∧ end_ ≤ data.length ∧ accepts bytes value

namespace Consumes

variable {first reader : CursorM ε α} {next : α → CursorM ε β} {accepts : List UInt8 → α → Prop}
  {continued : List UInt8 → β → Prop}

theorem weaken {weaker : List UInt8 → α → Prop} (consumes : Consumes reader accepts)
    (implies : ∀ bytes value, accepts bytes value → weaker bytes value) : Consumes reader weaker := by
  intro data pos value end_ inside ran
  obtain ⟨bytes, split, stays, accepted⟩ := consumes data pos value end_ inside ran
  exact ⟨bytes, split, stays, implies bytes value accepted⟩

theorem pure {value : α} (accepted : accepts [] value) :
    Consumes (Pure.pure value : CursorM ε α) accepts := by
  intro data pos result end_ inside ran
  cases ran
  exact ⟨[], rfl, inside, accepted⟩

theorem fail {error : ε} : Consumes (CursorM.fail error : CursorM ε α) accepts := by
  intro data pos result end_ inside ran
  cases ran

theorem bind (consumes : Consumes first accepts)
    (continues : ∀ bytes value, accepts bytes value →
      Consumes (next value) fun rest result => continued (bytes ++ rest) result) :
    Consumes (first >>= next) continued := by
  intro data pos result end_ inside ran
  obtain ⟨value, middle, firstRan, nextRan⟩ := bind_eq_ok ran
  obtain ⟨bytes, firstSplit, between, accepted⟩ := consumes data pos value middle inside firstRan
  obtain ⟨rest, nextSplit, stays, holds⟩ :=
    continues bytes value accepted data middle result end_ between nextRan
  refine ⟨bytes ++ rest, ?_, stays, holds⟩
  rw [firstSplit, nextSplit, List.append_assoc]

theorem take (count : Nat) :
    Consumes (CursorM.take count : CursorM ε _) fun bytes value => bytes = value ∧ bytes.length = count := by
  intro data pos value end_ inside ran
  obtain ⟨enough, rfl, rfl⟩ := take_eq_ok ran
  refine ⟨(data.drop pos).take count, ?_, enough, rfl, length_window enough⟩
  rw [← List.drop_drop, List.take_append_drop]

theorem takeByte : Consumes (CursorM.takeByte : CursorM ε _) fun bytes value => bytes = [value] := by
  intro data pos value end_ inside ran
  obtain ⟨present, rfl⟩ := takeByte_eq_ok ran
  obtain ⟨within, rfl⟩ := List.getElem?_eq_some_iff.mp present
  exact ⟨[data[pos]], List.drop_eq_getElem_cons within, within, rfl⟩

theorem require_bind {count : Nat} {error : Nat → ε} {next : Unit → CursorM ε β}
    (continues : Consumes (next ()) continued) : Consumes (CursorM.require count error >>= next) continued := by
  intro data pos result end_ inside ran
  obtain ⟨_, middle, guard, nextRan⟩ := bind_eq_ok ran
  rw [require_eq_ok guard] at nextRan
  exact continues data pos result end_ inside nextRan

theorem requireByte_bind {error : Nat → ε} {next : Unit → CursorM ε β}
    (continues : Consumes (next ()) continued) : Consumes (CursorM.requireByte error >>= next) continued := by
  intro data pos result end_ inside ran
  obtain ⟨_, middle, guard, nextRan⟩ := bind_eq_ok ran
  rw [requireByte_eq_ok guard] at nextRan
  exact continues data pos result end_ inside nextRan

theorem slice_bind {count : Nat} {next : List UInt8 → CursorM ε β}
    (moves : ∀ bytes data pos result end_, bytes.length = count →
      next bytes data pos = (.ok result, end_) → end_ = pos + count ∧ continued bytes result) :
    Consumes (CursorM.slice count >>= next) continued := by
  intro data pos result end_ inside ran
  obtain ⟨bytes, middle, looked, nextRan⟩ := bind_eq_ok ran
  simp only [slice] at looked
  split at looked
  next enough =>
    cases looked
    obtain ⟨rfl, holds⟩ := moves _ data pos result end_ (length_window enough) nextRan
    refine ⟨_, ?_, enough, holds⟩
    rw [← List.drop_drop, List.take_append_drop]
  next => cases looked

theorem collect {ι : Type} {body : Nat → CursorM ε α} {encode : ι → List UInt8} {good : ι → Prop}
    (consumes : ∀ place, Consumes (body place) fun bytes _ => ∃ item, bytes = encode item ∧ good item)
    (count start : Nat) :
    Consumes (CursorM.collect body start count) fun bytes _ =>
      ∃ items : List ι, items.length = count ∧ bytes = items.flatMap encode ∧ ∀ item ∈ items, good item := by
  induction count generalizing start with
  | zero => exact pure ⟨[], rfl, rfl, by simp⟩
  | succ count inductionHypothesis =>
    refine (consumes start).bind ?_
    rintro _ value ⟨item, rfl, isGood⟩
    refine (inductionHypothesis (start + 1)).bind ?_
    rintro _ values ⟨items, rfl, rfl, areGood⟩
    refine pure ⟨item :: items, rfl, by simp, ?_⟩
    intro other member
    obtain rfl | later := List.mem_cons.mp member
    · exact isGood
    · exact areGood other later

end Consumes

theorem Reads.collect_exists {ι : Type} {body : Nat → CursorM ε α} {encode : ι → List UInt8} (items : List ι)
    (reads : ∀ item ∈ items, ∀ place, ∃ value, Reads (body place) (encode item) value) (first : Nat) :
    ∃ values, Reads (CursorM.collect body first items.length) (items.flatMap encode) values := by
  induction items generalizing first with
  | nil => exact ⟨[], Reads.pure []⟩
  | cons item items inductionHypothesis =>
    obtain ⟨value, head⟩ := reads item List.mem_cons_self first
    obtain ⟨values, tail⟩ := inductionHypothesis
      (fun other member => reads other (List.mem_cons_of_mem _ member)) (first + 1)
    exact ⟨value :: values, head.bind (tail.map (value :: ·))⟩

end CursorM

end Nendi.Lib
