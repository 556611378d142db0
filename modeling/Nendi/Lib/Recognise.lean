import Mathlib.Data.List.Forall2
import Nendi.Lib.Grammar

/-! # Readers and the languages they accept

`Recognises reader spells` says that a reader returns a value if and only if the bytes in
front of it spell that value.  `Reads` and `Consumes` are its two halves, and it is closed
under the same operations, so the language of a reader is put together from those of its
parts. -/

namespace Nendi.Lib.CursorM

variable {ε α β : Type}

structure FixedCode (width : Nat) (encode : α → List UInt8) : Prop where
  length : ∀ item, (encode item).length = width
  onto : ∀ bytes : List UInt8, bytes.length = width → ∃ item, bytes = encode item

theorem FixedCode.of_inverse {width : Nat} {encode : α → List UInt8} {decode : List UInt8 → α}
    (length : ∀ item, (encode item).length = width)
    (inverse : ∀ bytes : List UInt8, bytes.length = width → encode (decode bytes) = bytes) : FixedCode width encode where
  length := length
  onto bytes isWidth := ⟨decode bytes, (inverse bytes isWidth).symm⟩

theorem uint16_fixedCode : FixedCode 2 UInt16.toBeBytes :=
  .of_inverse UInt16.toBeBytes_length fun _ => UInt16.toBeBytes_ofBeBytes

theorem uint32_fixedCode : FixedCode 4 UInt32.toBeBytes :=
  .of_inverse UInt32.toBeBytes_length fun _ => UInt32.toBeBytes_ofBeBytes

theorem uint64_fixedCode : FixedCode 8 UInt64.toBeBytes :=
  .of_inverse UInt64.toBeBytes_length fun _ => UInt64.toBeBytes_ofBeBytes

theorem int64_fixedCode : FixedCode 8 Int64.toBeBytes :=
  .of_inverse Int64.toBeBytes_length fun _ => Int64.toBeBytes_ofBeBytes

structure Recognises (reader : CursorM ε α) (spells : List UInt8 → α → Prop) : Prop where
  consumes : Consumes reader spells
  reads : ∀ bytes value, spells bytes value → Reads reader bytes value

namespace Recognises

variable {reader first : CursorM ε α} {next : α → CursorM ε β} {spells other : List UInt8 → α → Prop}
  {continued : α → List UInt8 → β → Prop}

theorem congr (recognises : Recognises reader spells) (same : ∀ bytes value, spells bytes value ↔ other bytes value) :
    Recognises reader other where
  consumes := recognises.consumes.weaken fun bytes value => (same bytes value).mp
  reads bytes value spelled := recognises.reads bytes value ((same bytes value).mpr spelled)

theorem pure (value : α) : Recognises (Pure.pure value : CursorM ε α) fun bytes result => bytes = [] ∧ result = value where
  consumes := .pure ⟨rfl, rfl⟩
  reads bytes result spelled := by
    obtain ⟨rfl, rfl⟩ := spelled
    exact Reads.pure result

theorem take (count : Nat) :
    Recognises (CursorM.take count : CursorM ε _) fun bytes value => bytes = value ∧ bytes.length = count where
  consumes := .take count
  reads bytes value spelled := by
    obtain ⟨rfl, length⟩ := spelled
    exact Reads.take length

theorem bind (recognises : Recognises first spells) (continues : ∀ value, Recognises (next value) (continued value)) :
    Recognises (first >>= next) fun bytes result =>
      ∃ value front rest, bytes = front ++ rest ∧ spells front value ∧ continued value rest result where
  consumes := recognises.consumes.bind fun front value spelled =>
    (continues value).consumes.weaken fun rest _ followed => ⟨value, front, rest, rfl, spelled, followed⟩
  reads bytes result spelled := by
    obtain ⟨value, front, rest, rfl, before, behind⟩ := spelled
    exact (recognises.reads front value before).bind ((continues value).reads rest result behind)

theorem code {width : Nat} {encode : α → List UInt8} (fixed : FixedCode width encode) {next : List UInt8 → CursorM ε β}
    (continues : ∀ item, Recognises (next (encode item)) (continued item)) :
    Recognises (CursorM.take width >>= next) fun bytes result =>
      ∃ item rest, bytes = encode item ++ rest ∧ continued item rest result where
  consumes := (Consumes.take width).bind fun front read spelled => by
    obtain ⟨rfl, isWidth⟩ := spelled
    obtain ⟨item, rfl⟩ := fixed.onto front isWidth
    exact (continues item).consumes.weaken fun rest _ followed => ⟨item, rest, rfl, followed⟩
  reads bytes result spelled := by
    obtain ⟨item, rest, rfl, followed⟩ := spelled
    exact (Reads.take (fixed.length item)).bind ((continues item).reads rest result followed)

theorem collect {body : Nat → CursorM ε α} (recognises : ∀ place, Recognises (body place) spells) (count start : Nat) :
    Recognises (CursorM.collect body start count) fun bytes values =>
      ∃ pieces, bytes = pieces.flatten ∧ values.length = count ∧ List.Forall₂ spells pieces values := by
  induction count generalizing start with
  | zero =>
    apply (pure []).congr
    intro bytes values
    constructor
    · rintro ⟨rfl, rfl⟩
      exact ⟨[], rfl, rfl, .nil⟩
    · rintro ⟨pieces, rfl, none, spelled⟩
      rw [List.length_eq_zero_iff.mp none] at spelled ⊢
      rw [List.forall₂_nil_right_iff.mp spelled]
      exact ⟨rfl, rfl⟩
  | succ count inductionHypothesis =>
    apply ((recognises start).bind fun value =>
      (inductionHypothesis (start + 1)).bind fun values => pure (value :: values)).congr
    intro bytes values
    constructor
    · rintro ⟨value, front, _, rfl, spelled, later, _, _, rfl, ⟨pieces, rfl, length, laterSpelled⟩, rfl, rfl⟩
      exact ⟨front :: pieces, by simp, by simp [length], .cons spelled laterSpelled⟩
    · rintro ⟨pieces, rfl, length, spelled⟩
      cases spelled with
      | nil => cases length
      | @cons piece value pieces values headSpelled tailSpelled =>
        exact ⟨value, piece, pieces.flatten, rfl, headSpelled, values, pieces.flatten, [], by simp,
          ⟨pieces, rfl, by simpa using length, tailSpelled⟩, rfl, rfl⟩

end Recognises

end Nendi.Lib.CursorM
