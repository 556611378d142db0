import Nendi.Lib.BigEndian

/-! # Length-framed logs

A log is a sequence of frames, each a four-byte big-endian length and a body of
that many bytes; `decode` says which bodies are well formed and what they hold.
`parseFrames` reads frames until one is incomplete or malformed and returns what
it could not read as the leftover.

The law everything else follows from is `parseFrames_append`: more bytes at the
end never change the frames already read, parsing goes on from the leftover. -/

namespace Nendi.Lib

variable {α : Type} (decode : List UInt8 → Option α)

def frame (body : List UInt8) : List UInt8 := beBytes 4 body.length ++ body

/-- The first frame of `data`, if it is complete and well formed, and the rest. -/
def firstFrame (data : List UInt8) : Option (α × List UInt8) :=
  if 4 ≤ data.length ∧ beNat (data.take 4) ≤ (data.drop 4).length then
    (decode ((data.drop 4).take (beNat (data.take 4)))).map fun value =>
      (value, (data.drop 4).drop (beNat (data.take 4)))
  else none

variable {decode}

theorem firstFrame_eq_some {data rest : List UInt8} {value : α}
    (found : firstFrame decode data = some (value, rest)) :
    4 ≤ data.length ∧ beNat (data.take 4) ≤ (data.drop 4).length ∧
      decode ((data.drop 4).take (beNat (data.take 4))) = some value ∧
      rest = (data.drop 4).drop (beNat (data.take 4)) := by
  unfold firstFrame at found
  split at found
  next complete =>
    obtain ⟨decoded, isDecoded, equal⟩ := Option.map_eq_some_iff.mp found
    cases equal
    exact ⟨complete.1, complete.2, isDecoded, rfl⟩
  next incomplete => cases found

theorem firstFrame_shorter {data rest : List UInt8} {value : α}
    (found : firstFrame decode data = some (value, rest)) : rest.length < data.length := by
  obtain ⟨header, body, _, rfl⟩ := firstFrame_eq_some found
  simp only [List.length_drop]
  omega

theorem firstFrame_append {data rest : List UInt8} {value : α}
    (found : firstFrame decode data = some (value, rest)) (more : List UInt8) :
    firstFrame decode (data ++ more) = some (value, rest ++ more) := by
  obtain ⟨header, body, decoded, rfl⟩ := firstFrame_eq_some found
  have sameHeader : (data ++ more).take 4 = data.take 4 := List.take_append_of_le_length header
  have sameRest : (data ++ more).drop 4 = data.drop 4 ++ more := List.drop_append_of_le_length header
  have complete : 4 ≤ (data ++ more).length ∧ beNat (data.take 4) ≤ (data.drop 4 ++ more).length := by
    simp only [List.length_append]
    omega
  rw [firstFrame, sameHeader, sameRest, if_pos complete, List.take_append_of_le_length body,
    List.drop_append_of_le_length body, decoded]
  rfl

theorem firstFrame_frame {body : List UInt8} (fits : body.length < 2 ^ 32) {value : α}
    (decoded : decode body = some value) (rest : List UInt8) :
    firstFrame decode (frame body ++ rest) = some (value, rest) := by
  have header : (frame body ++ rest).take 4 = beBytes 4 body.length := by simp [frame]
  have behind : (frame body ++ rest).drop 4 = body ++ rest := by simp [frame]
  have length : beNat (beBytes 4 body.length) = body.length := beNat_beBytes_of_lt (by omega)
  have complete : 4 ≤ (frame body ++ rest).length ∧ body.length ≤ (body ++ rest).length := by
    simp [frame]
  rw [firstFrame, header, behind, length, if_pos complete, List.take_left, List.drop_left, decoded]
  rfl

variable (decode)

/-- The values of the leading well-formed frames, and the bytes behind them. -/
def parseFrames (data : List UInt8) : List α × List UInt8 :=
  match _found : firstFrame decode data with
  | none => ([], data)
  | some (value, rest) =>
    let parsed := parseFrames rest
    (value :: parsed.1, parsed.2)
termination_by data.length
decreasing_by exact firstFrame_shorter _found

variable {decode}

theorem parseFrames_of_none {data : List UInt8} (found : firstFrame decode data = none) :
    parseFrames decode data = ([], data) := by
  rw [parseFrames]
  split
  next => rfl
  next value rest foundSome =>
    rw [found] at foundSome
    cases foundSome

theorem parseFrames_of_some {data rest : List UInt8} {value : α}
    (found : firstFrame decode data = some (value, rest)) :
    parseFrames decode data = (value :: (parseFrames decode rest).1, (parseFrames decode rest).2) := by
  rw [parseFrames]
  split
  next foundNone =>
    rw [found] at foundNone
    cases foundNone
  next other otherRest foundSome =>
    rw [found] at foundSome
    cases foundSome
    rfl

@[simp] theorem parseFrames_nil : parseFrames decode [] = ([], []) :=
  parseFrames_of_none rfl

/-- Bytes added at the end are parsed behind the leftover. -/
theorem parseFrames_append (data more : List UInt8) :
    parseFrames decode (data ++ more) =
      ((parseFrames decode data).1 ++ (parseFrames decode ((parseFrames decode data).2 ++ more)).1,
        (parseFrames decode ((parseFrames decode data).2 ++ more)).2) := by
  fun_induction parseFrames decode data with
  | case1 data found => rfl
  | case2 data value rest found parsed inductionHypothesis =>
    rw [parseFrames_of_some (firstFrame_append found more), inductionHypothesis]
    rfl

theorem parseFrames_prefix (data more : List UInt8) :
    (parseFrames decode data).1 <+: (parseFrames decode (data ++ more)).1 := by
  rw [parseFrames_append]
  exact List.prefix_append _ _

theorem parseFrames_snoc {data body : List UInt8} (clean : (parseFrames decode data).2 = [])
    (fits : body.length < 2 ^ 32) {value : α} (decoded : decode body = some value) :
    parseFrames decode (data ++ frame body) = ((parseFrames decode data).1 ++ [value], []) := by
  have single : parseFrames decode (frame body) = ([value], []) := by
    have found := firstFrame_frame fits decoded []
    rw [List.append_nil] at found
    rw [parseFrames_of_some found, parseFrames_nil]
  rw [parseFrames_append, clean, List.nil_append, single]

end Nendi.Lib
