import Mathlib.Data.List.Perm.Basic
import Mathlib.Data.List.Flatten

/-! # Interleavings of straight-line programs

A program is the list of its atomic operations, and several programs run at once
by taking turns.  A schedule names, operation by operation, the program whose
turn it is; `interleave` is the order in which the operations then take effect,
provided the schedule runs every program to its end.

Two facts say all about an order obtained in this way: it consists of the
operations of the programs (`interleave_perm`), and it keeps the order of each
single program (`interleave_sublist`). -/

namespace Nendi.Lib

variable {α : Type}

def interleave : List (List α) → List Nat → Option (List α)
  | programs, [] => if programs.flatten = [] then some [] else none
  | programs, turn :: schedule =>
    match programs[turn]? with
    | some (operation :: rest) =>
      (interleave (programs.set turn rest) schedule).map (operation :: ·)
    | _ => none

theorem interleave_cons_eq_some {programs : List (List α)} {turn : Nat} {schedule : List Nat}
    {order : List α} (scheduled : interleave programs (turn :: schedule) = some order) :
    ∃ operation rest later, programs[turn]? = some (operation :: rest) ∧
      interleave (programs.set turn rest) schedule = some later ∧ order = operation :: later := by
  unfold interleave at scheduled
  split at scheduled
  next operation rest found =>
    obtain ⟨later, continued, equal⟩ := Option.map_eq_some_iff.mp scheduled
    exact ⟨operation, rest, later, found, continued, equal.symm⟩
  next => cases scheduled

theorem interleave_nil_eq_some {programs : List (List α)} {order : List α}
    (scheduled : interleave programs [] = some order) : programs.flatten = [] ∧ order = [] := by
  unfold interleave at scheduled
  split at scheduled
  next finished =>
    cases scheduled
    exact ⟨finished, rfl⟩
  next => cases scheduled

theorem flatten_set_perm {programs : List (List α)} {turn : Nat} {operation : α} {rest : List α}
    (found : programs[turn]? = some (operation :: rest)) :
    programs.flatten.Perm (operation :: (programs.set turn rest).flatten) := by
  obtain ⟨bound, here⟩ := List.getElem?_eq_some_iff.mp found
  have split : programs = programs.take turn ++ (operation :: rest) :: programs.drop (turn + 1) := by
    rw [← here, List.getElem_cons_drop, List.take_append_drop]
  have changed : programs.set turn rest = programs.take turn ++ rest :: programs.drop (turn + 1) := by
    rw [List.set_eq_take_append_cons_drop, if_pos bound]
  rw [changed]
  conv => lhs; rw [split]
  simp only [List.flatten_append, List.flatten_cons, List.cons_append]
  exact List.perm_middle

/-- Every operation of every program takes effect once. -/
theorem interleave_perm {programs : List (List α)} {schedule : List Nat} {order : List α}
    (scheduled : interleave programs schedule = some order) : order.Perm programs.flatten := by
  induction schedule generalizing programs order with
  | nil =>
    obtain ⟨finished, rfl⟩ := interleave_nil_eq_some scheduled
    rw [finished]
  | cons turn schedule inductionHypothesis =>
    obtain ⟨operation, rest, later, found, continued, rfl⟩ := interleave_cons_eq_some scheduled
    exact ((inductionHypothesis continued).cons operation).trans (flatten_set_perm found).symm

theorem interleave_sublist {programs : List (List α)} {schedule : List Nat} {order : List α}
    (scheduled : interleave programs schedule = some order) {place : Nat} {program : List α}
    (listed : programs[place]? = some program) : program.Sublist order := by
  induction schedule generalizing programs order program with
  | nil =>
    obtain ⟨finished, rfl⟩ := interleave_nil_eq_some scheduled
    rw [List.flatten_eq_nil_iff.mp finished program (List.mem_of_getElem? listed)]
  | cons turn schedule inductionHypothesis =>
    obtain ⟨operation, rest, later, found, continued, rfl⟩ := interleave_cons_eq_some scheduled
    by_cases ownTurn : turn = place
    · -- the program loses its head, which is the head of the order too
      subst ownTurn
      cases found.symm.trans listed
      have bound := (List.getElem?_eq_some_iff.mp found).1
      exact (inductionHypothesis continued (List.getElem?_set_self bound)).cons_cons operation
    · have unchanged : (programs.set turn rest)[place]? = some program := by
        rw [List.getElem?_set_ne ownTurn, listed]
      exact (inductionHypothesis continued unchanged).cons operation

theorem mem_past_of_sublist {first second : α} {past later : List α}
    (once : (past ++ second :: later).Nodup) (inOrder : [first, second].Sublist (past ++ second :: later)) :
    first ∈ past := by
  obtain ⟨_, onceLater, disjoint⟩ := List.nodup_append.mp once
  obtain ⟨left, right, split, inPast, inLater⟩ := List.sublist_append_iff.mp inOrder
  cases left with
  | cons head left =>
    obtain ⟨rfl, _⟩ := List.cons.inj split
    exact inPast.subset List.mem_cons_self
  | nil =>
    rw [List.nil_append] at split
    subst split
    -- both would have to come from the end, which has the second only at its head
    cases inLater with
    | cons _ both => exact absurd (both.subset (by simp)) (List.nodup_cons.mp onceLater).1
    | cons_cons _ alone => exact absurd (alone.subset (by simp)) (List.nodup_cons.mp onceLater).1

end Nendi.Lib
