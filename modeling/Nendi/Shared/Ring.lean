import Mathlib.Data.List.Basic

/-! # The ring buffer

`RingBuffer` of `shared/src/queue/ring.rs`.  The `ArrayQueue` behind it is a
linearizable bounded FIFO queue, so its state between two operations is the list
of items in it, oldest first. -/

namespace Nendi.Shared

structure RingBuffer (α : Type) where
  items : List α
  capacity : Nat
  capacity_pos : 0 < capacity
  bounded : items.length ≤ capacity

namespace RingBuffer

variable {α : Type}

def new (capacity : Nat) (positive : 0 < capacity) : RingBuffer α :=
  -- the constructor asserts that the capacity is positive
  ⟨[], capacity, positive, Nat.zero_le _⟩

def tryPush (ring : RingBuffer α) (item : α) : Except α Unit × RingBuffer α :=
  -- a full buffer hands the item back
  if room : ring.items.length < ring.capacity then
    (.ok (), { ring with
      items := ring.items ++ [item]
      bounded := by rw [List.length_append]; exact room })
  else
    (.error item, ring)

def tryPop (ring : RingBuffer α) : Option α × RingBuffer α :=
  match found : ring.items with
  | [] => (none, ring)
  | item :: rest => (some item, { ring with
      items := rest
      bounded := by
        have fits := ring.bounded
        rw [found, List.length_cons] at fits
        omega })

theorem tryPush_cases (ring : RingBuffer α) (item : α) :
    (∃ next, ring.tryPush item = (.ok (), next) ∧ next.items = ring.items ++ [item]) ∨
      ring.tryPush item = (.error item, ring) := by
  by_cases room : ring.items.length < ring.capacity
  · exact .inl ⟨_, dif_pos room, rfl⟩
  · exact .inr (dif_neg room)

theorem tryPop_cases (ring : RingBuffer α) :
    (∃ item next, ring.tryPop = (some item, next) ∧ ring.items = item :: next.items) ∨
      ring.tryPop = (none, ring) ∧ ring.items = [] := by
  obtain ⟨items, capacity, positive, bounded⟩ := ring
  cases items with
  | nil => exact .inr ⟨rfl, rfl⟩
  | cons item rest => exact .inl ⟨item, _, rfl, rfl⟩

end RingBuffer

end Nendi.Shared
