import Mathlib.Order.Lattice
import Mathlib.Data.List.Basic
import Mathlib.Data.Nat.Basic

/-! # Keyed items read group by group

Items are filed under keys in the order they come.  If the keys never decrease,
reading one group after the other in key order gives the items back in their
original order.  Of each group only a front part may be there. -/

namespace Nendi.Lib

variable {κ α : Type}

theorem length_flatMap_le {keys : List κ} {first second : κ → List α}
    (shorter : ∀ key ∈ keys, (first key).length ≤ (second key).length) :
    (keys.flatMap first).length ≤ (keys.flatMap second).length := by
  induction keys with
  | nil => simp
  | cons key keys inductionHypothesis =>
    simp only [List.forall_mem_cons] at shorter
    simp only [List.flatMap_cons, List.length_append]
    exact Nat.add_le_add shorter.1 (inductionHypothesis shorter.2)

theorem flatMap_prefixed_eq {keys : List κ} {first second : κ → List α}
    (isPrefix : ∀ key ∈ keys, first key <+: second key)
    (enough : (keys.flatMap second).length ≤ (keys.flatMap first).length) :
    ∀ key ∈ keys, first key = second key := by
  induction keys with
  | nil => simp
  | cons key keys inductionHypothesis =>
    simp only [List.forall_mem_cons] at isPrefix ⊢
    simp only [List.flatMap_cons, List.length_append] at enough
    have here := isPrefix.1.length_le
    have rest := length_flatMap_le fun key member => (isPrefix.2 key member).length_le
    exact ⟨isPrefix.1.eq_of_length_le (by omega), inductionHypothesis isPrefix.2 (by omega)⟩

theorem flatMap_range'_prefixed {first second : Nat → List α} {last count : Nat} (bound : last ≤ count)
    (same : ∀ key < last, second key = first key) (isPrefix : first last <+: second last) :
    (List.range' 1 last).flatMap first <+: (List.range' 1 count).flatMap second := by
  cases last with
  | zero => simp
  | succ last =>
    obtain ⟨more, rfl⟩ := Nat.exists_eq_add_of_le bound
    have complete : (List.range' 1 last).flatMap second = (List.range' 1 last).flatMap first := by
      apply List.flatMap_congr
      intro key member
      apply same
      rw [List.mem_range'_1] at member
      omega
    have longer : List.range' 1 (last + 1 + more) =
        List.range' 1 last ++ [1 + last] ++ List.range' (1 + (last + 1)) more := by
      rw [← List.range'_1_concat, List.range'_append_1]
    rw [longer, List.range'_1_concat, List.flatMap_append, List.flatMap_append, List.flatMap_append, complete,
      List.append_assoc, List.flatMap_singleton, List.flatMap_singleton, Nat.add_comm 1 last]
    apply (List.prefix_append_right_inj _).mpr
    exact isPrefix.trans (List.prefix_append _ _)

variable [LinearOrder κ]

def group (items : List (κ × α)) (key : κ) : List α :=
  (items.filter fun item => item.1 = key).map Prod.snd

@[simp] theorem group_nil (key : κ) : group ([] : List (κ × α)) key = [] := rfl

theorem mem_group {items : List (κ × α)} {key : κ} {value : α} :
    value ∈ group items key ↔ (key, value) ∈ items := by
  simp [group]

theorem group_append (first second : List (κ × α)) (key : κ) :
    group (first ++ second) key = group first key ++ group second key := by
  simp [group]

theorem group_cons_self (item : κ × α) (items : List (κ × α)) :
    group (item :: items) item.1 = item.2 :: group items item.1 := by
  simp [group]

theorem group_cons_of_ne {item : κ × α} {key : κ} (different : item.1 ≠ key) (items : List (κ × α)) :
    group (item :: items) key = group items key := by
  simp [group, different]

theorem group_eq_nil {items : List (κ × α)} {key : κ} (absent : ∀ item ∈ items, item.1 ≠ key) :
    group items key = [] := by
  simpa [group] using absent

/-- With keys that never decrease, the groups in key order are the items in order. -/
theorem groups_in_order {items : List (κ × α)}
    (ordered : items.Pairwise fun earlier later => earlier.1 ≤ later.1) {keys : List κ}
    (sorted : keys.Pairwise (· < ·)) (covered : ∀ item ∈ items, item.1 ∈ keys) :
    keys.flatMap (group items) = items.map Prod.snd := by
  induction items with
  | nil => simp
  | cons item items inductionHypothesis =>
    obtain ⟨first, rest⟩ := List.pairwise_cons.mp ordered
    have restCovered : ∀ other ∈ items, other.1 ∈ keys := fun other member =>
      covered other (List.mem_cons_of_mem _ member)
    have restInOrder := inductionHypothesis rest restCovered
    -- before the key of the first item there are no items, behind it nothing changes
    obtain ⟨before, after, split⟩ := List.append_of_mem (covered item List.mem_cons_self)
    subst split
    obtain ⟨_, keyFirst, beforeLess⟩ := List.pairwise_append.mp sorted
    have keyLess := (List.pairwise_cons.mp keyFirst).1
    have emptyBefore : before.flatMap (group items) = [] := by
      apply List.flatMap_eq_nil_iff.mpr
      intro key member
      apply group_eq_nil
      intro other inItems
      exact ((beforeLess key member item.1 List.mem_cons_self).trans_le (first other inItems)).ne'
    have sameBefore : before.flatMap (group (item :: items)) = before.flatMap (group items) := by
      apply List.flatMap_congr
      intro key member
      exact group_cons_of_ne (beforeLess key member item.1 List.mem_cons_self).ne' items
    have sameAfter : after.flatMap (group (item :: items)) = after.flatMap (group items) := by
      apply List.flatMap_congr
      intro key member
      exact group_cons_of_ne (keyLess key member).ne items
    rw [List.flatMap_append, List.flatMap_cons, emptyBefore, List.nil_append] at restInOrder
    rw [List.flatMap_append, List.flatMap_cons, sameBefore, emptyBefore, sameAfter, group_cons_self,
      List.nil_append, List.cons_append, restInOrder, List.map_cons]

theorem groups_numbered {items : List (Nat × α)}
    (ordered : items.Pairwise fun earlier later => earlier.1 ≤ later.1) {count : Nat}
    (numbered : ∀ item ∈ items, 1 ≤ item.1 ∧ item.1 ≤ count) :
    (List.range' 1 count).flatMap (group items) = items.map Prod.snd := by
  apply groups_in_order ordered List.pairwise_lt_range'
  intro item member
  obtain ⟨positive, bound⟩ := numbered item member
  rw [List.mem_range'_1]
  omega

end Nendi.Lib
