import Mathlib.Data.List.Basic
import Mathlib.Logic.Function.Basic
import Mathlib.Data.Nat.Find

/-!
# Reassembly of a sequence

A `Reassembly` is a receiver with unbounded slots `0, 1, 2, …`. An element is stored in its slot if
that is empty, and then all leading filled slots are released. The structure carries that this has
been done: `released` is the first empty slot.

* `store_of_isSome`, `released_store_of_ne`: a filled slot keeps its element, and an element
  anywhere but in the first empty slot releases nothing;
* `released_store_front`, `delivered_store_front`: an element in the first empty slot is released
  together with the filled slots behind it.
-/

namespace Mdswp

structure Reassembly (α : Type*) where
  slots : ℕ → Option α
  released : ℕ
  filled : ∀ j < released, (slots j).isSome
  empty : slots released = none
  bounded : ∃ b, ∀ j ≥ b, slots j = none

namespace Reassembly

variable {α : Type*} {R : Reassembly α} {a : α} {j k : ℕ}

theorem exists_empty {slots : ℕ → Option α} (h : ∃ b, ∀ j ≥ b, slots j = none) :
    ∃ j, slots j = none := by
  obtain ⟨b, hb⟩ := h
  exact ⟨b, hb b le_rfl⟩

theorem bounded_update {slots : ℕ → Option α} (h : ∃ b, ∀ j ≥ b, slots j = none) (j : ℕ) (a : α) :
    ∃ b, ∀ i ≥ b, Function.update slots j (some a) i = none := by
  obtain ⟨b, hb⟩ := h
  refine ⟨max b (j + 1), fun i hi => ?_⟩
  rw [Function.update_of_ne (by omega)]
  exact hb i (by omega)

/-- The receiver with these slots. -/
def ofSlots (slots : ℕ → Option α) (h : ∃ b, ∀ j ≥ b, slots j = none) : Reassembly α where
  slots := slots
  released := Nat.find (exists_empty h)
  filled := fun _ hj => Option.isSome_iff_ne_none.2 (Nat.find_min _ hj)
  empty := Nat.find_spec (exists_empty h)
  bounded := h

/-- The receiver that has not got anything. -/
def new : Reassembly α where
  slots := fun _ => none
  released := 0
  filled := fun _ hj => absurd hj (Nat.not_lt_zero _)
  empty := rfl
  bounded := ⟨0, fun _ _ => rfl⟩

def store (R : Reassembly α) (j : ℕ) (a : α) : Reassembly α :=
  if (R.slots j).isSome then R
  else ofSlots (Function.update R.slots j (some a)) (bounded_update R.bounded j a)

/-- The elements of the released slots, in order. -/
def delivered (R : Reassembly α) : List α := (List.range R.released).filterMap R.slots

theorem length_delivered (R : Reassembly α) : R.delivered.length = R.released := by
  rw [delivered, List.length_filterMap_eq_countP, List.countP_eq_length.2, List.length_range]
  intro j hj
  exact R.filled j (List.mem_range.1 hj)

/-- The first empty slot is the number of the released ones. -/
theorem released_eq (hk : ∀ i < k, (R.slots i).isSome) (h : R.slots k = none) :
    R.released = k := by
  rcases Nat.lt_trichotomy R.released k with hlt | heq | hlt
  · have := hk _ hlt
    rw [R.empty] at this
    cases this
  · exact heq
  · have := R.filled k hlt
    rw [h] at this
    cases this

theorem store_of_isSome (h : (R.slots j).isSome) : R.store j a = R := if_pos h

theorem slots_store (h : R.slots j = none) :
    (R.store j a).slots = Function.update R.slots j (some a) := by
  rw [store, if_neg (by simp [h])]
  rfl

/-- The released slots keep their elements. -/
theorem slots_store_of_lt (hk : k < R.released) : (R.store j a).slots k = R.slots k := by
  cases h : R.slots j with
  | some b => rw [store_of_isSome (by simp [h])]
  | none =>
    have hne : k ≠ j := by
      rintro rfl
      have := R.filled k hk
      rw [h] at this
      cases this
    rw [slots_store h, Function.update_of_ne hne]

theorem isSome_update {slots : ℕ → Option α} (h : (slots k).isSome) (j : ℕ) (a : α) :
    (Function.update slots j (some a) k).isSome := by
  by_cases hk : k = j
  · simp [hk]
  · rwa [Function.update_of_ne hk]

theorem released_store_of_ne (hj : j ≠ R.released) : (R.store j a).released = R.released := by
  cases h : R.slots j with
  | some b => rw [store_of_isSome (by simp [h])]
  | none =>
    apply released_eq
    · intro i hi
      rw [slots_store h]
      exact isSome_update (R.filled i hi) j a
    · rw [slots_store h, Function.update_of_ne hj.symm]
      exact R.empty

/-- An element in the first empty slot, with `k` filled slots behind it. -/
theorem released_store_front (hk : ∀ i < k, (R.slots (R.released + 1 + i)).isSome)
    (h : R.slots (R.released + 1 + k) = none) :
    (R.store R.released a).released = R.released + (k + 1) := by
  apply released_eq
  · intro i hi
    rw [slots_store R.empty]
    rcases Nat.lt_trichotomy i R.released with hlt | rfl | hlt
    · exact isSome_update (R.filled i hlt) _ a
    · simp
    · have hsome := hk (i - (R.released + 1)) (by omega)
      rw [Nat.add_sub_cancel' (by omega)] at hsome
      exact isSome_update hsome _ a
  · rw [slots_store R.empty, Function.update_of_ne (by omega), ← h]
    congr 1
    omega

theorem delivered_store_of_ne (hj : j ≠ R.released) : (R.store j a).delivered = R.delivered := by
  rw [delivered, released_store_of_ne hj]
  refine List.filterMap_congr fun i hi => ?_
  exact slots_store_of_lt (List.mem_range.1 hi)

theorem delivered_store_front (hk : ∀ i < k, (R.slots (R.released + 1 + i)).isSome)
    (h : R.slots (R.released + 1 + k) = none) :
    (R.store R.released a).delivered = R.delivered ++ (List.range (k + 1)).filterMap
      fun i => (R.store R.released a).slots (R.released + i) := by
  rw [delivered, released_store_front hk h, List.range_add, List.filterMap_append,
    List.filterMap_map]
  congr 1
  refine List.filterMap_congr fun i hi => ?_
  exact slots_store_of_lt (List.mem_range.1 hi)

end Reassembly

end Mdswp
