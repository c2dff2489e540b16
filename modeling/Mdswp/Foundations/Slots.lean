import Mathlib.Logic.Function.Basic
import Mdswp.Foundations.Serial

/-!
# Slots named by serial numbers

A partial map on wrapping numbers, as a sliding window keeps it. `Filled m b k` says that the `k`
slots from `b` on are filled, `contents m b k` lists what they hold, and `clearBlock m b k` empties
them. `RunLength m b k` says that exactly the first `k` slots from `b` on are filled up to the
first empty one; it exists as soon as some slot is empty (`exists_runLength`).
-/

namespace Mdswp.Serial

variable {w : ℕ} {α : Type*} {m : BitVec w → Option α} {b : BitVec w} {j k : ℕ}

/-- The `k` slots from `b` on are filled. -/
def Filled (m : BitVec w → Option α) (b : BitVec w) (k : ℕ) : Prop :=
  ∀ i < k, (m (nth b i)).isSome

/-- What the `k` slots from `b` on hold. -/
def contents (m : BitVec w → Option α) (b : BitVec w) : ℕ → List α
  | 0 => []
  | k + 1 => (m b).toList ++ contents m (b + 1) k

/-- The map with the `k` slots from `b` on emptied. -/
def clearBlock (m : BitVec w → Option α) (b : BitVec w) (k : ℕ) : BitVec w → Option α :=
  fun n => if (n - b).toNat < k then none else m n

/-- The first empty slot from `b` on is the `k`-th. -/
structure RunLength (m : BitVec w → Option α) (b : BitVec w) (k : ℕ) : Prop where
  filled : Filled m b k
  absent : m (nth b k) = none

instance : Decidable (Filled m b k) := inferInstanceAs (Decidable (∀ i < k, _))

instance [DecidableEq α] : Decidable (RunLength m b k) :=
  decidable_of_iff (Filled m b k ∧ m (nth b k) = none) ⟨fun h => ⟨h.1, h.2⟩, fun h => ⟨h.1, h.2⟩⟩

theorem filled_zero (m : BitVec w → Option α) (b : BitVec w) : Filled m b 0 :=
  fun _ h => absurd h (Nat.not_lt_zero _)

theorem Filled.mono (h : Filled m b k) (hj : j ≤ k) : Filled m b j :=
  fun i hi => h i (hi.trans_le hj)

theorem filled_succ : Filled m b (k + 1) ↔ (m b).isSome ∧ Filled m (b + 1) k := by
  constructor
  · intro h
    refine ⟨by simpa using h 0 (Nat.succ_pos k), fun i hi => ?_⟩
    rw [nth_add_one]
    exact h (i + 1) (by omega)
  · rintro ⟨h0, h⟩ i hi
    cases i with
    | zero => simpa using h0
    | succ i =>
      rw [← nth_add_one]
      exact h i (by omega)

theorem filled_add : Filled m b (j + k) ↔ Filled m b j ∧ Filled m (nth b j) k := by
  constructor
  · intro h
    refine ⟨h.mono (Nat.le_add_right j k), fun i hi => ?_⟩
    rw [nth_nth]
    exact h (j + i) (by omega)
  · rintro ⟨hj, hk⟩ i hi
    rcases Nat.lt_or_ge i j with hlt | hge
    · exact hj i hlt
    · have := hk (i - j) (by omega)
      rwa [nth_nth, Nat.add_sub_cancel' hge] at this

/-- The contents agree with any list that agrees with the slots. -/
theorem contents_eq_of_forall {l : List α} (h : ∀ i < k, m (nth b i) = l[i]?) (hk : l.length = k) :
    contents m b k = l := by
  induction k generalizing b l with
  | zero => rw [contents, List.length_eq_zero_iff.1 hk]
  | succ k ih =>
    obtain ⟨a, l, rfl⟩ := List.exists_cons_of_length_eq_add_one hk
    have h0 : m b = some a := by simpa using h 0 (Nat.succ_pos k)
    have htail : contents m (b + 1) k = l := by
      refine ih (fun i hi => ?_) (by simpa using hk)
      rw [nth_add_one]
      simpa using h (i + 1) (by omega)
    rw [contents, h0, htail, Option.toList_some, List.singleton_append]

theorem length_contents (h : Filled m b k) : (contents m b k).length = k := by
  induction k generalizing b with
  | zero => rfl
  | succ k ih =>
    obtain ⟨h0, hk⟩ := filled_succ.1 h
    obtain ⟨a, ha⟩ := Option.isSome_iff_exists.1 h0
    rw [contents, ha, Option.toList_some, List.singleton_append, List.length_cons, ih hk]

theorem contents_eq_filterMap (m : BitVec w → Option α) (b : BitVec w) (k : ℕ) :
    contents m b k = (List.range k).filterMap fun i => m (nth b i) := by
  induction k generalizing b with
  | zero => rfl
  | succ k ih =>
    have htail : (fun i => m (nth (b + 1) i)) = (fun i => m (nth b i)) ∘ Nat.succ := by
      funext i
      rw [nth_add_one]
      rfl
    rw [contents, ih, htail, ← List.filterMap_map, List.range_succ_eq_map, List.filterMap_cons,
      nth_zero]
    cases m b <;> rfl

theorem contents_congr {m' : BitVec w → Option α} (h : ∀ i < k, m (nth b i) = m' (nth b i)) :
    contents m b k = contents m' b k := by
  rw [contents_eq_filterMap, contents_eq_filterMap]
  exact List.filterMap_congr fun i hi => h i (List.mem_range.1 hi)

theorem runLength_congr {m' : BitVec w → Option α} (h : ∀ i ≤ k, m (nth b i) = m' (nth b i)) :
    RunLength m b k ↔ RunLength m' b k := by
  have hf : Filled m b k ↔ Filled m' b k := forall₂_congr fun i hi => by rw [h i hi.le]
  exact ⟨fun hm => ⟨hf.1 hm.filled, h k le_rfl ▸ hm.absent⟩,
    fun hm => ⟨hf.2 hm.filled, (h k le_rfl).symm ▸ hm.absent⟩⟩

@[simp] theorem clearBlock_zero (m : BitVec w → Option α) (b : BitVec w) :
    clearBlock m b 0 = m := rfl

theorem clearBlock_of_lt {n : BitVec w} (h : (n - b).toNat < k) : clearBlock m b k n = none :=
  if_pos h

theorem clearBlock_of_le {n : BitVec w} (h : k ≤ (n - b).toNat) : clearBlock m b k n = m n :=
  if_neg (Nat.not_lt.2 h)

theorem isSome_clearBlock {n : BitVec w} :
    (clearBlock m b k n).isSome ↔ k ≤ (n - b).toNat ∧ (m n).isSome := by
  rcases Nat.lt_or_ge (n - b).toNat k with h | h
  · rw [clearBlock_of_lt h, Option.isSome_none]
    exact ⟨nofun, fun hk => absurd h (Nat.not_lt.2 hk.1)⟩
  · rw [clearBlock_of_le h, and_iff_right h]

/-- The slots after an emptied block are as before. -/
theorem filled_clearBlock (h : j + k ≤ 2 ^ w) :
    Filled (clearBlock m b j) (nth b j) k ↔ Filled m (nth b j) k :=
  forall₂_congr fun i hi => by
    rw [clearBlock_of_le]
    rw [nth_nth, toNat_nth_sub, Nat.mod_eq_of_lt (by omega)]
    exact Nat.le_add_right j i

theorem Filled.update_some (h : Filled m b k) (n : BitVec w) (a : α) :
    Filled (Function.update m n (some a)) b k := by
  intro i hi
  by_cases hn : nth b i = n
  · rw [hn, Function.update_self, Option.isSome_some]
  · rw [Function.update_of_ne hn]
    exact h i hi

/-- Emptying a block slot by slot. -/
theorem clearBlock_update (hk : k + 1 < 2 ^ w) :
    clearBlock (Function.update m b none) (b + 1) k = clearBlock m b (k + 1) := by
  funext n
  have h1 : n - (b + 1) = n - b - 1 := sub_add_eq_sub_sub ..
  have hone : (1 : BitVec w).toNat = 1 := toNat_one_of_lt (by omega)
  by_cases hn : n = b
  · subst hn
    have hr : clearBlock m n (k + 1) n = none := clearBlock_of_lt (by simp)
    rw [hr, clearBlock, Function.update_self, ite_self]
  · have hpos : (n - b).toNat ≠ 0 := fun h0 => hn (by
      rw [← sub_eq_zero]
      exact BitVec.eq_of_toNat_eq h0)
    have hsub : (n - b - 1).toNat = (n - b).toNat - 1 := by
      have := (n - b).isLt
      rw [BitVec.toNat_sub, hone]
      rw [show 2 ^ w - 1 + (n - b).toNat = (n - b).toNat - 1 + 2 ^ w by omega,
        Nat.add_mod_right, Nat.mod_eq_of_lt (by omega)]
    simp only [clearBlock, h1, hsub, Function.update_of_ne hn]
    congr 1
    exact propext (by omega)

theorem runLength_succ : RunLength m b (k + 1) ↔ (m b).isSome ∧ RunLength m (b + 1) k := by
  constructor
  · rintro ⟨hf, hn⟩
    obtain ⟨h0, hf⟩ := filled_succ.1 hf
    exact ⟨h0, hf, nth_add_one b k ▸ hn⟩
  · rintro ⟨h0, hf, hn⟩
    exact ⟨filled_succ.2 ⟨h0, hf⟩, nth_add_one b k ▸ hn⟩

/-- A slot outside a block does not matter to it. -/
theorem filled_update_of_forall_ne {n : BitVec w} (h : ∀ i < k, nth b i ≠ n) (v : Option α) :
    Filled (Function.update m n v) b k ↔ Filled m b k :=
  forall₂_congr fun i hi => by rw [Function.update_of_ne (h i hi)]

theorem runLength_update_of_forall_ne {n : BitVec w} (h : ∀ i ≤ k, nth b i ≠ n) (v : Option α) :
    RunLength (Function.update m n v) b k ↔ RunLength m b k := by
  have hf := filled_update_of_forall_ne (m := m) (fun i hi => h i (Nat.le_of_lt hi)) v
  constructor
  · rintro ⟨h1, h2⟩
    exact ⟨hf.1 h1, by rwa [Function.update_of_ne (h k le_rfl)] at h2⟩
  · rintro ⟨h1, h2⟩
    exact ⟨hf.2 h1, by rwa [Function.update_of_ne (h k le_rfl)]⟩

/-- The slot before a block is outside it. -/
theorem nth_add_one_ne (b : BitVec w) {i : ℕ} (hi : i + 1 < 2 ^ w) : nth (b + 1) i ≠ b := by
  rw [nth_add_one]
  intro h
  have := (nth_inj (b := b) (m := i + 1) (n := 0) (by omega) (by omega)).1 (by simpa using h)
  omega

/-- A map with an empty slot has a first one from `b` on. -/
theorem exists_runLength {n : BitVec w} (h : m n = none) (b : BitVec w) :
    ∃ k ≤ (n - b).toNat, RunLength m b k := by
  classical
  have hex : ∃ k, m (nth b k) = none := by
    obtain ⟨k, -, rfl⟩ := exists_nth b n
    exact ⟨k, h⟩
  have hn : m (nth b (n - b).toNat) = none := by rwa [nth_toNat_sub]
  refine ⟨Nat.find hex, Nat.find_min' hex hn, fun i hi => ?_, Nat.find_spec hex⟩
  exact Option.isSome_iff_ne_none.2 (Nat.find_min hex hi)

theorem RunLength.le_of_none (h : RunLength m b k) (hj : m (nth b j) = none) : k ≤ j := by
  by_contra hlt
  have := h.filled j (by omega)
  rw [hj] at this
  cases this

theorem RunLength.unique (hj : RunLength m b j) (hk : RunLength m b k) : j = k :=
  Nat.le_antisymm (hj.le_of_none hk.absent) (hk.le_of_none hj.absent)

end Mdswp.Serial
