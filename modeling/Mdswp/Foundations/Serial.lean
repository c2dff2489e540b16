import Mathlib.Data.BitVec
import Mathlib.Data.List.Nodup
import Mathlib.Data.List.Perm.Basic

/-!
# Serial numbers

Numbers of fixed width that wrap around, as protocols use them to name the elements of an
unbounded sequence. `nth b n` is the number of position `n` when position `0` has the number
`b`. Positions are natural numbers and never wrap; the lemmas say what the wrapping difference
of two numbers tells about the distance of their positions.

* `toNat_nth_sub_nth`: at a distance below `2 ^ w` the difference is the distance;
* `toNat_nth_sub_nth_of_lt`: backwards it is `2 ^ w` minus the distance;
* `nth_inj`: positions less than `2 ^ w` apart have different numbers.

`IsBlock top m l` says that the list `l` holds the `m` numbers that end at `top`, each once, in
any order; such a list can be extended at the top, and cut off at the bottom.
-/

namespace Mdswp.Serial

variable {w : ℕ}

/-- The number of position `n` when position `0` has the number `b`. -/
def nth (b : BitVec w) (n : ℕ) : BitVec w := b + BitVec.ofNat w n

@[simp] theorem nth_zero (b : BitVec w) : nth b 0 = b := by simp [nth]

theorem nth_one (b : BitVec w) : nth b 1 = b + 1 := rfl

@[simp] theorem nth_nth (b : BitVec w) (m n : ℕ) : nth (nth b m) n = nth b (m + n) := by
  simp [nth, BitVec.ofNat_add, BitVec.add_assoc]

theorem nth_succ (b : BitVec w) (n : ℕ) : nth b (n + 1) = nth b n + 1 := by
  rw [← nth_nth, nth_one]

theorem nth_add_one (b : BitVec w) (n : ℕ) : nth (b + 1) n = nth b (n + 1) := by
  rw [← nth_one, nth_nth, Nat.add_comm]

@[simp] theorem nth_toNat_sub (b k : BitVec w) : nth b (k - b).toNat = k := by
  rw [nth, BitVec.ofNat_toNat, BitVec.setWidth_eq, add_sub_cancel]

theorem toNat_nth_sub (b : BitVec w) (n : ℕ) : (nth b n - b).toNat = n % 2 ^ w := by
  rw [nth, add_sub_cancel_left, BitVec.toNat_ofNat]

theorem toNat_sub_nth (b : BitVec w) (n : ℕ) :
    (b - nth b n).toNat = (2 ^ w - n % 2 ^ w) % 2 ^ w := by
  rw [nth, sub_add_cancel_left, BitVec.toNat_neg, BitVec.toNat_ofNat]

/-- The wrapping difference of two numbers, the later one first. -/
theorem toNat_nth_sub_nth {b : BitVec w} {m n : ℕ} (h : m ≤ n) (hw : n < m + 2 ^ w) :
    (nth b n - nth b m).toNat = n - m := by
  obtain ⟨d, rfl⟩ := Nat.exists_eq_add_of_le h
  rw [← nth_nth, toNat_nth_sub, Nat.mod_eq_of_lt (by omega), Nat.add_sub_cancel_left]

/-- The wrapping difference of two numbers, the earlier one first. -/
theorem toNat_nth_sub_nth_of_lt {b : BitVec w} {m n : ℕ} (h : n < m) (hw : m < n + 2 ^ w) :
    (nth b n - nth b m).toNat = 2 ^ w - (m - n) := by
  obtain ⟨d, rfl⟩ := Nat.exists_eq_add_of_le h.le
  rw [← nth_nth, toNat_sub_nth, Nat.mod_eq_of_lt (a := d) (by omega), Nat.mod_eq_of_lt (by omega),
    Nat.add_sub_cancel_left]

/-- Positions less than `2 ^ w` apart have different numbers. -/
theorem nth_inj {b : BitVec w} {m n : ℕ} (hm : m < n + 2 ^ w) (hn : n < m + 2 ^ w) :
    nth b m = nth b n ↔ m = n := by
  refine ⟨fun h => ?_, fun h => h ▸ rfl⟩
  rcases Nat.le_total m n with hle | hle
  · have := toNat_nth_sub_nth (b := b) hle hn
    rw [h, BitVec.sub_self, BitVec.toNat_zero] at this
    omega
  · have := toNat_nth_sub_nth (b := b) hle hm
    rw [h, BitVec.sub_self, BitVec.toNat_zero] at this
    omega

/-- Every number is the number of a position of the block of `2 ^ w` from `0` on. -/
theorem exists_nth (b k : BitVec w) : ∃ n < 2 ^ w, k = nth b n :=
  ⟨(k - b).toNat, (k - b).isLt, (nth_toNat_sub b k).symm⟩

/-- A full turn leads to the same number. -/
theorem nth_add_two_pow (b : BitVec w) (n : ℕ) : nth b (n + 2 ^ w) = nth b n := by
  rw [nth, nth]
  congr 1
  exact BitVec.eq_of_toNat_eq (by rw [BitVec.toNat_ofNat, BitVec.toNat_ofNat, Nat.add_mod_right])

theorem nth_succ_sub_one (b : BitVec w) (n : ℕ) : nth b (n + 1) - 1 = nth b n := by
  rw [nth_succ, BitVec.add_sub_cancel]

/-- Numbers at the same distance from a number are equal. -/
theorem nth_left_cancel {b b' : BitVec w} {n : ℕ} (h : nth b n = nth b' n) : b = b' := by
  unfold nth at h
  exact add_right_cancel h

/-! ## Blocks -/

/-- The list holds the `m` numbers that end at `top`, each once. -/
structure IsBlock (top : BitVec w) (m : ℕ) (l : List (BitVec w)) : Prop where
  nodup : l.Nodup
  mem_iff : ∀ n, n ∈ l ↔ (top - n).toNat < m

theorem IsBlock.nil (top : BitVec w) : IsBlock top 0 [] := ⟨.nil, by simp⟩

theorem IsBlock.perm {top : BitVec w} {m : ℕ} {l l' : List (BitVec w)} (h : IsBlock top m l)
    (hp : l.Perm l') : IsBlock top m l' :=
  ⟨hp.nodup_iff.1 h.nodup, fun n => by rw [← hp.mem_iff, h.mem_iff]⟩

/-- The `m` numbers that end at `top`, from the top down. -/
theorem isBlock_map_range (top : BitVec w) {m : ℕ} (hm : m ≤ 2 ^ w) :
    IsBlock top m ((List.range m).map fun i => top - BitVec.ofNat w i) := by
  constructor
  · refine List.Nodup.map_on (fun i hi j hj h => ?_) List.nodup_range
    rw [List.mem_range] at hi hj
    have h' := congrArg BitVec.toNat (sub_right_injective h)
    rwa [BitVec.toNat_ofNat, BitVec.toNat_ofNat, Nat.mod_eq_of_lt (by omega),
      Nat.mod_eq_of_lt (by omega)] at h'
  · intro n
    simp only [List.mem_map, List.mem_range]
    constructor
    · rintro ⟨i, hi, rfl⟩
      rwa [sub_sub_cancel, BitVec.toNat_ofNat, Nat.mod_eq_of_lt (by omega)]
    · intro h
      exact ⟨_, h, by rw [BitVec.ofNat_toNat, BitVec.setWidth_eq, sub_sub_cancel]⟩

theorem IsBlock.length_eq {top : BitVec w} {m : ℕ} {l : List (BitVec w)} (h : IsBlock top m l)
    (hm : m ≤ 2 ^ w) : l.length = m := by
  have hr := isBlock_map_range top hm
  have hp := (List.perm_ext_iff_of_nodup h.nodup hr.nodup).2 fun n => by
    rw [h.mem_iff, hr.mem_iff]
  rw [hp.length_eq, List.length_map, List.length_range]

theorem toNat_one_of_lt (h : 1 < 2 ^ w) : (1 : BitVec w).toNat = 1 :=
  (BitVec.toNat_ofNat 1 w).trans (Nat.mod_eq_of_lt h)

/-- The numbers at a distance below `m + 1` from `top + 1`: that number, and those at a distance
below `m` from `top`. -/
theorem toNat_add_one_sub_lt {top n : BitVec w} {m : ℕ} (hm : m + 1 < 2 ^ w) :
    (top + 1 - n).toNat < m + 1 ↔ (top - n).toNat < m ∨ n = top + 1 := by
  have hd : top + 1 - n = (top - n) + 1 := by rw [sub_add_eq_add_sub]
  have hn : n = top + 1 ↔ (top - n) + 1 = 0 := by rw [← hd, sub_eq_zero, eq_comm]
  rw [hd, hn, ← BitVec.toNat_inj, BitVec.toNat_add]
  have h0 : (0 : BitVec w).toNat = 0 := Nat.zero_mod _
  rw [toNat_one_of_lt (by omega), h0]
  have hlt := (top - n).isLt
  by_cases hmax : (top - n).toNat + 1 = 2 ^ w
  · rw [hmax, Nat.mod_self]
    omega
  · rw [Nat.mod_eq_of_lt (by omega)]
    omega

/-- A block grows by the number after its top. -/
theorem IsBlock.concat {top : BitVec w} {m : ℕ} {l : List (BitVec w)} (h : IsBlock top m l)
    (hm : m + 1 < 2 ^ w) : IsBlock (top + 1) (m + 1) (l ++ [top + 1]) := by
  have hnot : top + 1 ∉ l := by
    rw [h.mem_iff, sub_add_cancel_left, BitVec.toNat_neg]
    rw [toNat_one_of_lt (by omega), Nat.mod_eq_of_lt (by omega)]
    omega
  refine ⟨?_, fun n => ?_⟩
  · rw [List.nodup_append]
    exact ⟨h.nodup, List.nodup_singleton _, by simpa using fun n hn => ne_of_mem_of_not_mem hn hnot⟩
  · rw [List.mem_append, List.mem_singleton, h.mem_iff, toNat_add_one_sub_lt hm]

/-- The numbers of a block at a distance below `m'` from its top. -/
theorem IsBlock.filter {top : BitVec w} {m : ℕ} {l : List (BitVec w)} (h : IsBlock top m l)
    (m' : ℕ) : IsBlock top (min m m') (l.filter fun n => (top - n).toNat < m') :=
  ⟨h.nodup.filter _, fun n => by simp [h.mem_iff]⟩

end Mdswp.Serial
