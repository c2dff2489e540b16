import Mathlib.Data.List.Induction
import Mathlib.Data.List.Nodup

/-!
# Selections

The selection of the members of a list that have a property is `List.filter`; `picks` are the places
in the list that the selected members come from, and `rank` is the place in the selection that a
member goes to, if it is selected.

* `rank_eq_some_iff`: the two are inverse to each other;
* `filter_modify_of_rank`, `filter_modify_of_not`: a member changes in the selection as in the list;
* `picks_concat`, `rank_concat`: a new member does not move the others.
-/

namespace Mdswp.Selection

variable {α : Type*} {p : α → Bool} {l : List α} {i j k : ℕ} {a : α} {f : α → α}

/-- The places of the selected members, in order. -/
def picks (p : α → Bool) (l : List α) : List ℕ :=
  (List.range l.length).filter fun i => (l[i]?).any p

/-- The place of a member in the selection. -/
def rank (p : α → Bool) (l : List α) (i : ℕ) : Option ℕ := (picks p l).idxOf? i

theorem mem_picks : i ∈ picks p l ↔ ∃ a, l[i]? = some a ∧ p a := by
  rw [picks, List.mem_filter, List.mem_range]
  constructor
  · rintro ⟨hi, hp⟩
    exact ⟨l[i], List.getElem?_eq_getElem hi, by simpa [List.getElem?_eq_getElem hi] using hp⟩
  · rintro ⟨a, ha, hp⟩
    exact ⟨(List.getElem?_eq_some_iff.1 ha).1, by simpa [ha] using hp⟩

theorem nodup_picks (p : α → Bool) (l : List α) : (picks p l).Nodup :=
  List.nodup_range.filter _

theorem picks_concat (p : α → Bool) (l : List α) (a : α) :
    picks p (l ++ [a]) = picks p l ++ if p a then [l.length] else [] := by
  have hold : (List.range l.length).filter (fun i => ((l ++ [a])[i]?).any p) = picks p l := by
    refine List.filter_congr fun i hi => ?_
    rw [List.getElem?_append_left (List.mem_range.1 hi)]
  rw [picks, List.length_append, List.length_singleton, List.range_succ, List.filter_append, hold,
    List.filter_singleton, List.getElem?_concat_length, Option.any_some]
  cases p a <;> rfl

/-- A change of a member that keeps the property does not change the places. -/
theorem picks_modify (hf : ∀ a, l[i]? = some a → p (f a) = p a) :
    picks p (l.modify i f) = picks p l := by
  rw [picks, List.length_modify]
  refine List.filter_congr fun j _ => ?_
  by_cases hj : i = j
  · subst hj
    rw [List.getElem?_modify_eq]
    cases ha : l[i]? with
    | none => rfl
    | some a => simpa using hf a ha
  · rw [List.getElem?_modify_ne _ _ hj]

theorem length_picks (p : α → Bool) (l : List α) : (picks p l).length = (l.filter p).length := by
  induction l using List.reverseRecOn with
  | nil => rfl
  | append_singleton l a ih =>
    rw [picks_concat, List.length_append, ih, List.filter_append, List.length_append,
      List.filter_singleton]
    cases p a <;> rfl

/-- The selected members stand at their places. -/
theorem getElem?_filter (p : α → Bool) (l : List α) (k : ℕ) :
    (l.filter p)[k]? = ((picks p l)[k]?).bind fun i => l[i]? := by
  induction l using List.reverseRecOn generalizing k with
  | nil => simp [picks]
  | append_singleton l a ih =>
    rw [picks_concat, List.filter_append, List.filter_singleton]
    rcases Nat.lt_or_ge k (picks p l).length with hk | hk
    · rw [List.getElem?_append_left (length_picks p l ▸ hk), List.getElem?_append_left hk, ih,
        List.getElem?_eq_getElem hk, Option.bind_some, Option.bind_some]
      obtain ⟨b, hb, -⟩ := mem_picks.1 (List.getElem_mem hk)
      rw [List.getElem?_append_left (List.getElem?_eq_some_iff.1 hb).1]
    · rw [List.getElem?_append_right (length_picks p l ▸ hk), List.getElem?_append_right hk,
        ← length_picks]
      cases p a with
      | false => rfl
      | true =>
        cases k - (picks p l).length with
        | zero => simp
        | succ m => rfl

theorem rank_eq_some_iff : rank p l i = some k ↔ (picks p l)[k]? = some i := by
  rw [rank, List.idxOf?_eq_some_iff, List.getElem?_eq_some_iff]
  constructor
  · rintro ⟨hk, hi, -⟩
    exact ⟨hk, hi⟩
  · rintro ⟨hk, hi⟩
    refine ⟨hk, hi, fun j hj heq => Nat.ne_of_lt hj ?_⟩
    exact (nodup_picks p l).getElem_inj_iff.1 (heq.trans hi.symm)

theorem rank_eq_none_iff : rank p l i = none ↔ ∀ a, l[i]? = some a → p a = false := by
  rw [rank, List.idxOf?_eq_none_iff, mem_picks]
  simp

theorem exists_rank (ha : l[i]? = some a) (hp : p a) : ∃ k, rank p l i = some k := by
  rw [← Option.isSome_iff_exists, rank, List.isSome_idxOf?]
  exact mem_picks.2 ⟨a, ha, hp⟩

theorem rank_inj (hi : rank p l i = some k) (hj : rank p l j = some k) : i = j := by
  rw [rank_eq_some_iff] at hi hj
  exact Option.some.inj (hi.symm.trans hj)

/-- A selected member, in the selection. -/
theorem getElem?_filter_of_rank (h : rank p l i = some k) : (l.filter p)[k]? = l[i]? := by
  rw [getElem?_filter, rank_eq_some_iff.1 h, Option.bind_some]

theorem rank_modify (hf : ∀ a, l[i]? = some a → p (f a) = p a) (j : ℕ) :
    rank p (l.modify i f) j = rank p l j := by
  rw [rank, picks_modify hf, rank]

/-- A member that is selected changes in the selection. -/
theorem filter_modify_of_rank (hf : ∀ a, l[i]? = some a → p (f a) = p a)
    (h : rank p l i = some k) : (l.modify i f).filter p = (l.filter p).modify k f := by
  refine List.ext_getElem? fun m => ?_
  rw [getElem?_filter, picks_modify hf]
  by_cases hm : k = m
  · subst hm
    rw [List.getElem?_modify_eq, getElem?_filter_of_rank h, rank_eq_some_iff.1 h, Option.bind_some,
      List.getElem?_modify_eq]
  · rw [List.getElem?_modify_ne _ _ hm, getElem?_filter]
    cases hj : (picks p l)[m]? with
    | none => rfl
    | some j =>
      rw [Option.bind_some, Option.bind_some, List.getElem?_modify_ne]
      rintro rfl
      rw [← rank_eq_some_iff, h] at hj
      exact hm (Option.some.inj hj)

/-- The others do not change. -/
theorem filter_modify_of_not (hf : ∀ a, l[i]? = some a → p (f a) = p a)
    (h : rank p l i = none) : (l.modify i f).filter p = l.filter p := by
  refine List.ext_getElem? fun m => ?_
  rw [getElem?_filter, getElem?_filter, picks_modify hf]
  cases hj : (picks p l)[m]? with
  | none => rfl
  | some j =>
    rw [Option.bind_some, Option.bind_some, List.getElem?_modify_ne]
    rintro rfl
    rw [← rank_eq_some_iff, h] at hj
    cases hj

/-- A new member does not move the others. -/
theorem rank_concat (hi : i < l.length) (a : α) : rank p (l ++ [a]) i = rank p l i := by
  refine Option.ext fun k => ?_
  rw [rank_eq_some_iff, rank_eq_some_iff, picks_concat, List.getElem?_append]
  split_ifs with hk hp
  · rfl
  · rw [List.getElem?_eq_none (Nat.not_lt.1 hk)]
    refine iff_of_false (fun h => ?_) nofun
    obtain rfl := List.mem_singleton.1 (List.mem_of_getElem? h)
    exact Nat.lt_irrefl _ hi
  · rw [List.getElem?_eq_none (Nat.not_lt.1 hk), List.getElem?_nil]

theorem rank_concat_self (hp : p a) : rank p (l ++ [a]) l.length = some (l.filter p).length := by
  rw [rank_eq_some_iff, picks_concat, if_pos hp, ← length_picks, List.getElem?_concat_length]

end Mdswp.Selection
