import Mathlib.Data.List.AList

/-!
# Registries

A registry is a finite map from keys to members, each of which has at most one key. `Filed` says
that every entry is under the key of its member, and `Finds` that every member of interest that has
a key is found under it. The keys of the members and the interest in them change along with the
registry; the rules say when an insertion or an erasure keeps the two in step.

* `Filed.erase`, `Filed.insert`, `Finds.erase`, `Finds.insert`: the rules;
* `Filed.length_entries_le`: a registry has at most as many entries as there are members.
-/

namespace Mdswp.Registry

variable {κ ι : Type*} [DecidableEq κ] {t : AList fun _ : κ => ι} {key key' : ι → Option κ}
  {p p' : ι → Prop} {i j : ι} {k k' : κ}

/-- Every entry is under the key of its member. -/
def Filed (key : ι → Option κ) (t : AList fun _ : κ => ι) : Prop :=
  ∀ k i, t.lookup k = some i → key i = some k

/-- Every member in `p` that has a key is found under it. -/
def Finds (p : ι → Prop) (key : ι → Option κ) (t : AList fun _ : κ => ι) : Prop :=
  ∀ i k, p i → key i = some k → t.lookup k = some i

theorem lookup_erase_eq_some :
    (t.erase k).lookup k' = some i ↔ k' ≠ k ∧ t.lookup k' = some i := by
  by_cases h : k' = k
  · subst h
    simp
  · rw [AList.lookup_erase_ne h, and_iff_right h]

theorem lookup_insert_eq_some :
    (t.insert k i).lookup k' = some j ↔ (k' = k ∧ j = i) ∨ (k' ≠ k ∧ t.lookup k' = some j) := by
  by_cases h : k' = k
  · subst h
    simp [eq_comm]
  · simp [AList.lookup_insert_ne h, h]

theorem erase_singleton (k : κ) (i : ι) :
    (AList.singleton k i : AList fun _ : κ => ι).erase k = ∅ := by
  apply AList.ext
  exact List.kerase_cons_eq rfl

theorem filed_empty (key : ι → Option κ) : Filed key ∅ := by
  intro k i h
  cases h

theorem Filed.congr (h : Filed key t) (hkey : ∀ j, (key j).isSome → key' j = key j) :
    Filed key' t := by
  intro k j hj
  have hk := h k j hj
  rw [hkey j (by simp [hk]), hk]

/-- The entry of a member goes, together with its key. -/
theorem Filed.erase (h : Filed key t) (hi : key i = some k) (hkey : ∀ j, j ≠ i → key' j = key j) :
    Filed key' (t.erase k) := by
  intro k' j hj
  obtain ⟨hne, hj⟩ := lookup_erase_eq_some.1 hj
  have hk' := h k' j hj
  have hji : j ≠ i := by
    rintro rfl
    rw [hi] at hk'
    exact hne (Option.some.inj hk').symm
  rw [hkey j hji, hk']

theorem Filed.insert (h : Filed key t) (hi : key' i = some k)
    (hkey : ∀ j, (key j).isSome → key' j = key j) : Filed key' (t.insert k i) := by
  intro k' j hj
  rcases lookup_insert_eq_some.1 hj with ⟨rfl, rfl⟩ | ⟨-, hj⟩
  · exact hi
  · exact h.congr hkey k' j hj

theorem Finds.mono (h : Finds p key t)
    (hsub : ∀ j k, p' j → key' j = some k → p j ∧ key j = some k) : Finds p' key' t := by
  intro j k hp hk
  obtain ⟨hp, hk⟩ := hsub j k hp hk
  exact h j k hp hk

/-- An entry may go when no member of interest has its key. -/
theorem Finds.erase (h : Finds p key t)
    (hsub : ∀ j k, p' j → key' j = some k → p j ∧ key j = some k)
    (hfree : ∀ j, p' j → key' j ≠ some k) : Finds p' key' (t.erase k) := by
  intro j k' hp hk'
  refine lookup_erase_eq_some.2 ⟨?_, h.mono hsub j k' hp hk'⟩
  rintro rfl
  exact hfree j hp hk'

/-- A member may come under a key that no other member of interest has. -/
theorem Finds.insert (h : Finds p key t)
    (hsub : ∀ j k, j ≠ i → p' j → key' j = some k → p j ∧ key j = some k)
    (hi : key' i = some k) (hfree : ∀ j, p j → key j ≠ some k) :
    Finds p' key' (t.insert k i) := by
  intro j k' hp hk'
  by_cases hji : j = i
  · subst hji
    rw [hi] at hk'
    exact lookup_insert_eq_some.2 (.inl ⟨(Option.some.inj hk').symm, rfl⟩)
  · obtain ⟨hp, hk'⟩ := hsub j k' hji hp hk'
    refine lookup_insert_eq_some.2 (.inr ⟨?_, h j k' hp hk'⟩)
    rintro rfl
    exact hfree j hp hk'

/-- Two members of interest do not share a key. -/
theorem Finds.unique (h : Finds p key t) (hpi : p i) (hpj : p j) (hi : key i = some k)
    (hj : key j = some k) : i = j := by
  have := (h i k hpi hi).symm.trans (h j k hpj hj)
  exact Option.some.inj this

/-- A registry of members from a list has at most as many entries as the list. -/
theorem Filed.length_entries_le (h : Filed key t) {l : List ι}
    (hl : ∀ k i, t.lookup k = some i → i ∈ l) : t.entries.length ≤ l.length := by
  have hlookup : ∀ x ∈ t.entries, t.lookup x.1 = some x.2 := fun x hx => AList.mem_lookup_iff.2 hx
  have hnodup : (t.entries.map Sigma.snd).Nodup := by
    refine t.nodupKeys.nodup.map_on fun x hx y hy hxy => ?_
    have hx' := h x.1 x.2 (hlookup x hx)
    rw [hxy, h y.1 y.2 (hlookup y hy)] at hx'
    exact Sigma.ext (Option.some.inj hx').symm (heq_of_eq hxy)
  have hsub : t.entries.map Sigma.snd ⊆ l := by
    intro i hi
    obtain ⟨x, hx, rfl⟩ := List.mem_map.1 hi
    exact hl x.1 x.2 (hlookup x hx)
  have := (List.subperm_of_subset hnodup hsub).length_le
  rwa [List.length_map] at this

end Mdswp.Registry
