import Mathlib.Data.Set.Finite.Lemmas
import Mathlib.Data.Set.Finite.List
import Mdswp.Foundations.Run

/-!
# Locks in order

Threads that acquire and release readers-writer locks, each along a program of its own. Where every
thread acquires its locks by increasing rank (`Ordered`), there is no deadlock: as long as a thread
has something to do, one of them releases a lock next or acquires one that nobody holds
(`exists_proceeds`), so that the policy of the locks does not matter, and every run can be continued
until all threads are done (`run_completes`).

Programs are put together from sections (`during`), which hold a lock while an inner program runs.
-/

namespace Mdswp

inductive LockMode
  | read
  | write
  deriving DecidableEq, Repr

inductive LockAction (Λ : Type*)
  | acquire (lock : Λ) (mode : LockMode)
  | release (lock : Λ)
  deriving DecidableEq, Repr

/-- A thread: the locks it holds, and what it is going to do. -/
structure LockThread (Λ : Type*) where
  held : List (Λ × LockMode)
  todo : List (LockAction Λ)

namespace LockOrder

variable {Λ : Type*} [DecidableEq Λ] {rank : Λ → ℕ} {ts ts' : List (LockThread Λ)}
  {held mid final : List (Λ × LockMode)} {lock : Λ} {mode : LockMode}
  {todo todo' : List (LockAction Λ)}

/-- A lock may be acquired if only readers share it. -/
def Grants (ts : List (LockThread Λ)) (lock : Λ) (mode : LockMode) : Prop :=
  ∀ t ∈ ts, ∀ h ∈ t.held, h.1 = lock → h.2 = .read ∧ mode = .read

instance (ts : List (LockThread Λ)) (lock : Λ) (mode : LockMode) :
    Decidable (Grants ts lock mode) :=
  inferInstanceAs (Decidable (∀ t ∈ ts, ∀ h ∈ t.held, _))

/-- The next action of a thread; there is none if the thread is done, or has to wait. -/
def lockStep (ts : List (LockThread Λ)) (i : ℕ) : Except Unit (List (LockThread Λ)) :=
  match ts[i]? with
  | none => .error ()
  | some t =>
    match t.todo with
    | [] => .error ()
    | .acquire lock mode :: todo =>
      if Grants ts lock mode then .ok (ts.set i ⟨(lock, mode) :: t.held, todo⟩) else .error ()
    | .release lock :: todo => .ok (ts.set i ⟨t.held.filter fun h => h.1 ≠ lock, todo⟩)

/-- From `held` the program acquires its locks by increasing rank, releases what it holds, and ends
with `final`. -/
def Ordered (rank : Λ → ℕ) :
    List (Λ × LockMode) → List (LockAction Λ) → List (Λ × LockMode) → Prop
  | held, [], final => held = final
  | held, .acquire lock mode :: todo, final =>
    (∀ h ∈ held, rank h.1 < rank lock) ∧ Ordered rank ((lock, mode) :: held) todo final
  | held, .release lock :: todo, final =>
    (∃ h ∈ held, h.1 = lock) ∧ Ordered rank (held.filter fun h => h.1 ≠ lock) todo final

/-- Nobody holds the lock. -/
def Free (ts : List (LockThread Λ)) (lock : Λ) : Prop := ∀ t ∈ ts, ∀ h ∈ t.held, h.1 ≠ lock

/-- The thread goes on, whatever the policy of the locks is. -/
def Proceeds (ts : List (LockThread Λ)) (t : LockThread Λ) : Prop :=
  ∃ action todo, t.todo = action :: todo ∧
    match action with
    | .acquire lock _ => Free ts lock
    | .release _ => True

/-- All threads are in order, and will have released everything in the end. -/
def Disciplined (rank : Λ → ℕ) (ts : List (LockThread Λ)) : Prop :=
  ∀ t ∈ ts, Ordered rank t.held t.todo []

/-! ## Progress -/

/-- The rank of the lock that a thread acquires next. -/
def wants (rank : Λ → ℕ) (t : LockThread Λ) : ℕ :=
  match t.todo with
  | .acquire lock _ :: _ => rank lock
  | _ => 0

/-- Among the threads that wait, one waits for a lock of the highest rank. Whoever held that lock
would wait for one of a rank still higher. -/
theorem exists_proceeds (h : Disciplined rank ts) (hne : ∃ t ∈ ts, t.todo ≠ []) :
    ∃ t ∈ ts, Proceeds ts t := by
  by_contra hno
  have hwaits : ∀ t ∈ ts, t.todo ≠ [] →
      ∃ lock mode todo, t.todo = .acquire lock mode :: todo ∧ ¬Free ts lock := by
    intro t ht htodo
    obtain ⟨action, todo, hq⟩ := List.exists_cons_of_ne_nil htodo
    cases action with
    | release lock => exact absurd ⟨t, ht, _, _, hq, trivial⟩ hno
    | acquire lock mode =>
      refine ⟨lock, mode, todo, hq, fun hfree => hno ⟨t, ht, _, _, hq, hfree⟩⟩
  obtain ⟨t, ⟨ht, htodo⟩, hmax⟩ := Set.exists_max_image {t | t ∈ ts ∧ t.todo ≠ []} (wants rank)
    ((List.finite_toSet ts).subset fun t ht => ht.1) hne
  obtain ⟨lock, mode, todo, hq, hheld⟩ := hwaits t ht htodo
  simp only [Free, not_forall, not_not] at hheld
  obtain ⟨u, hu, held, hmem, rfl⟩ := hheld
  have hord := h u hu
  have hutodo : u.todo ≠ [] := by
    intro hnil
    rw [hnil, Ordered] at hord
    rw [hord] at hmem
    cases hmem
  obtain ⟨lock', mode', todo', hq', -⟩ := hwaits u hu hutodo
  rw [hq', Ordered] at hord
  have hlt := hord.1 held hmem
  have hle := hmax u ⟨hu, hutodo⟩
  rw [wants, wants, hq, hq'] at hle
  exact absurd hlt (Nat.not_lt.2 hle)

/-- A thread that proceeds takes a step. -/
theorem exists_lockStep {t : LockThread Λ} (ht : t ∈ ts) (hp : Proceeds ts t) :
    ∃ i ts', lockStep ts i = .ok ts' := by
  obtain ⟨i, hi⟩ := List.mem_iff_getElem?.1 ht
  obtain ⟨action, todo, hq, hfree⟩ := hp
  cases action with
  | release lock => exact ⟨i, _, by rw [lockStep, hi]; dsimp only; rw [hq]⟩
  | acquire lock mode =>
    have hgrants : Grants ts lock mode := fun u hu h hh heq => absurd heq (hfree u hu h hh)
    exact ⟨i, _, by rw [lockStep, hi]; dsimp only; rw [hq]; exact if_pos hgrants⟩

/-- What a step does: one thread performs its next action. -/
theorem lockStep_eq_ok (rank : Λ → ℕ) {i : ℕ} (h : lockStep ts i = .ok ts') :
    ∃ t held action todo, ts[i]? = some t ∧ t.todo = action :: todo ∧
      ts' = ts.set i ⟨held, todo⟩ ∧
      ∀ final, Ordered rank t.held t.todo final → Ordered rank held todo final := by
  rw [lockStep] at h
  cases hi : ts[i]? with
  | none => simp [hi] at h
  | some t =>
    rw [hi] at h
    dsimp only at h
    split at h
    · cases h
    · rename_i lock mode todo hq
      split_ifs at h
      obtain rfl := Except.ok.inj h
      exact ⟨t, _, _, todo, rfl, hq, rfl, fun final hord => (hq ▸ hord).2⟩
    · rename_i lock todo hq
      obtain rfl := Except.ok.inj h
      exact ⟨t, _, _, todo, rfl, hq, rfl, fun final hord => (hq ▸ hord).2⟩

theorem Disciplined.step (h : Disciplined rank ts) {i : ℕ} (hs : lockStep ts i = .ok ts') :
    Disciplined rank ts' := by
  obtain ⟨t, held, action, todo, hi, hq, rfl, hord⟩ := lockStep_eq_ok rank hs
  intro u hu
  rcases List.mem_or_eq_of_mem_set hu with hu | rfl
  · exact h u hu
  · exact hord [] (h t (List.mem_of_getElem? hi))

theorem Disciplined.of_run (h : Disciplined rank ts) {is : List ℕ}
    (hrun : run lockStep ts is = .ok ts') : Disciplined rank ts' :=
  run_invariant (P := fun _ _ => True) (Disciplined rank) (fun _ _ _ h _ hs => h.step hs) h
    (along_of_forall_mem (fun _ _ => trivial) ts) hrun

/-- How many actions are left. -/
def remaining : List (LockThread Λ) → ℕ
  | [] => 0
  | t :: ts => t.todo.length + remaining ts

omit [DecidableEq Λ] in
theorem remaining_set {i : ℕ} {t u : LockThread Λ} (hi : ts[i]? = some t) :
    remaining (ts.set i u) + t.todo.length = remaining ts + u.todo.length := by
  induction ts generalizing i with
  | nil => cases hi
  | cons v ts ih =>
    cases i with
    | zero =>
      obtain rfl := Option.some.inj hi
      simp only [remaining, List.set_cons_zero]
      omega
    | succ i =>
      have := ih (i := i) hi
      simp only [remaining, List.set_cons_succ] at this ⊢
      omega

theorem remaining_step {i : ℕ} (hs : lockStep ts i = .ok ts') :
    remaining ts' + 1 = remaining ts := by
  obtain ⟨t, held, action, todo, hi, hq, rfl, -⟩ := lockStep_eq_ok (fun _ => 0) hs
  have := remaining_set (u := ⟨held, todo⟩) hi
  rw [hq, List.length_cons] at this
  dsimp only at this
  omega

/-- Whatever the threads have done, they can all be brought to their ends. -/
theorem Disciplined.run_completes (h : Disciplined rank ts) :
    ∃ is ts', run lockStep ts is = .ok ts' ∧ ∀ t ∈ ts', t.todo = [] := by
  induction hn : remaining ts generalizing ts with
  | zero =>
    refine ⟨[], ts, rfl, fun t ht => ?_⟩
    by_contra hne
    obtain ⟨u, hu, hp⟩ := exists_proceeds h ⟨t, ht, hne⟩
    obtain ⟨i, ts', hs⟩ := exists_lockStep hu hp
    have := remaining_step hs
    omega
  | succ n ih =>
    by_cases hdone : ∀ t ∈ ts, t.todo = []
    · exact ⟨[], ts, rfl, hdone⟩
    obtain ⟨t, ht, hne⟩ : ∃ t ∈ ts, t.todo ≠ [] := by simpa using hdone
    obtain ⟨u, hu, hp⟩ := exists_proceeds h ⟨t, ht, hne⟩
    obtain ⟨i, ts₁, hs⟩ := exists_lockStep hu hp
    obtain ⟨is, ts₂, hrun, hall⟩ := ih (h.step hs) (by have := remaining_step hs; omega)
    exact ⟨i :: is, ts₂, (run_cons_of_ok hs is).trans hrun, hall⟩

/-! ## Programs -/

/-- The inner program runs while the lock is held. -/
def during (lock : Λ) (mode : LockMode) (inner : List (LockAction Λ)) : List (LockAction Λ) :=
  .acquire lock mode :: inner ++ [.release lock]

theorem Ordered.append (h : Ordered rank held todo mid) (h' : Ordered rank mid todo' final) :
    Ordered rank held (todo ++ todo') final := by
  induction todo generalizing held with
  | nil =>
    obtain rfl : held = mid := h
    exact h'
  | cons action todo ih =>
    cases action with
    | acquire lock mode => exact ⟨h.1, ih h.2⟩
    | release lock => exact ⟨h.1, ih h.2⟩

/-- All locks that the program acquires have a rank above `n`. -/
def Above (rank : Λ → ℕ) (n : ℕ) (todo : List (LockAction Λ)) : Prop :=
  ∀ lock mode, .acquire lock mode ∈ todo → n < rank lock

/-- A program in order stays so while a lock below all of its own is held. -/
theorem Ordered.frame (h : Ordered rank held todo final) (ha : Above rank (rank lock) todo)
    (hheld : ∀ x ∈ held, rank lock < rank x.1) :
    Ordered rank (held ++ [(lock, mode)]) todo (final ++ [(lock, mode)]) := by
  induction todo generalizing held with
  | nil =>
    obtain rfl : held = final := h
    rfl
  | cons action todo ih =>
    have ha' : Above rank (rank lock) todo := fun l m hm => ha l m (List.mem_cons_of_mem _ hm)
    cases action with
    | acquire l m =>
      have hl : rank lock < rank l := ha l m List.mem_cons_self
      refine ⟨fun x hx => ?_, ih h.2 ha' fun x hx => ?_⟩
      · rcases List.mem_append.1 hx with hx | hx
        · exact h.1 x hx
        · rwa [List.mem_singleton.1 hx]
      · rcases List.mem_cons.1 hx with rfl | hx
        · exact hl
        · exact hheld x hx
    | release l =>
      obtain ⟨⟨x, hx, rfl⟩, hrest⟩ := h
      have hne : lock ≠ x.1 := by
        rintro rfl
        exact Nat.lt_irrefl _ (hheld x hx)
      refine ⟨⟨x, List.mem_append_left _ hx, rfl⟩, ?_⟩
      have hfilter : (held ++ [(lock, mode)]).filter (fun y => y.1 ≠ x.1) =
          held.filter (fun y => y.1 ≠ x.1) ++ [(lock, mode)] := by
        rw [List.filter_append, List.filter_singleton]
        simp [hne]
      rw [hfilter]
      exact ih hrest ha' fun y hy => hheld y (List.mem_filter.1 hy).1

/-- The program starts and ends with no lock, and acquires only locks of a rank above `n`. -/
structure Balanced (rank : Λ → ℕ) (n : ℕ) (todo : List (LockAction Λ)) : Prop where
  ordered : Ordered rank [] todo []
  above : Above rank n todo

namespace Balanced

variable {n : ℕ}

theorem nil : Balanced rank n ([] : List (LockAction Λ)) := ⟨rfl, nofun⟩

theorem append (h : Balanced rank n todo) (h' : Balanced rank n todo') :
    Balanced rank n (todo ++ todo') := by
  refine ⟨h.ordered.append h'.ordered, fun lock mode hm => ?_⟩
  exact (List.mem_append.1 hm).elim (h.above lock mode) (h'.above lock mode)

theorem flatMap {α : Type*} {f : α → List (LockAction Λ)} {l : List α}
    (h : ∀ a ∈ l, Balanced rank n (f a)) : Balanced rank n (l.flatMap f) := by
  induction l with
  | nil => exact nil
  | cons a l ih =>
    rw [List.flatMap_cons]
    exact (h a List.mem_cons_self).append (ih fun b hb => h b (List.mem_cons_of_mem _ hb))

theorem replicate (h : Balanced rank n todo) (k : ℕ) :
    Balanced rank n (List.replicate k todo).flatten := by
  rw [← List.flatMap_id]
  exact flatMap fun a ha => List.eq_of_mem_replicate ha ▸ h

theorem ite {c : Prop} [Decidable c] (h : c → Balanced rank n todo)
    (h' : ¬c → Balanced rank n todo') : Balanced rank n (if c then todo else todo') := by
  split_ifs with hc
  · exact h hc
  · exact h' hc

/-- A lock is held while a program runs that acquires locks of a higher rank. -/
theorem during (h : Balanced rank (rank lock) todo) (hn : n < rank lock) :
    Balanced rank n (during lock mode todo) := by
  constructor
  · have hframe : Ordered rank [(lock, mode)] todo [(lock, mode)] :=
      h.ordered.frame h.above nofun
    refine ⟨nofun, hframe.append ⟨⟨_, List.mem_singleton_self _, rfl⟩, ?_⟩⟩
    simp [Ordered]
  · intro l m hm
    rcases List.mem_cons.1 hm with heq | hm
    · cases heq
      exact hn
    · rcases List.mem_append.1 hm with hm | hm
      · exact hn.trans (h.above l m hm)
      · cases List.mem_singleton.1 hm

end Balanced

end LockOrder

end Mdswp
