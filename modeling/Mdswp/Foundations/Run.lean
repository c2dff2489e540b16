import Mathlib.Data.List.Basic
import Mathlib.Data.List.Induction

/-!
# Runs of a machine

A machine is a step function on states and events that may fail. `run` is the state after a list
of events; `Along` says that every step of a run, taken in the state the run has reached, has a
property.

* `run_invariant`, `run_preserves`: what each step preserves, a run preserves;
* `Along.of_invariant`: a property of the steps that an invariant implies holds along every run;
* `run_length_le`: what every step uses up bounds the length of a run;
* `exists_run_eq_ok_and_iff`: a run reaches a good state if and only if every step does;
* `along_congr`: two properties of steps that agree under an invariant hold along the same runs;
* `run_projected`: a machine that each step of another one drives runs along with it;
* `run_history`: what holds of the states together with the events that have led to them.

`Takes` says which step a run has taken, and `Leads` that some run leads from one state to another.
-/

namespace Mdswp

variable {σ ε φ : Type*} {step : σ → ε → Except φ σ} {P Q : σ → ε → Prop}

/-- The state after the events, or the failure of the first step that fails. -/
def run (step : σ → ε → Except φ σ) : σ → List ε → Except φ σ
  | s, [] => .ok s
  | s, e :: es =>
    match step s e with
    | .ok s' => run step s' es
    | .error f => .error f

/-- Every step of the run from `s` has the property `P`, as far as the run goes. -/
def Along (step : σ → ε → Except φ σ) (P : σ → ε → Prop) : σ → List ε → Prop
  | _, [] => True
  | s, e :: es => P s e ∧ ∀ s', step s e = .ok s' → Along step P s' es

theorem run_cons_of_ok {s s' : σ} {e : ε} (h : step s e = .ok s') (es : List ε) :
    run step s (e :: es) = run step s' es := by
  rw [run, h]

theorem run_cons_eq_ok {s t : σ} {e : ε} {es : List ε} :
    run step s (e :: es) = .ok t ↔ ∃ s', step s e = .ok s' ∧ run step s' es = .ok t := by
  rw [run]
  cases h : step s e with
  | ok s' => simp
  | error f => simp

theorem run_singleton {s s' : σ} {e : ε} (h : step s e = .ok s') : run step s [e] = .ok s' :=
  run_cons_of_ok h []

@[simp] theorem along_nil (s : σ) : Along step P s [] := trivial

theorem along_cons {s : σ} {e : ε} {es : List ε} :
    Along step P s (e :: es) ↔ P s e ∧ ∀ s', step s e = .ok s' → Along step P s' es := Iff.rfl

theorem Along.mono (h : ∀ s e, P s e → Q s e) {s : σ} {es : List ε} (hP : Along step P s es) :
    Along step Q s es := by
  induction es generalizing s with
  | nil => trivial
  | cons e es ih => exact ⟨h s e hP.1, fun s' hs => ih (hP.2 s' hs)⟩

theorem along_and {s : σ} {es : List ε} :
    Along step (fun s e => P s e ∧ Q s e) s es ↔ Along step P s es ∧ Along step Q s es := by
  constructor
  · intro h
    exact ⟨h.mono fun _ _ hs => hs.1, h.mono fun _ _ hs => hs.2⟩
  · rintro ⟨hP, hQ⟩
    induction es generalizing s with
    | nil => trivial
    | cons e es ih => exact ⟨⟨hP.1, hQ.1⟩, fun s' hs => ih (hP.2 s' hs) (hQ.2 s' hs)⟩

theorem along_of_forall_mem {p : ε → Prop} {es : List ε} (h : ∀ e ∈ es, p e) (s : σ) :
    Along step (fun _ e => p e) s es := by
  induction es generalizing s with
  | nil => trivial
  | cons e es ih =>
    exact ⟨h e (by simp), fun s' _ => ih (fun e' he => h e' (by simp [he])) s'⟩

/-- The last step of a run, in the state that the steps before it reach. -/
theorem Along.last {s t : σ} {e : ε} {es : List ε} (hP : Along step P s (es ++ [e]))
    (h : run step s es = .ok t) : P t e := by
  induction es generalizing s with
  | nil =>
    obtain rfl := Except.ok.inj h
    exact hP.1
  | cons e' es ih =>
    obtain ⟨s', h₁, h₂⟩ := run_cons_eq_ok.1 h
    exact ih (hP.2 s' h₁) h₂

instance Along.instDecidable [∀ s e, Decidable (P s e)] :
    ∀ s es, Decidable (Along step P s es)
  | _, [] => isTrue trivial
  | s, e :: es =>
    match h : step s e with
    | .ok s' =>
      have := Along.instDecidable s' es
      decidable_of_iff (P s e ∧ Along step P s' es) (by simp [along_cons, h])
    | .error f => decidable_of_iff (P s e) (by simp [along_cons, h])

instance run.instDecidableEqError [DecidableEq φ] (s : σ) (es : List ε) (f : φ) :
    Decidable (run step s es = .error f) :=
  match h : run step s es with
  | .ok _ => isFalse nofun
  | .error g => decidable_of_iff (g = f) (by simp)

/-- What every step of a machine preserves under `P` holds after every run along `P`. -/
theorem run_invariant (Inv : σ → Prop)
    (hstep : ∀ s e s', Inv s → P s e → step s e = .ok s' → Inv s') {s t : σ} {es : List ε}
    (hs : Inv s) (hP : Along step P s es) (h : run step s es = .ok t) : Inv t := by
  induction es generalizing s with
  | nil => exact Except.ok.inj h ▸ hs
  | cons e es ih =>
    obtain ⟨s', h₁, h₂⟩ := run_cons_eq_ok.1 h
    exact ih (hstep s e s' hs hP.1 h₁) (hP.2 s' h₁) h₂

/-- What every step of a machine preserves holds after every run. -/
theorem run_preserves (Inv : σ → Prop) (hstep : ∀ s e s', Inv s → step s e = .ok s' → Inv s')
    {s t : σ} {es : List ε} (hs : Inv s) (h : run step s es = .ok t) : Inv t := by
  induction es generalizing s with
  | nil => exact Except.ok.inj h ▸ hs
  | cons e es ih =>
    obtain ⟨s', h₁, h₂⟩ := run_cons_eq_ok.1 h
    exact ih (hstep s e s' hs h₁) h₂

/-- What no step brings about has held before every run after which it holds. -/
theorem run_ending {Good : σ → Prop} (hback : ∀ s e s', step s e = .ok s' → Good s' → Good s)
    {s t : σ} {es : List ε} (h : run step s es = .ok t) (ht : Good t) : Good s := by
  induction es generalizing s with
  | nil => exact Except.ok.inj h ▸ ht
  | cons e es ih =>
    obtain ⟨s', h₁, h₂⟩ := run_cons_eq_ok.1 h
    exact hback s e s' h₁ (ih h₂)

/-- A failure that no step can have under an invariant is not that of a run. -/
theorem run_ne_error (Inv : σ → Prop)
    (hstep : ∀ s e s', Inv s → P s e → step s e = .ok s' → Inv s') {f : φ}
    (hne : ∀ s e, Inv s → P s e → step s e ≠ .error f) {s : σ} {es : List ε} (hs : Inv s)
    (hP : Along step P s es) : run step s es ≠ .error f := by
  induction es generalizing s with
  | nil => exact nofun
  | cons e es ih =>
    rw [run]
    cases h : step s e with
    | ok s' => exact ih (hstep s e s' hs hP.1 h) (hP.2 s' h)
    | error g =>
      intro heq
      obtain rfl := Except.error.inj heq
      exact hne s e hs hP.1 h

/-- A run along `P` is no longer than a measure that every such step makes smaller. -/
theorem run_length_le (μ : σ → ℕ) (hstep : ∀ s e s', P s e → step s e = .ok s' → μ s' < μ s)
    {s t : σ} {es : List ε} (hP : Along step P s es) (h : run step s es = .ok t) :
    μ t + es.length ≤ μ s := by
  induction es generalizing s with
  | nil => exact Except.ok.inj h ▸ Nat.le_refl _
  | cons e es ih =>
    obtain ⟨s', h₁, h₂⟩ := run_cons_eq_ok.1 h
    have hlt := hstep s e s' hP.1 h₁
    have hle := ih (hP.2 s' h₁) h₂
    rw [List.length_cons]
    omega

/-- Two properties of steps that agree under an invariant hold along the same runs. The
invariant need only survive the steps that have the property. -/
theorem along_congr (Inv : σ → Prop) (hiff : ∀ s e, Inv s → (P s e ↔ Q s e))
    (hstep : ∀ s e s', Inv s → P s e → step s e = .ok s' → Inv s') {s : σ} (hs : Inv s)
    (es : List ε) : Along step P s es ↔ Along step Q s es := by
  induction es generalizing s with
  | nil => simp
  | cons e es ih =>
    rw [along_cons, along_cons, hiff s e hs]
    refine and_congr_right fun hQ => forall_congr' fun s' => forall_congr' fun h => ?_
    exact ih (hstep s e s' hs ((hiff s e hs).2 hQ) h)

/-- Two properties of steps that agree under an invariant hold along the same ones of the runs
along `R`, when the steps with the properties `R` and `P` preserve the invariant. -/
theorem along_congr_of {R : σ → ε → Prop} (Inv : σ → Prop)
    (hiff : ∀ s e, Inv s → R s e → (P s e ↔ Q s e))
    (hstep : ∀ s e s', Inv s → R s e → P s e → step s e = .ok s' → Inv s') {s : σ} (hs : Inv s)
    {es : List ε} (hR : Along step R s es) : Along step P s es ↔ Along step Q s es := by
  have h := along_congr Inv (P := fun s e => R s e ∧ P s e) (Q := fun s e => R s e ∧ Q s e)
    (fun s e hi => and_congr_right fun hr => hiff s e hi hr)
    (fun s e s' hi hr => hstep s e s' hi hr.1 hr.2) hs es
  rwa [along_and, along_and, and_congr_right_iff, imp_iff_right hR] at h

/-- A property of steps that follows from the invariant and from `P` holds along every run
along `P`. -/
theorem Along.of_invariant (Inv : σ → Prop) (himp : ∀ s e, Inv s → P s e → Q s e)
    (hstep : ∀ s e s', Inv s → P s e → step s e = .ok s' → Inv s') {s : σ} {es : List ε}
    (hs : Inv s) (hP : Along step P s es) : Along step Q s es := by
  induction es generalizing s with
  | nil => trivial
  | cons e es ih =>
    exact ⟨himp s e hs hP.1, fun s' h => ih (hstep s e s' hs hP.1 h) (hP.2 s' h)⟩

/-- A run none of whose steps fails reaches a state. -/
theorem Along.run_ok {s : σ} {es : List ε}
    (h : Along step (fun s e => ∃ s', step s e = .ok s') s es) : ∃ t, run step s es = .ok t := by
  induction es generalizing s with
  | nil => exact ⟨s, rfl⟩
  | cons e es ih =>
    obtain ⟨⟨s', h₁⟩, h₂⟩ := h
    obtain ⟨t, ht⟩ := ih (h₂ s' h₁)
    exact ⟨t, by rw [run_cons_of_ok h₁, ht]⟩

/-- A run reaches a state that is good if and only if every step does, when no step makes good what
has not been. -/
theorem exists_run_eq_ok_and_iff {Good : σ → Prop}
    (hback : ∀ s e s', step s e = .ok s' → Good s' → Good s) {s : σ} (hs : Good s)
    (es : List ε) : (∃ t, run step s es = .ok t ∧ Good t) ↔
      Along step (fun s e => ∃ s', step s e = .ok s' ∧ Good s') s es := by
  induction es generalizing s with
  | nil => exact iff_of_true ⟨s, rfl, hs⟩ trivial
  | cons e es ih =>
    constructor
    · rintro ⟨t, ht, hgood⟩
      obtain ⟨s', h₁, h₂⟩ := run_cons_eq_ok.1 ht
      have hs' : Good s' := run_ending hback h₂ hgood
      refine ⟨⟨s', h₁, hs'⟩, fun s'' h => ?_⟩
      obtain rfl := Except.ok.inj (h.symm.trans h₁)
      exact (ih hs').1 ⟨t, h₂, hgood⟩
    · rintro ⟨⟨s', h₁, hs'⟩, h₂⟩
      obtain ⟨t, ht, hgood⟩ := (ih hs').2 (h₂ s' h₁)
      exact ⟨t, (run_cons_of_ok h₁ es).trans ht, hgood⟩

/-- What the events of a run are to another machine; it sees at most one event for each. -/
def projected {ε' : Type*} (step : σ → ε → Except φ σ) (proj : σ → ε → Option ε') :
    σ → List ε → List ε'
  | _, [] => []
  | s, e :: es =>
    (proj s e).toList ++ match step s e with
      | .ok s' => projected step proj s' es
      | .error _ => []

theorem run_append {s t : σ} {es : List ε} (h : run step s es = .ok t) (es' : List ε) :
    run step s (es ++ es') = run step t es' := by
  induction es generalizing s with
  | nil =>
    obtain rfl := Except.ok.inj h
    rfl
  | cons e es ih =>
    obtain ⟨s', h₁, h₂⟩ := run_cons_eq_ok.1 h
    rw [List.cons_append, run_cons_of_ok h₁, ih h₂]

theorem Along.append {s t : σ} {es es' : List ε} (hP : Along step P s es)
    (h : run step s es = .ok t) (hP' : Along step P t es') : Along step P s (es ++ es') := by
  induction es generalizing s with
  | nil =>
    obtain rfl := Except.ok.inj h
    exact hP'
  | cons e es ih =>
    obtain ⟨s', h₁, h₂⟩ := run_cons_eq_ok.1 h
    refine ⟨hP.1, fun s'' hs => ?_⟩
    obtain rfl := Except.ok.inj (h₁.symm.trans hs)
    exact ih (hP.2 s' h₁) h₂

theorem run_append_eq_ok {s t : σ} {es es' : List ε} :
    run step s (es ++ es') = .ok t ↔ ∃ s', run step s es = .ok s' ∧ run step s' es' = .ok t := by
  induction es generalizing s with
  | nil => simp [run]
  | cons e es ih =>
    rw [List.cons_append, run, run]
    cases step s e with
    | ok s' => exact ih
    | error f => simp

/-- What every step keeps, of a state and of the events since the start, holds after a run. -/
theorem run_history {s t : σ} {es : List ε} (Inv : List ε → σ → Prop)
    (hstep : ∀ es t e t', run step s es = .ok t → Inv es t → step t e = .ok t' →
      Inv (es ++ [e]) t')
    (hs : Inv [] s) (h : run step s es = .ok t) : Inv es t := by
  induction es using List.reverseRecOn generalizing t with
  | nil => exact Except.ok.inj h ▸ hs
  | append_singleton es e ih =>
    obtain ⟨t₁, h₁, h₂⟩ := run_append_eq_ok.1 h
    obtain ⟨t₂, h₃, h₄⟩ := run_cons_eq_ok.1 h₂
    obtain rfl := Except.ok.inj h₄
    exact hstep es t₁ e t₂ h₁ (ih h₁) h₃

/-- The run from `s` takes the step from `t` to `t'` by the event `e`. -/
def Takes (step : σ → ε → Except φ σ) (s : σ) (es : List ε) (t : σ) (e : ε) (t' : σ) : Prop :=
  ∃ es₁ es₂, es = es₁ ++ e :: es₂ ∧ run step s es₁ = .ok t ∧ step t e = .ok t'

theorem Takes.append {s t t' : σ} {e : ε} {es : List ε} (h : Takes step s es t e t')
    (es' : List ε) : Takes step s (es ++ es') t e t' := by
  obtain ⟨es₁, es₂, rfl, hr, hs⟩ := h
  exact ⟨es₁, es₂ ++ es', by rw [List.append_assoc, List.cons_append], hr, hs⟩

theorem takes_last {s t t' : σ} {e : ε} {es : List ε} (hr : run step s es = .ok t)
    (hs : step t e = .ok t') : Takes step s (es ++ [e]) t e t' := ⟨es, [], rfl, hr, hs⟩

/-- If each step of a machine is a step of another one, or none, then the other one runs along. -/
theorem run_projected {τ ε' ψ : Type*} {step' : τ → ε' → Except ψ τ} {proj : σ → ε → Option ε'}
    (view : σ → τ) (Inv : σ → Prop) (hinv : ∀ s e s', Inv s → step s e = .ok s' → Inv s')
    (hstep : ∀ s e s', Inv s → step s e = .ok s' →
      run step' (view s) (proj s e).toList = .ok (view s'))
    {s t : σ} {es : List ε} (hs : Inv s) (h : run step s es = .ok t) :
    run step' (view s) (projected step proj s es) = .ok (view t) := by
  induction es generalizing s with
  | nil =>
    obtain rfl := Except.ok.inj h
    rfl
  | cons e es ih =>
    obtain ⟨s', h₁, h₂⟩ := run_cons_eq_ok.1 h
    rw [projected, h₁, run_append (hstep s e s' hs h₁)]
    exact ih (hinv s e s' hs h₁) h₂

/-- Some run leads from one state to the other. -/
def Leads (step : σ → ε → Except φ σ) (s t : σ) : Prop := ∃ es, run step s es = .ok t

namespace Leads

theorem refl (s : σ) : Leads step s s := ⟨[], rfl⟩

theorem single {s t : σ} {e : ε} (h : step s e = .ok t) : Leads step s t := ⟨[e], run_singleton h⟩

theorem trans {s t u : σ} (h : Leads step s t) (h' : Leads step t u) : Leads step s u := by
  obtain ⟨es, hr⟩ := h
  obtain ⟨es', hr'⟩ := h'
  exact ⟨es ++ es', (run_append hr es').trans hr'⟩

end Leads

end Mdswp
