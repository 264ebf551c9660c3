import Mathlib.Data.List.Induction

/-!
# Runs of a labelled transition system

A system is a step relation between states, with a label that says which call
was made and what it returned.  `Trace step s es s'` is a run from `s` to `s'`
with the labels `es` in order.

`Trace.invariant` is the rule for safety over whole runs: what holds at the
start and is kept by a step holds at the end.  `Trace.simulate` is forward
simulation: when every step of one system is a step of another with the same
label, every run of the first is a run of the second.  `Trace.split` cuts a run.

`execute` runs a list of labels when a step is a function, and
`Trace.of_execute` says that this is a run.
-/

variable {σ τ ℓ : Type*}

/-- A run from the first state to the second. -/
inductive Trace (step : σ → ℓ → σ → Prop) (s : σ) : List ℓ → σ → Prop
  | nil : Trace step s [] s
  | snoc {es : List ℓ} {s' s'' : σ} {e : ℓ} : Trace step s es s' → step s' e s'' →
      Trace step s (es ++ [e]) s''

variable {step : σ → ℓ → σ → Prop} {step' : τ → ℓ → τ → Prop} {s s' : σ} {t : τ} {es : List ℓ}

theorem Trace.single {e : ℓ} (h : step s e s') : Trace step s [e] s' := .snoc .nil h

/-- **Invariants.** -/
theorem Trace.invariant {I : σ → Prop} (h : Trace step s es s') (hs : I s)
    (hstep : ∀ s e s', I s → step s e s' → I s') : I s' := by
  induction h with
  | nil => exact hs
  | snoc _ he ih => exact hstep _ _ _ ih he

/-- **Forward simulation.** -/
theorem Trace.simulate {R : σ → τ → Prop} (h : Trace step s es s') (hR : R s t)
    (hstep : ∀ s e s' t, R s t → step s e s' → ∃ t', step' t e t' ∧ R s' t') :
    ∃ t', Trace step' t es t' ∧ R s' t' := by
  induction h with
  | nil => exact ⟨t, .nil, hR⟩
  | snoc _ he ih =>
    obtain ⟨t₁, h₁, hR₁⟩ := ih
    obtain ⟨t₂, h₂, hR₂⟩ := hstep _ _ _ _ hR₁ he
    exact ⟨t₂, .snoc h₁ h₂, hR₂⟩

theorem Trace.mono {more : σ → ℓ → σ → Prop} (h : Trace step s es s')
    (hstep : ∀ s e s', step s e s' → more s e s') : Trace more s es s' := by
  induction h with
  | nil => exact .nil
  | snoc _ he ih => exact .snoc ih (hstep _ _ _ he)

theorem Trace.invariant_of {I : σ → Prop} (h : Trace step s es s') (hs : I s)
    (hstep : ∀ s e s', e ∈ es → I s → step s e s' → I s') : I s' := by
  induction h with
  | nil => exact hs
  | snoc _ he ih =>
    exact hstep _ _ _ (by simp) (ih fun s e s' hm => hstep s e s' (by simp [hm])) he

theorem Trace.history {I : List ℓ → σ → Prop} (h : Trace step s es s') (hs : I [] s)
    (hstep : ∀ es s e s', I es s → step s e s' → I (es ++ [e]) s') : I es s' := by
  induction h with
  | nil => exact hs
  | snoc _ he ih => exact hstep _ _ _ _ ih he

theorem Trace.unsnoc {e : ℓ} (h : Trace step s (es ++ [e]) s') :
    ∃ s₁, Trace step s es s₁ ∧ step s₁ e s' := by
  generalize hl : es ++ [e] = l at h
  cases h with
  | nil => simp at hl
  | snoc h he =>
    obtain ⟨rfl, rfl⟩ := List.append_singleton_inj.mp hl
    exact ⟨_, h, he⟩

theorem Trace.split {es' : List ℓ} (h : Trace step s (es ++ es') s') :
    ∃ s₁, Trace step s es s₁ ∧ Trace step s₁ es' s' := by
  induction es' using List.reverseRecOn generalizing s' with
  | nil => exact ⟨s', by simpa using h, .nil⟩
  | append_singleton es' e ih =>
    rw [← List.append_assoc] at h
    obtain ⟨s₂, h₂, he⟩ := h.unsnoc
    obtain ⟨s₁, h₁, h₃⟩ := ih h₂
    exact ⟨s₁, h₁, .snoc h₃ he⟩

theorem Trace.uncons {e : ℓ} (h : Trace step s (e :: es) s') :
    ∃ s₁, step s e s₁ ∧ Trace step s₁ es s' := by
  rw [← List.singleton_append] at h
  obtain ⟨s₁, h₁, h₂⟩ := h.split
  rw [← List.nil_append [e]] at h₁
  obtain ⟨s₂, h₃, he⟩ := h₁.unsnoc
  generalize hl : ([] : List ℓ) = l at h₃
  cases h₃ with
  | nil => exact ⟨s₁, he, h₂⟩
  | snoc _ _ => simp at hl

theorem Trace.append {es' : List ℓ} {s'' : σ} (h : Trace step s es s') (h' : Trace step s' es' s'') :
    Trace step s (es ++ es') s'' := by
  induction h' with
  | nil => simpa using h
  | snoc _ he ih =>
    rw [← List.append_assoc]
    exact .snoc ih he

/-- The calls of a list, one after the other. -/
def execute (f : ℓ → σ → Option σ) : List ℓ → σ → Option σ
  | [], s => some s
  | e :: es, s => (f e s).bind (execute f es)

theorem execute_append (f : ℓ → σ → Option σ) : ∀ (es es' : List ℓ) (s : σ),
    execute f (es ++ es') s = (execute f es s).bind (execute f es') := by
  intro es es'
  induction es with
  | nil =>
    intro s
    rfl
  | cons e es ih =>
    intro s
    rw [List.cons_append, execute, execute, Option.bind_assoc]
    exact congrArg _ (funext ih)

theorem execute_concat {f : ℓ → σ → Option σ} {e : ℓ} (h : execute f (es ++ [e]) s = some s') :
    ∃ s₁, execute f es s = some s₁ ∧ f e s₁ = some s' := by
  rw [execute_append] at h
  obtain ⟨s₁, h₁, he⟩ := Option.bind_eq_some_iff.mp h
  exact ⟨s₁, h₁, by simpa [execute] using he⟩

theorem Trace.of_execute {f : ℓ → σ → Option σ} (hf : ∀ e s s', f e s = some s' → step s e s')
    (h : execute f es s = some s') : Trace step s es s' := by
  induction es generalizing s with
  | nil =>
    obtain rfl := Option.some.inj h
    exact .nil
  | cons e es ih =>
    obtain ⟨s₁, h₁, h⟩ := Option.bind_eq_some_iff.mp h
    exact (Trace.single (hf e s s₁ h₁)).append (ih h)
