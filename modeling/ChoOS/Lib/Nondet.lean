import Mathlib.Tactic.Common

/-!
# Nondeterministic programs with faults

A program gives, from each state, the outcomes that it may have: a result with the
state after it, or a fault.  This is for code that runs beside something else that
may act between any two of its steps: the steps of the other side are programs, too,
and stand between those of the code.

`Prog.wp` is the demonic side: whatever happens, there is no fault and the
postcondition holds.  `wp_pure`, `wp_bind`, `wp_choose` and `wp_mono` are its rules.
`bind_some` and `choose_some` are the other side, to show that an outcome may happen.
-/

/-- The outcomes from a state; `none` is a fault. -/
def Prog (σ α : Type) := σ → Option (α × σ) → Prop

namespace Prog

variable {σ α β : Type}

instance : Monad (Prog σ) where
  pure a := fun s o => o = some (a, s)
  bind p f := fun s o => (p s none ∧ o = none) ∨ ∃ a s', p s (some (a, s')) ∧ f a s' o

/-- The program always faults. -/
def fault : Prog σ α := fun _ o => o = none

/-- One of the results and states that are allowed. -/
def choose (R : σ → α → σ → Prop) : Prog σ α := fun s o => ∃ a s', R s a s' ∧ o = some (a, s')

/-- A function of the state. -/
def read (f : σ → α) : Prog σ α := fun s o => o = some (f s, s)

/-- The state is changed. -/
def update (f : σ → σ) : Prog σ Unit := fun s o => o = some ((), f s)

/-- **Whatever the outcome**, it is no fault, and `Q` holds of it. -/
def wp (p : Prog σ α) (Q : α → σ → Prop) (s : σ) : Prop :=
  ∀ o, p s o → ∃ a s', o = some (a, s') ∧ Q a s'

variable {p : Prog σ α} {f : α → Prog σ β} {Q Q' : α → σ → Prop} {s s' : σ} {a : α}

theorem wp_pure (h : Q a s) : wp (pure a : Prog σ α) Q s := by
  rintro o rfl
  exact ⟨a, s, rfl, h⟩

theorem wp_bind {Q : β → σ → Prop} (h : wp p (fun a => wp (f a) Q) s) : wp (p >>= f) Q s := by
  rintro o (⟨hfault, rfl⟩ | ⟨a, s', hp, hf⟩)
  · obtain ⟨a, s', heq, -⟩ := h none hfault
    cases heq
  · obtain ⟨a', s'', heq, hwp⟩ := h _ hp
    obtain ⟨rfl, rfl⟩ := Prod.mk.inj (Option.some.inj heq)
    exact hwp o hf

theorem wp_mono (h : wp p Q s) (hQ : ∀ a s', Q a s' → Q' a s') : wp p Q' s := by
  intro o ho
  obtain ⟨a, s', heq, hq⟩ := h o ho
  exact ⟨a, s', heq, hQ a s' hq⟩

theorem wp_choose {R : σ → α → σ → Prop} (h : ∀ a s', R s a s' → Q a s') :
    wp (choose R) Q s := by
  rintro o ⟨a, s', hR, rfl⟩
  exact ⟨a, s', rfl, h a s' hR⟩

theorem wp_read {f : σ → α} (h : Q (f s) s) : wp (read f) Q s := by
  rintro o rfl
  exact ⟨_, s, rfl, h⟩

theorem wp_update {f : σ → σ} {Q : Unit → σ → Prop} (h : Q () (f s)) : wp (update f) Q s := by
  rintro o rfl
  exact ⟨(), _, rfl, h⟩

theorem bind_some {o : Option (β × σ)} (hp : p s (some (a, s'))) (hf : f a s' o) :
    (p >>= f) s o := .inr ⟨a, s', hp, hf⟩

theorem choose_some {R : σ → α → σ → Prop} (h : R s a s') : choose R s (some (a, s')) :=
  ⟨a, s', h, rfl⟩

end Prog
