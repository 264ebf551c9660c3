import Mathlib.Algebra.BigOperators.Group.List.Basic
import Mathlib.Tactic.Linarith

/-!
# Nests of calls

Every call of a list opens brackets, closes them, or does neither: `δ` is by how
much the depth changes.  `height δ es` is the depth behind the calls `es`.  A
`Level` list ends where it began and never goes below, and a `Nest` is one
outermost pair of brackets with what is between them: the depth is positive
from the first call to the last.  `Level.bracket` makes the second from the
first.

`height_descends` is the intermediate value theorem for depths: a list that
passes a depth and comes back closes a bracket there.
-/

variable {ℓ : Type*} {δ : ℓ → ℤ} {es es' p : List ℓ} {e c : ℓ}

/-- The depth behind the calls of a list. -/
def height (δ : ℓ → ℤ) (es : List ℓ) : ℤ := (es.map δ).sum

@[simp] theorem height_nil : height δ [] = 0 := rfl

@[simp] theorem height_cons : height δ (e :: es) = δ e + height δ es := by
  simp [height]

@[simp] theorem height_append : height δ (es ++ es') = height δ es + height δ es' := by
  simp [height]

theorem height_le_length (hδ : ∀ e, δ e ≤ 1) : ∀ es : List ℓ, height δ es ≤ es.length := by
  intro es
  induction es with
  | nil => exact le_rfl
  | cons e es ih =>
    have := hδ e
    rw [height_cons, List.length_cons]
    omega

/-- The depth comes back and is never below the start. -/
structure Level (δ : ℓ → ℤ) (es : List ℓ) : Prop where
  above : ∀ p, p <+: es → 0 ≤ height δ p
  back : height δ es = 0

/-- One outermost pair of brackets. -/
structure IsNest (δ : ℓ → ℤ) (es : List ℓ) : Prop where
  opens : ∃ e t, es = e :: t ∧ 0 < δ e
  inside : ∀ p, p <+: es → p ≠ [] → p ≠ es → 0 < height δ p
  back : height δ es = 0

theorem Level.nil : Level δ [] := by
  refine ⟨?_, rfl⟩
  intro p hp
  rw [List.prefix_nil.mp hp, height_nil]

theorem Level.append (h : Level δ es) (h' : Level δ es') : Level δ (es ++ es') := by
  refine ⟨?_, by rw [height_append, h.back, h'.back, add_zero]⟩
  intro p hp
  rcases List.prefix_or_prefix_of_prefix hp (List.prefix_append es es') with hp' | ⟨q, rfl⟩
  · exact h.above p hp'
  · rw [height_append, h.back, zero_add]
    exact h'.above q ((List.prefix_append_right_inj es).mp hp)

theorem Level.single (h : δ e = 0) : Level δ [e] := by
  refine ⟨?_, by simp [h]⟩
  intro p hp
  rcases List.prefix_cons_iff.mp hp with rfl | ⟨t, rfl, ht⟩
  · exact le_rfl
  · rw [List.prefix_nil.mp ht, height_cons, h, height_nil, add_zero]

/-- **Brackets around a level list are a nest.** -/
theorem Level.bracket (h : Level δ es) (ho : δ e = 1) (hc : δ c = -1) :
    IsNest δ (e :: (es ++ [c])) := by
  refine ⟨⟨e, _, rfl, by omega⟩, ?_, by simp [h.back, ho, hc]⟩
  intro p hp hne hall
  rcases List.prefix_cons_iff.mp hp with rfl | ⟨q, rfl, hq⟩
  · exact absurd rfl hne
  · have hq' : q <+: es := by
      rcases List.prefix_concat_iff.mp hq with rfl | hq'
      · exact absurd rfl hall
      · exact hq'
    have := h.above q hq'
    rw [height_cons, ho]
    omega

theorem IsNest.level (h : IsNest δ es) : Level δ es := by
  refine ⟨?_, h.back⟩
  intro p hp
  by_cases hne : p = []
  · rw [hne, height_nil]
  by_cases hall : p = es
  · rw [hall, h.back]
  · exact (h.inside p hp hne hall).le

theorem IsNest.closes (h : IsNest δ (es ++ [c])) : es ≠ [] ∧ δ c < 0 := by
  have hback := h.back
  have hne : es ≠ [] := by
    rintro rfl
    obtain ⟨e, t, he, hopen⟩ := h.opens
    obtain ⟨rfl, -⟩ := List.cons.inj he
    simp only [List.nil_append, height_cons, height_nil] at hback
    omega
  have hinside := h.inside es (List.prefix_append _ _) hne (by simp)
  simp only [height_append, height_cons, height_nil] at hback
  exact ⟨hne, by omega⟩

/-- **Depths that are passed are met again on the way down.** -/
theorem height_descends {k : ℤ} (hδ : ∀ e, -1 ≤ δ e) : ∀ (t p : List ℓ), k < height δ p →
    height δ (p ++ t) < k →
    ∃ r c, r ++ [c] <+: p ++ t ∧ δ c = -1 ∧ height δ (r ++ [c]) = k := by
  intro t
  induction t with
  | nil =>
    intro p hp ht
    rw [List.append_nil] at ht
    exact absurd (hp.trans ht) (lt_irrefl _)
  | cons e t ih =>
    intro p hp ht
    have hassoc : p ++ e :: t = (p ++ [e]) ++ t := by simp
    rw [hassoc] at ht ⊢
    have he := hδ e
    have hstep : height δ (p ++ [e]) = height δ p + δ e := by simp
    by_cases hk : k < height δ (p ++ [e])
    · exact ih _ hk ht
    · exact ⟨p, e, List.prefix_append _ _, by omega, by omega⟩
