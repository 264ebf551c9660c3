import Mathlib.Data.List.Nodup
import Mathlib.Logic.Function.Iterate
import Mathlib.Tactic.Common

/-!
# Linked segments

A linked list in memory is a `next` pointer for every node.  `Seg next a l b`
says that following `next` from `a` visits the nodes of `l`, in order, and then
stands at `b`; a `NULL`-terminated list is a segment that ends at `NULL`.

Edits of a list are local in this view.  `seg_append` cuts a segment at any
node, `Seg.congr` moves it to another `next` that agrees on its nodes, and
`seg_append_cons` puts the pieces together again.  A segment whose end is not
one of its own nodes has no cycle: `Seg.unique` says it is the only one between
its ends, and `Seg.nodup` that it never visits a node twice.

`follow` is the loop that walks such a list until a test holds, `Seg.follow_eq`
what it returns.  `Seg.le` and `Seg.apart` are for lists whose `next`
always moves up by a fixed amount.
-/

variable {α : Type*}

/-- Following `next` from `a` visits exactly the nodes `l` and then stands at `b`. -/
def Seg (next : α → α) : α → List α → α → Prop
  | a, [], b => a = b
  | a, x :: l, b => a = x ∧ Seg next (next x) l b

variable {next next' : α → α} {a b c x y : α} {l l₁ l₂ : List α}

@[simp] theorem seg_nil : Seg next a [] b ↔ a = b := Iff.rfl

@[simp] theorem seg_cons : Seg next a (x :: l) b ↔ a = x ∧ Seg next (next x) l b := Iff.rfl

theorem Seg.iterate (h : Seg next a l b) : next^[l.length] a = b := by
  induction l generalizing a with
  | nil => exact h
  | cons x r ih =>
    obtain ⟨rfl, h⟩ := h
    rw [List.length_cons, Function.iterate_succ_apply]
    exact ih h

theorem Seg.iterate_getElem (h : Seg next a l b) (i : Nat) (hi : i < l.length) :
    next^[i] a = l[i] := by
  induction l generalizing a i with
  | nil => simp at hi
  | cons x r ih =>
    obtain ⟨rfl, h⟩ := h
    cases i with
    | zero => rfl
    | succ i =>
      rw [Function.iterate_succ_apply]
      exact ih h i (by simpa using hi)

theorem seg_append :
    Seg next a (l₁ ++ l₂) c ↔ ∃ b, Seg next a l₁ b ∧ Seg next b l₂ c := by
  induction l₁ generalizing a with
  | nil => simp
  | cons x r ih =>
    simp only [List.cons_append, seg_cons, ih]
    constructor
    · rintro ⟨rfl, b, h1, h2⟩
      exact ⟨b, ⟨rfl, h1⟩, h2⟩
    · rintro ⟨b, ⟨rfl, h1⟩, h2⟩
      exact ⟨rfl, b, h1, h2⟩

theorem seg_append_cons :
    Seg next a (l₁ ++ x :: l₂) c ↔ Seg next a l₁ x ∧ Seg next (next x) l₂ c := by
  rw [seg_append]
  constructor
  · rintro ⟨b, h1, rfl, h2⟩
    exact ⟨h1, h2⟩
  · rintro ⟨h1, h2⟩
    exact ⟨x, h1, rfl, h2⟩

theorem Seg.cut {mid : List α} (h : Seg next a (l₁ ++ mid ++ l₂) c) (hm : Seg next b mid x)
    (hne : mid ≠ []) : Seg next a l₁ b ∧ Seg next x l₂ c := by
  rw [List.append_assoc] at h
  obtain ⟨b', h1, h2⟩ := seg_append.mp h
  obtain ⟨x', h2, h3⟩ := seg_append.mp h2
  cases mid with
  | nil => exact absurd rfl hne
  | cons o r =>
    obtain ⟨rfl, h2⟩ := h2
    obtain ⟨rfl, hm⟩ := hm
    refine ⟨h1, ?_⟩
    -- the same walk from the same place ends at the same node
    rwa [← hm.iterate, h2.iterate]

theorem Seg.congr (h : Seg next a l b) (hn : ∀ x ∈ l, next' x = next x) :
    Seg next' a l b := by
  induction l generalizing a with
  | nil => exact h
  | cons x r ih =>
    refine ⟨h.1, ?_⟩
    rw [hn x (by simp)]
    exact ih h.2 (fun y hy => hn y (by simp [hy]))

theorem Seg.start_eq (h : Seg next a l b) : a = l.headD b := by
  cases l with
  | nil => exact h
  | cons x r => exact h.1

theorem Seg.next_mem (h : Seg next a l b) (hx : x ∈ l) : next x = b ∨ next x ∈ l := by
  obtain ⟨l₁, l₂, rfl⟩ := List.append_of_mem hx
  have hnext := (seg_append_cons.mp h).2
  cases l₂ with
  | nil => exact .inl hnext
  | cons y r =>
    right
    rw [hnext.1]
    simp

theorem Seg.eq_next_of_concat (h : Seg next a (l ++ [x]) b) : next x = b :=
  (seg_append_cons.mp h).2

/-- A new node behind the last one: only the `next` of these two changes. -/
theorem Seg.concat (h : Seg next a (l ++ [x]) b) (hl : ∀ z ∈ l, next' z = next z)
    (hx : next' x = y) (hy : next' y = c) : Seg next' a (l ++ [x] ++ [y]) c := by
  have hseg : Seg next' a (l ++ [x]) y :=
    seg_append_cons.mpr ⟨(seg_append_cons.mp h).1.congr hl, hx⟩
  exact seg_append_cons.mpr ⟨hseg, hy⟩

/-! ### Segments without a cycle -/

theorem Seg.eq_nil_iff (h : Seg next a l b) (hb : b ∉ l) : a = b ↔ l = [] := by
  cases l with
  | nil => simpa using h
  | cons x r =>
    obtain ⟨rfl, _⟩ := h
    simp only [List.mem_cons, not_or] at hb
    simp [Ne.symm hb.1]

theorem Seg.unique (h₁ : Seg next a l₁ b) (h₂ : Seg next a l₂ b) (n₁ : b ∉ l₁) (n₂ : b ∉ l₂) :
    l₁ = l₂ := by
  induction l₁ generalizing a l₂ with
  | nil =>
    cases l₂ with
    | nil => rfl
    | cons y s =>
      obtain ⟨rfl, _⟩ := h₂
      exact absurd (h₁ ▸ List.mem_cons_self) n₂
  | cons x r ih =>
    obtain ⟨rfl, h₁⟩ := h₁
    cases l₂ with
    | nil => exact absurd (h₂ ▸ List.mem_cons_self) n₁
    | cons y s =>
      obtain ⟨rfl, h₂⟩ := h₂
      rw [ih h₁ h₂ (fun h => n₁ (List.mem_cons_of_mem _ h))
        (fun h => n₂ (List.mem_cons_of_mem _ h))]

theorem Seg.nodup (h : Seg next a l b) (hb : b ∉ l) : l.Nodup := by
  induction l generalizing a with
  | nil => exact List.nodup_nil
  | cons x r ih =>
    have hbr : b ∉ r := fun hm => hb (List.mem_cons_of_mem _ hm)
    refine List.nodup_cons.mpr ⟨fun hx => ?_, ih h.2 hbr⟩
    -- a second visit of `x` would start the same walk with fewer nodes left
    obtain ⟨r₁, r₂, rfl⟩ := List.append_of_mem hx
    have htail : Seg next (next x) r₂ b := (seg_append_cons.mp h.2).2
    have hlen := congrArg List.length (htail.unique h.2
      (fun hm => hbr (List.mem_append_right _ (List.mem_cons_of_mem _ hm))) hbr)
    simp only [List.length_append, List.length_cons] at hlen
    omega

/-! ### Walking until a test holds -/

/-- Follow `next` until `stop` holds; `none` when `fuel` nodes did not stop it. -/
def follow (next : α → α) (stop : α → Bool) : Nat → α → Option α
  | 0, _ => none
  | fuel + 1, a => if stop a then some a else follow next stop fuel (next a)

/-- **The walk stops at the first node that passes the test.** -/
theorem Seg.follow_eq {stop : α → Bool} {fuel : Nat} (h : Seg next a l b)
    (hl : ∀ x ∈ l, stop x = false) (hb : stop b = true) (hf : l.length < fuel) :
    follow next stop fuel a = some b := by
  induction l generalizing a fuel with
  | nil =>
    obtain rfl : a = b := h
    cases fuel with
    | zero => simp at hf
    | succ n => rw [follow, if_pos hb]
  | cons x r ih =>
    obtain ⟨rfl, h⟩ := h
    cases fuel with
    | zero => simp at hf
    | succ n =>
      rw [follow, if_neg (by simp [hl a (by simp)])]
      exact ih h (fun y hy => hl y (by simp [hy])) (by simpa using hf)

theorem follow_mono {stop : α → Bool} : ∀ (n k : Nat) (x y : α),
    follow next stop n x = some y → follow next stop (n + k) x = some y := by
  intro n
  induction n with
  | zero =>
    intro k x y h
    cases h
  | succ n ih =>
    intro k x y h
    rw [Nat.add_right_comm]
    rw [follow] at h ⊢
    split at h
    · rw [if_pos ‹_›]
      exact h
    · rw [if_neg ‹_›]
      exact ih k _ _ h

theorem Seg.follow_first {stop : α → Bool} {fuel : Nat} (h : Seg next a (l₁ ++ b :: l₂) c)
    (hn : (l₁ ++ b :: l₂).Nodup) (hf : follow next stop fuel a = some b) :
    ∀ x ∈ l₁, stop x = false := by
  induction l₁ generalizing a fuel with
  | nil => exact fun x hx => absurd hx List.not_mem_nil
  | cons y l₁ ih =>
    obtain ⟨rfl, h⟩ := h
    rw [List.cons_append, List.nodup_cons] at hn
    cases fuel with
    | zero => cases hf
    | succ fuel =>
      rw [follow] at hf
      split at hf
      · obtain rfl := Option.some.inj hf
        exact absurd (by simp) hn.1
      · rename_i hstop
        intro x hx
        rcases List.mem_cons.mp hx with rfl | hx
        · simpa using hstop
        · exact ih h hn.2 hf x hx

/-! ### Segments that move up -/

section Order

variable {next : Nat → Nat} {a b x y k : Nat} {l l₁ l₂ : List Nat}

theorem Seg.le (h : Seg next a l b) (hk : ∀ x ∈ l, x + k ≤ next x) : a + k * l.length ≤ b := by
  induction l generalizing a with
  | nil => simp [seg_nil.mp h]
  | cons x r ih =>
    obtain ⟨rfl, h⟩ := h
    have h1 := hk a (by simp)
    have h2 := ih h (fun y hy => hk y (by simp [hy]))
    rw [List.length_cons, Nat.mul_succ]
    omega

theorem Seg.mem_bounds (h : Seg next a l b) (hk : ∀ x ∈ l, x + k ≤ next x) (hx : x ∈ l) :
    a ≤ x ∧ next x ≤ b := by
  obtain ⟨l₁, l₂, rfl⟩ := List.append_of_mem hx
  obtain ⟨h1, h2⟩ := seg_append_cons.mp h
  have := h1.le (fun y hy => hk y (by simp [hy]))
  have := h2.le (fun y hy => hk y (by simp [hy]))
  constructor
  · exact Nat.le_trans (Nat.le_add_right _ _) ‹_›
  · exact Nat.le_trans (Nat.le_add_right _ _) ‹_›

theorem Seg.exists_mem (h : Seg next a l b) (h1 : a ≤ x) (h2 : x < b) :
    ∃ y ∈ l, y ≤ x ∧ x < next y := by
  induction l generalizing a with
  | nil =>
    obtain rfl : a = b := h
    omega
  | cons z r ih =>
    obtain ⟨rfl, h⟩ := h
    by_cases hx : x < next a
    · exact ⟨a, by simp, h1, hx⟩
    · obtain ⟨y, hy, hyx⟩ := ih h (by omega)
      exact ⟨y, by simp [hy], hyx⟩

theorem Seg.apart (h : Seg next a l b) (hk : ∀ x ∈ l, x + k ≤ next x) (hx : x ∈ l)
    (hy : y ∈ l) (hne : x ≠ y) : next x ≤ y ∨ next y ≤ x := by
  obtain ⟨l₁, l₂, rfl⟩ := List.append_of_mem hx
  obtain ⟨h1, h2⟩ := seg_append_cons.mp h
  rcases List.mem_append.mp hy with hy | hy
  · exact Or.inr (h1.mem_bounds (fun z hz => hk z (by simp [hz])) hy).2
  · rcases List.mem_cons.mp hy with rfl | hy
    · exact absurd rfl hne
    · exact Or.inl (h2.mem_bounds (fun z hz => hk z (by simp [hz])) hy).1

theorem Seg.pairwise_lt (h : Seg next a l b) (hk : ∀ x ∈ l, x + k ≤ next x) (hpos : 0 < k) :
    l.Pairwise (· < ·) := by
  induction l generalizing a with
  | nil => exact List.Pairwise.nil
  | cons x r ih =>
    refine List.pairwise_cons.mpr ⟨fun y hy => ?_, ih h.2 (fun y hy => hk y (by simp [hy]))⟩
    have h1 := hk x (by simp)
    have h2 := (h.2.mem_bounds (fun z hz => hk z (by simp [hz])) hy).1
    omega

end Order
