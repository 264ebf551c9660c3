import ChoOS.Heap.Invariant
import Mathlib.Data.List.Chain

/-!
# The block list without the bytes

A `Listing` is what is left of a heap when the bytes are forgotten: where the
blocks are, where the break is, and which pointers are live.  `HeapInv` makes
the flags a matter of the live pointers, so a block of the listing is `FREE`
when the pointer behind its header is not live.

The calls act on a listing in three ways.  `Alloc` takes a free block, whole or
with the rest split off, or grows the list by the old end block.  `Dealloc`
frees a block and joins it with its free neighbours.  `Resize` is `krealloc` in
place, which may split off the rest of a block in use.  `Spec.lean` shows that
the code does exactly these.

Two properties of the list are looked at: `Aligned`, all addresses divisible by
eight, and `Coalesced`, no two neighbours free.  `Alloc` and `Dealloc` keep both.
`Resize` keeps `Aligned` if and only if it does not split or the size is aligned
(`Resize.aligned_iff`), and `Coalesced` if and only if it does not split or the
block behind is in use (`Resize.coalesced_iff`).
-/

namespace ChoOS

structure Listing where
  blocks : List Nat
  brk : Nat
  live : Live

/-- The list behind a freed block: without its first block, when that is free. -/
def dropFree (live : Live) : List Nat → List Nat
  | [] => []
  | c :: l => if (live (c + 8)).isSome then c :: l else l

/-- The list up to a freed block `b`: without `b`, when the block before it is free. -/
def joinFree (live : Live) (l : List Nat) (b : Nat) : List Nat :=
  match l.getLast? with
  | none => [b]
  | some p => if (live (p + 8)).isSome then l ++ [b] else l

namespace Listing

/-- An allocation of `size` bytes, with its result. -/
inductive Alloc (size : Nat) (L : Listing) : Nat → Listing → Prop
  | null : Alloc size L 0 L
  | whole {b : Nat} : b ∈ L.blocks → L.live (b + 8) = none →
      Alloc size L (b + 8) { L with live := Function.update L.live (b + 8) (some size) }
  | split {l₁ l₂ : List Nat} {b : Nat} : L.blocks = l₁ ++ b :: l₂ → L.live (b + 8) = none →
      Alloc size L (b + 8) { L with
        blocks := l₁ ++ b :: (b + 8 + align size) :: l₂
        live := Function.update L.live (b + 8) (some size) }
  | grown : Alloc size L L.brk
      { blocks := L.blocks ++ [L.brk - 8]
        brk := L.brk + (align size + 8)
        live := Function.update L.live L.brk (some size) }

/-- `kfree`. -/
inductive Dealloc (L : Listing) : Nat → Listing → Prop
  | freed {l₁ l₂ : List Nat} {b : Nat} : L.blocks = l₁ ++ b :: l₂ →
      Dealloc L (b + 8) { L with
        blocks := joinFree L.live l₁ b ++ dropFree L.live l₂
        live := Function.update L.live (b + 8) none }

/-- `krealloc` in place; `splits` says that the rest becomes a block. -/
inductive Resize (size : Nat) (splits : Prop) (L : Listing) : Nat → Listing → Prop
  | whole {b : Nat} : b ∈ L.blocks → ¬ splits →
      Resize size splits L (b + 8) { L with live := Function.update L.live (b + 8) (some size) }
  | split {l₁ l₂ : List Nat} {b : Nat} : L.blocks = l₁ ++ b :: l₂ → splits →
      L.live (b + 8 + size + 8) = none →
      Resize size splits L (b + 8) { L with
        blocks := l₁ ++ b :: (b + 8 + size) :: l₂
        live := Function.update L.live (b + 8) (some size) }

/-- `krealloc` of a live pointer to `size > 0` bytes, with its result. -/
inductive Realloc (ptr size : Nat) (splits : Prop) (L : Listing) : Nat → Listing → Prop
  | failed : ¬ splits → Realloc ptr size splits L 0 L
  | inPlace {L' : Listing} : L.Resize size splits ptr L' → Realloc ptr size splits L ptr L'
  | moved {L₁ L' : Listing} {r : Nat} : ¬ splits → r ≠ 0 → ptr ≠ r → L.Alloc size r L₁ →
      L₁.blocks.Nodup → L₁.Dealloc ptr L' → Realloc ptr size splits L r L'

variable {L L' : Listing} {size r ptr : Nat} {splits : Prop}

theorem Alloc.live_eq (ha : L.Alloc size r L') (hr : r ≠ 0) :
    L'.live = Function.update L.live r (some size) := by
  cases ha with
  | null => exact absurd rfl hr
  | whole _ _ => rfl
  | split _ _ => rfl
  | grown => rfl

theorem Alloc.mem_blocks {c : Nat} (ha : L.Alloc size r L') (hc : c ∈ L'.blocks) :
    c ∈ L.blocks ∨ c = r + align size ∨ c = L.brk - 8 := by
  cases ha with
  | null => exact .inl hc
  | whole _ _ => exact .inl hc
  | split hbs _ =>
    rw [hbs]
    simp only [List.mem_append, List.mem_cons] at hc ⊢
    tauto
  | grown =>
    simp only [List.mem_append, List.mem_singleton] at hc
    tauto

theorem Alloc.brk_le (ha : L.Alloc size r L') : L.brk ≤ L'.brk := by
  cases ha with
  | null => exact le_rfl
  | whole _ _ => exact le_rfl
  | split _ _ => exact le_rfl
  | grown => exact Nat.le_add_right _ _

theorem Dealloc.live_eq (hd : L.Dealloc ptr L') : L'.live = Function.update L.live ptr none := by
  cases hd
  rfl

theorem Resize.live_eq (hr : L.Resize size splits ptr L') :
    L'.live = Function.update L.live ptr (some size) := by
  cases hr <;> rfl

/-! ### Alignment -/

/-- All headers are at addresses divisible by eight, the end block's included. -/
structure Aligned (L : Listing) : Prop where
  blocks : ∀ b ∈ L.blocks, b % 8 = 0
  brk : L.brk % 8 = 0

theorem align_mod (size : Nat) : align size % 8 = 0 := Nat.mul_mod_left _ _

theorem mem_insert {l₁ l₂ : List Nat} {b c x : Nat} :
    x ∈ l₁ ++ b :: c :: l₂ ↔ x = c ∨ x ∈ l₁ ++ b :: l₂ := by
  simp only [List.mem_append, List.mem_cons]
  tauto

theorem mem_of_dropFree {live : Live} {l : List Nat} {x : Nat} (h : x ∈ dropFree live l) :
    x ∈ l := by
  cases l with
  | nil => exact h
  | cons c l =>
    rw [dropFree] at h
    split at h
    · exact h
    · exact List.mem_cons_of_mem c h

theorem mem_of_joinFree {live : Live} {l : List Nat} {b x : Nat} (h : x ∈ joinFree live l b) :
    x ∈ l ∨ x = b := by
  rw [joinFree] at h
  split at h
  · exact .inr (List.mem_singleton.mp h)
  · split at h
    · exact (List.mem_append.mp h).imp_right List.mem_singleton.mp
    · exact .inl h

theorem Alloc.aligned (ha : L.Alloc size r L') (h : L.Aligned) : L'.Aligned := by
  have hal := align_mod size
  cases ha with
  | null => exact h
  | whole _ _ => exact ⟨h.blocks, h.brk⟩
  | @split l₁ l₂ b hl _ =>
    have hb := h.blocks b (by simp [hl])
    refine ⟨fun x hx => ?_, h.brk⟩
    rcases mem_insert.mp hx with rfl | hx
    · omega
    · exact h.blocks x (hl ▸ hx)
  | grown =>
    have hbrk := h.brk
    refine ⟨fun x hx => ?_, ?_⟩
    · rcases List.mem_append.mp hx with hx | hx
      · exact h.blocks x hx
      · rw [List.mem_singleton.mp hx]
        omega
    · change (L.brk + (align size + 8)) % 8 = 0
      omega

theorem Dealloc.blocks_subset (hd : L.Dealloc ptr L') : L'.blocks ⊆ L.blocks := by
  intro x hx
  cases hd with
  | @freed l₁ l₂ b hl =>
    rw [hl]
    rcases List.mem_append.mp hx with hx | hx
    · rcases mem_of_joinFree hx with hx | rfl
      · exact List.mem_append_left _ hx
      · exact List.mem_append_right _ List.mem_cons_self
    · exact List.mem_append_right _ (List.mem_cons_of_mem b (mem_of_dropFree hx))

theorem Dealloc.aligned (hd : L.Dealloc ptr L') (h : L.Aligned) : L'.Aligned := by
  have hsub := hd.blocks_subset
  cases hd
  exact ⟨fun x hx => h.blocks x (hsub hx), h.brk⟩

/-- **In place**, the list stays aligned exactly when it is not split at an odd size. -/
theorem Resize.aligned_iff (hr : L.Resize size splits ptr L') (h : L.Aligned) :
    L'.Aligned ↔ (splits → size % 8 = 0) := by
  cases hr with
  | whole _ hsp => exact ⟨fun _ hs => absurd hs hsp, fun _ => ⟨h.blocks, h.brk⟩⟩
  | @split l₁ l₂ b hl hsp _ =>
    have hb := h.blocks b (by simp [hl])
    constructor
    · intro h' _
      have := h'.blocks (b + 8 + size) (by simp)
      omega
    · intro hsize
      have hsize := hsize hsp
      refine ⟨fun x hx => ?_, h.brk⟩
      rcases mem_insert.mp hx with rfl | hx
      · omega
      · exact h.blocks x (hl ▸ hx)

theorem Realloc.aligned_iff (hr : L.Realloc ptr size splits r L') (h : L.Aligned) :
    L'.Aligned ↔ (splits → size % 8 = 0) := by
  cases hr with
  | failed hno => exact iff_of_true h fun hs => absurd hs hno
  | inPlace hr => exact hr.aligned_iff h
  | moved hno _ _ ha _ hd => exact iff_of_true (hd.aligned (ha.aligned h)) fun hs => absurd hs hno

theorem Alloc.result_aligned (ha : L.Alloc size r L') (h : L.Aligned) : r % 8 = 0 := by
  cases ha with
  | null => rfl
  | whole hb _ =>
    have := h.blocks _ hb
    omega
  | @split l₁ l₂ b hl _ =>
    have := h.blocks b (by simp [hl])
    omega
  | grown => exact h.brk

theorem Realloc.result_aligned (hr : L.Realloc ptr size splits r L') (h : L.Aligned) :
    r % 8 = 0 := by
  cases hr with
  | failed _ => rfl
  | inPlace hr =>
    cases hr with
    | whole hb _ =>
      have := h.blocks _ hb
      omega
    | @split l₁ l₂ b hl _ _ =>
      have := h.blocks b (by simp [hl])
      omega
  | moved _ _ _ ha _ _ => exact ha.result_aligned h

/-! ### Neighbours -/

/-- One of two neighbours is in use. -/
def OneUsed (live : Live) (b c : Nat) : Prop := (live (b + 8)).isSome ∨ (live (c + 8)).isSome

/-- No two neighbours are free. -/
def Coalesced (L : Listing) : Prop := L.blocks.IsChain (OneUsed L.live)

/-- The block behind the one of `ptr`, when there is one, is in use. -/
def NextUsed (L : Listing) (ptr : Nat) : Prop :=
  ∀ l₁ b c l₂, L.blocks = l₁ ++ b :: c :: l₂ → ptr = b + 8 → (L.live (c + 8)).isSome

section Neighbours

variable {live live' : Live} {l l₁ l₂ : List Nat} {b c : Nat}

theorem notMem_sides (hn : (l₁ ++ b :: l₂).Nodup) : b ∉ l₁ ∧ b ∉ l₂ := by
  have hb := (List.nodup_middle.mp hn).notMem
  rw [List.mem_append, not_or] at hb
  exact hb

theorem OneUsed.of_update_some (h : OneUsed live b c) :
    OneUsed (Function.update live ptr (some size)) b c := by
  have hmono : ∀ p, (live p).isSome → (Function.update live ptr (some size) p).isSome := by
    intro p hp
    by_cases he : p = ptr
    · simp [he]
    · rwa [Function.update_of_ne he]
  exact h.imp (hmono _) (hmono _)

theorem isChain_update {o : Option Nat} (hb : b ∉ l) (h : l.IsChain (OneUsed live)) :
    l.IsChain (OneUsed (Function.update live (b + 8) o)) := by
  refine h.imp_of_mem_imp fun x y hx hy hxy => ?_
  have hne : ∀ z ∈ l, z + 8 ≠ b + 8 := fun z hz he => hb (by rwa [show z = b by omega] at hz)
  rw [OneUsed, Function.update_of_ne (hne x hx), Function.update_of_ne (hne y hy)]
  exact hxy

theorem isChain_dropFree (h : l.IsChain (OneUsed live)) :
    (dropFree live l).IsChain (OneUsed live) ∧
      ∀ c ∈ (dropFree live l).head?, (live (c + 8)).isSome := by
  cases l with
  | nil => exact ⟨h, by simp [dropFree]⟩
  | cons c l =>
    rw [dropFree]
    split
    · rename_i hc
      exact ⟨h, by simpa using hc⟩
    · rename_i hc
      obtain ⟨hnext, h⟩ := List.isChain_cons.mp h
      exact ⟨h, fun d hd => (hnext d hd).resolve_left hc⟩

theorem isChain_joinFree (h : l.IsChain (OneUsed live)) (hb : b ∉ l) :
    (joinFree live l b).IsChain (OneUsed (Function.update live (b + 8) none)) := by
  have hl := isChain_update (o := none) hb h
  rw [joinFree]
  split
  · exact List.isChain_singleton b
  · rename_i p hp
    split
    · rename_i hused
      refine hl.append (List.isChain_singleton b) fun x hx y hy => .inl ?_
      obtain rfl := Option.mem_unique hx hp
      have hpb : x + 8 ≠ b + 8 := fun he =>
        hb (by rw [show b = x by omega]; exact List.mem_of_getLast? hp)
      rw [Function.update_of_ne hpb]
      exact hused
    · exact hl

end Neighbours

theorem Alloc.coalesced (ha : L.Alloc size r L') (h8 : 8 ≤ L.brk) (h : L.Coalesced) :
    L'.Coalesced := by
  cases ha with
  | null => exact h
  | whole _ _ => exact h.imp fun _ _ => OneUsed.of_update_some
  | @split l₁ l₂ b hl hfree =>
    rw [Coalesced, hl] at h
    have hb : (Function.update L.live (b + 8) (some size) (b + 8)).isSome := by simp
    -- the block behind a free one is in use, so the new block may stand before it
    obtain ⟨h₁, h₂⟩ := List.isChain_split.mp h
    obtain ⟨hnext, h₂⟩ := List.isChain_cons.mp h₂
    refine List.isChain_append_cons_cons.mpr ⟨h₁.imp fun _ _ => OneUsed.of_update_some, .inl hb,
      List.isChain_cons.mpr ⟨fun d hd => ?_, h₂.imp fun _ _ => OneUsed.of_update_some⟩⟩
    have hd : OneUsed L.live d d := (hnext d hd).elim (fun h0 => by simp [hfree] at h0) .inl
    exact .inr (hd.of_update_some.elim id id)
  | grown =>
    refine (h.imp fun _ _ => OneUsed.of_update_some).append (List.isChain_singleton _)
      fun x _ y hy => .inr ?_
    obtain rfl : L.brk - 8 = y := by simpa using hy
    rw [Nat.sub_add_cancel h8, Function.update_self]
    rfl

/-- **Freeing joins** a block with the free ones around it. -/
theorem Dealloc.coalesced (hd : L.Dealloc ptr L') (hn : L.blocks.Nodup) (h : L.Coalesced) :
    L'.Coalesced := by
  cases hd with
  | @freed l₁ l₂ b hl =>
    rw [Coalesced, hl] at h
    rw [hl] at hn
    obtain ⟨hb₁, hb₂⟩ := notMem_sides hn
    obtain ⟨h₁, h₂, -⟩ := List.isChain_append.mp h
    obtain ⟨h₂, hused⟩ := isChain_dropFree (List.isChain_cons.mp h₂).2
    have hb₂' : b ∉ dropFree L.live l₂ := fun hb => hb₂ (mem_of_dropFree hb)
    refine (isChain_joinFree h₁ hb₁).append (isChain_update hb₂' h₂) fun x _ y hy => .inr ?_
    have hyb : y + 8 ≠ b + 8 := fun he =>
      hb₂' (by rw [show b = y by omega]; exact List.mem_of_mem_head? hy)
    rw [Function.update_of_ne hyb]
    exact hused y hy

/-- **In place**, a split leaves two free neighbours exactly when the block
behind was free. -/
theorem Resize.coalesced_iff (hr : L.Resize size splits ptr L') (hn : L.blocks.Nodup)
    (h : L.Coalesced) : L'.Coalesced ↔ (splits → L.NextUsed ptr) := by
  cases hr with
  | whole _ hsp =>
    exact ⟨fun _ hs => absurd hs hsp, fun _ => h.imp fun _ _ => OneUsed.of_update_some⟩
  | @split l₁ l₂ b hl hsp hnew =>
    rw [hl] at hn
    obtain ⟨hb₁, hb₂⟩ := notMem_sides hn
    rw [Coalesced, hl] at h
    obtain ⟨h₁, h₂⟩ := List.isChain_split.mp h
    obtain ⟨-, h₂⟩ := List.isChain_cons.mp h₂
    have hb : (Function.update L.live (b + 8) (some size) (b + 8)).isSome := by simp
    constructor
    · rintro h' - k₁ b' c k₂ hk hptr
      obtain rfl : b' = b := by omega
      obtain ⟨-, -, rfl⟩ := (List.append_cons_inj_of_notMem hb₁ hb₂).mp (hl.symm.trans hk)
      have hc : c + 8 ≠ b' + 8 := fun he => hb₂ (by rw [show b' = c by omega]; simp)
      have hnew' : Function.update L.live (b' + 8) (some size) (b' + 8 + size + 8) = none := by
        rw [Function.update_of_ne (by omega)]
        exact hnew
      have hcc := (List.isChain_append_cons_cons.mp h').2.2
      have hused := (List.isChain_cons_cons.mp hcc).1.resolve_left (by
        change ¬ (Function.update L.live (b' + 8) (some size) (b' + 8 + size + 8)).isSome
        simp [hnew'])
      change (Function.update L.live (b' + 8) (some size) (c + 8)).isSome at hused
      rwa [Function.update_of_ne hc] at hused
    · intro hnext
      refine List.isChain_append_cons_cons.mpr ⟨h₁.imp fun _ _ => OneUsed.of_update_some, .inl hb,
        List.isChain_cons.mpr ⟨fun d hd => .inr ?_, h₂.imp fun _ _ => OneUsed.of_update_some⟩⟩
      obtain ⟨l₂', rfl⟩ : ∃ l, l₂ = d :: l := List.head?_eq_some_iff.mp hd
      have hused := hnext hsp l₁ b d l₂' hl rfl
      have hd8 : d + 8 ≠ b + 8 := fun he => hb₂ (by rw [show b = d by omega]; simp)
      change (Function.update L.live (b + 8) (some size) (d + 8)).isSome
      rwa [Function.update_of_ne hd8]

theorem Realloc.coalesced_iff (hr : L.Realloc ptr size splits r L') (h8 : 8 ≤ L.brk)
    (hn : L.blocks.Nodup) (h : L.Coalesced) : L'.Coalesced ↔ (splits → L.NextUsed ptr) := by
  cases hr with
  | failed hno => exact iff_of_true h fun hs => absurd hs hno
  | inPlace hr => exact hr.coalesced_iff hn h
  | moved hno _ _ ha hn₁ hd =>
    exact iff_of_true (hd.coalesced hn₁ (ha.coalesced h8 h)) fun hs => absurd hs hno

/-! ### There is a block -/

theorem joinFree_ne_nil (live : Live) (l : List Nat) (b : Nat) : joinFree live l b ≠ [] := by
  rw [joinFree]
  split
  · simp
  · rename_i p hp
    split
    · simp
    · rintro rfl
      simp at hp

theorem Alloc.ne_nil (ha : L.Alloc size r L') (h : L.blocks ≠ []) : L'.blocks ≠ [] := by
  cases ha with
  | null => exact h
  | whole _ _ => exact h
  | split _ _ => simp
  | grown => simp

theorem Dealloc.ne_nil (hd : L.Dealloc ptr L') : L'.blocks ≠ [] := by
  cases hd with
  | freed _ =>
    intro hnil
    exact joinFree_ne_nil _ _ _ (List.append_eq_nil_iff.mp hnil).1

theorem Realloc.ne_nil (hr : L.Realloc ptr size splits r L') (h : L.blocks ≠ []) :
    L'.blocks ≠ [] := by
  cases hr with
  | failed _ => exact h
  | inPlace hr =>
    cases hr with
    | whole _ _ => exact h
    | split _ _ _ => simp
  | moved _ _ _ _ _ hd => exact hd.ne_nil

theorem Coalesced.eq_singleton (h : L.Coalesced) (hne : L.blocks ≠ []) (hl : ∀ p, L.live p = none) :
    ∃ b, L.blocks = [b] := by
  rw [Coalesced] at h
  cases hbs : L.blocks with
  | nil => exact absurd hbs hne
  | cons b l =>
    cases l with
    | nil => exact ⟨b, rfl⟩
    | cons c l =>
      rw [hbs] at h
      have hused := (List.isChain_cons_cons.mp h).1
      rw [OneUsed, hl, hl] at hused
      simp at hused

end Listing

end ChoOS
