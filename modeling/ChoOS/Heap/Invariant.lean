import ChoOS.Heap.Blocks

/-!
# The heap invariant and the edits that keep it

`live p = some n` says that a client holds the pointer `p` and last asked for
`n` bytes there.  `HeapInv` joins this to the block list: a block is flagged
`USED` exactly when the pointer behind its header is live, every live pointer
is behind a header, and the block of a live pointer has the room asked for.

`HeapInv.edit` is `Blocks.edit` with the live pointers carried along, and the
four rewrites of the allocator are cases of it: `setFree` (a flag byte), `merge`
(`heap_block_merge_down`), `split` (`heap_block_split`) and `payload` (a store
inside one block's payload).  `grow` is the growth path.  None of them touches
a byte that a client owns, by `header_disjoint` and `payload_disjoint`.
-/

namespace ChoOS

/-- The live pointers, with the size last requested for each. -/
abbrev Live := Nat → Option Nat

/-- Blocks and live pointers agree. -/
structure HeapInv (m : ByteMem) (start brk : Nat) (live : Live) (bs : List Nat) : Prop where
  blocks : Blocks m start (brk - 8) bs
  le_brk : 8 ≤ brk
  used : ∀ b ∈ bs, blockFree m b = 0 ↔ (live (b + 8)).isSome
  room : ∀ b ∈ bs, ∀ n, live (b + 8) = some n → b + 8 + n ≤ blockNext m b
  mem_of_live : ∀ p n, live p = some n → ∃ b ∈ bs, p = b + 8

namespace HeapInv

variable {m m' : ByteMem} {start brk b c e p n i x size : Nat} {live live' : Live}
variable {bs l₁ l₂ old mid : List Nat}

theorem brk_le (h : HeapInv m start brk live bs) : brk ≤ 4290772992 := by
  have := h.blocks.stop_bound
  have := h.le_brk
  omega

theorem bounds (h : HeapInv m start brk live bs) (hb : b ∈ bs) :
    start ≤ b ∧ b + 8 ≤ blockNext m b ∧ blockNext m b + 8 ≤ brk ∧ b + 16 ≤ 4290772992 := by
  have h1 := h.blocks.mem_bounds hb
  have h2 := h.brk_le
  have h3 := h.le_brk
  omega

theorem free_of_not_live (h : HeapInv m start brk live bs) (hb : b ∈ bs)
    (hl : live (b + 8) = none) : blockFree m b ≠ 0 := by
  intro hf
  simpa [hl] using (h.used b hb).mp hf

theorem not_live_of_free (h : HeapInv m start brk live bs) (hb : b ∈ bs)
    (hf : blockFree m b ≠ 0) : live (b + 8) = none := by
  cases hl : live (b + 8) with
  | none => rfl
  | some n => exact absurd ((h.used b hb).mpr (by simp [hl])) hf

theorem not_live_inside (h : HeapInv m start brk live bs) (hb : b ∈ bs) (h1 : b < c)
    (h2 : c < blockNext m b) : live (c + 8) = none := by
  cases hl : live (c + 8) with
  | none => rfl
  | some n =>
    obtain ⟨d, hd, he⟩ := h.mem_of_live _ _ hl
    have hdc : d = c := by omega
    subst hdc
    have hbd := h.bounds hd
    have := h.blocks.apart hb hd (by omega)
    omega

/-- **No client byte is in a header.** -/
theorem header_disjoint (h : HeapInv m start brk live bs) (hb : b ∈ bs) (hl : live p = some n)
    (hi : i < n) : p + i < b ∨ b + 8 ≤ p + i := by
  obtain ⟨d, hd, rfl⟩ := h.mem_of_live _ _ hl
  have hr := h.room d hd n hl
  by_cases hdb : d = b
  · subst hdb; omega
  · have := h.blocks.apart hd hb hdb
    have := h.bounds hb
    omega

/-- **No client byte is in another client's block.** -/
theorem payload_disjoint (h : HeapInv m start brk live bs) (hb : b ∈ bs) (hl : live p = some n)
    (hne : p ≠ b + 8) (hi : i < n) : p + i < b ∨ blockNext m b ≤ p + i := by
  obtain ⟨d, hd, rfl⟩ := h.mem_of_live _ _ hl
  have hr := h.room d hd n hl
  have hbd := h.bounds hb
  have := h.blocks.apart hd hb (by omega)
  omega

/-- **Replacing neighbouring blocks**, with the live pointers of the old ones
exchanged for those of the new ones. -/
theorem edit (h : HeapInv m start brk live (l₁ ++ old ++ l₂)) (hold : Seg (blockNext m) b old e)
    (hne : old ≠ []) (hout : ∀ x, x < b ∨ e ≤ x → m' x = m x)
    (hmid : Seg (blockNext m') b mid e) (hstep : ∀ x ∈ mid, x + 8 ≤ blockNext m' x)
    (hEOM : ∀ x ∈ mid, blockEOM m' x = 0)
    (hlive : ∀ p, (∀ x ∈ old, p ≠ x + 8) → (∀ x ∈ mid, p ≠ x + 8) → live' p = live p)
    (hgone : ∀ x ∈ old, x ∉ mid → live' (x + 8) = none)
    (hused : ∀ x ∈ mid, blockFree m' x = 0 ↔ (live' (x + 8)).isSome)
    (hroom : ∀ x ∈ mid, ∀ n, live' (x + 8) = some n → x + 8 + n ≤ blockNext m' x) :
    HeapInv m' start brk live' (l₁ ++ mid ++ l₂) := by
  have hkept : ∀ x ∈ l₁ ++ l₂, blockNext m' x = blockNext m x ∧ blockFree m' x = blockFree m x ∧
      live' (x + 8) = live (x + 8) := by
    intro x hx
    have hmem : x ∈ l₁ ++ old ++ l₂ := by
      simp only [List.mem_append] at hx ⊢; tauto
    have hk := h.blocks.kept hold hne hx
    have hbd := h.bounds hmem
    have hhdr := header_congr (m := m) (k := m') (b := x) (by omega)
      (fun y _ _ => hout y (by omega))
    refine ⟨hhdr.1, hhdr.2.2, hlive _ (fun y hy he => ?_) (fun y hy he => ?_)⟩
    · have hy' := hold.mem_bounds (fun z hz => h.blocks.step z (by simp [hz])) hy
      have := h.blocks.step y (by simp [hy])
      omega
    · have hy' := hmid.mem_bounds hstep hy
      have := hstep y hy
      omega
  refine ⟨h.blocks.edit hold hne hout hmid hstep hEOM, h.le_brk, ?_, ?_, ?_⟩
  · intro x hx
    by_cases hm : x ∈ mid
    · exact hused x hm
    · have hx' : x ∈ l₁ ++ l₂ := by simpa [hm] using hx
      obtain ⟨_, h2, h3⟩ := hkept x hx'
      rw [h2, h3]
      exact h.used x (by simp only [List.mem_append] at hx' ⊢; tauto)
  · intro x hx n hn
    by_cases hm : x ∈ mid
    · exact hroom x hm n hn
    · have hx' : x ∈ l₁ ++ l₂ := by simpa [hm] using hx
      obtain ⟨h1, _, h3⟩ := hkept x hx'
      rw [h1]
      exact h.room x (by simp only [List.mem_append] at hx' ⊢; tauto) n (by rw [← h3]; exact hn)
  · intro p n hp
    by_cases hm : ∃ x ∈ mid, p = x + 8
    · obtain ⟨x, hx, rfl⟩ := hm
      exact ⟨x, by simp [hx], rfl⟩
    · have hm : ∀ x ∈ mid, p ≠ x + 8 := fun x hx he => hm ⟨x, hx, he⟩
      have ho : ∀ x ∈ old, p ≠ x + 8 := by
        rintro x hx rfl
        have := hgone x hx (fun hxm => hm x hxm rfl)
        simp [this] at hp
      rw [hlive p ho hm] at hp
      obtain ⟨x, hx, rfl⟩ := h.mem_of_live _ _ hp
      refine ⟨x, ?_, rfl⟩
      have hxo : x ∉ old := fun hx => ho x hx rfl
      simp only [List.mem_append] at hx ⊢
      tauto

theorem edit_one (h : HeapInv m start brk live bs) (hb : b ∈ bs)
    (hout : ∀ x, x < b ∨ blockNext m b ≤ x → m' x = m x)
    (hnext : blockNext m' b = blockNext m b) (hEOM : blockEOM m' b = blockEOM m b)
    (hlive : ∀ p, p ≠ b + 8 → live' p = live p)
    (hused : blockFree m' b = 0 ↔ (live' (b + 8)).isSome)
    (hroom : ∀ n, live' (b + 8) = some n → b + 8 + n ≤ blockNext m b) :
    HeapInv m' start brk live' bs := by
  obtain ⟨l₁, l₂, rfl⟩ := List.append_of_mem hb
  have h' : HeapInv m start brk live (l₁ ++ [b] ++ l₂) := by simpa using h
  have hstep := h.blocks.step b hb
  have : HeapInv m' start brk live' (l₁ ++ [b] ++ l₂) := h'.edit (b := b) (e := blockNext m b)
    (by simp) (by simp) hout (by simp [hnext]) (by simpa [hnext] using hstep)
    (by simpa [hEOM] using h.blocks.notEOM b hb) (fun p hp _ => hlive p (by simpa using hp))
    (by simp) (by simpa using hused) (by simpa [hnext] using hroom)
  simpa using this

/-- **A flag byte.** -/
theorem setFree (h : HeapInv m start brk live bs) (hb : b ∈ bs) {v : UInt8}
    (hlive : ∀ p, p ≠ b + 8 → live' p = live p) (hv : v = 0 ↔ (live' (b + 8)).isSome)
    (hroom : ∀ n, live' (b + 8) = some n → b + 8 + n ≤ blockNext m b) :
    HeapInv (m.write8 (b + 5) v) start brk live' bs := by
  have hbd := h.bounds hb
  refine h.edit_one hb (fun x hx => ?_) (blockNext_write8_free (by omega))
    (blockEOM_write8_free (by omega)) hlive ?_ hroom
  · rw [ByteMem.write8_apply (by omega), if_neg (by omega)]
  · rw [blockFree_write8_free (by omega)]
    exact hv

/-- **Stores inside the payload of one block.** -/
theorem payload (h : HeapInv m start brk live bs) (hb : b ∈ bs)
    (hout : ∀ x, x < b + 8 ∨ blockNext m b ≤ x → m' x = m x) :
    HeapInv m' start brk live bs := by
  have hbd := h.bounds hb
  have hhdr := header_congr (m := m) (k := m') (b := b) (by omega)
    (fun y _ _ => hout y (by omega))
  refine h.edit_one hb (fun x hx => hout x (by omega)) hhdr.1 hhdr.2.1 (fun _ _ => rfl) ?_
    (h.room b hb)
  rw [hhdr.2.2]
  exact h.used b hb

theorem mergeDown_next (h : HeapInv m start brk live (l₁ ++ b :: c :: l₂)) :
    blockNext m b = c ∧ heapBlockMergeDown m b = m.write32 b (blockNext m c) := by
  have hbc : blockNext m b = c := (seg_append_cons.mp h.blocks.seg).2.1
  exact ⟨hbc, by rw [heapBlockMergeDown, hbc]⟩

/-- **`heap_block_merge_down`** joins two neighbours that are not live. -/
theorem merge (h : HeapInv m start brk live (l₁ ++ b :: c :: l₂)) (hlb : live (b + 8) = none)
    (hlc : live (c + 8) = none) :
    HeapInv (heapBlockMergeDown m b) start brk live (l₁ ++ b :: l₂) := by
  obtain ⟨hbc, hm⟩ := h.mergeDown_next
  have hb := h.bounds (b := b) (by simp)
  have hc := h.bounds (b := c) (by simp)
  have hn : blockNext (m.write32 b (blockNext m c)) b = blockNext m c :=
    blockNext_write32 (blockNext_lt m c)
  have h' : HeapInv m start brk live (l₁ ++ [b, c] ++ l₂) := by simpa using h
  have hEOM : blockEOM (m.write32 b (blockNext m c)) b = 0 := by
    rw [blockEOM_write32 (by omega)]
    exact h.blocks.notEOM b (by simp)
  have hfree : ¬ blockFree (m.write32 b (blockNext m c)) b = 0 := by
    rw [blockFree_write32 (by omega)]
    exact h.free_of_not_live (by simp) hlb
  have : HeapInv (m.write32 b (blockNext m c)) start brk live (l₁ ++ [b] ++ l₂) := h'.edit (b := b)
    (e := blockNext m c) (by simp [hbc]) (by simp)
    (fun x hx => ByteMem.write32_of_disjoint (by omega) (by omega)) (by simp [hn])
    (by simp only [List.mem_singleton, forall_eq, hn]; omega) (by simpa using hEOM)
    (fun _ _ _ => rfl) (by simp [hlc])
    (by simpa [hlb] using hfree) (by simp [hlb])
  rw [hm]
  simpa using this

/-! ### `ALIGN` and `heap_block_split` -/

end HeapInv

/-- `ALIGN` rounds up to a multiple of eight, as long as it does not wrap. -/
theorem align_bounds {size : Nat} (hs : size ≤ 4294967288) :
    size ≤ align size ∧ align size < size + 8 ∧ align size ≤ 4294967288 ∧ align size % 8 = 0 := by
  have : u32 (size + 7) = size + 7 := u32_of_lt (by omega)
  simp only [align, this]
  omega

theorem align_le (size : Nat) : align size ≤ 4294967288 := by
  rw [align, u32]
  omega

theorem align_align (size : Nat) : align (align size) = align size := by
  have h1 := align_bounds (align_le size)
  have h2 : align size % 8 = 0 := Nat.mul_mod_left _ _
  omega

/-- `heap_block_split` finds room for a second block. -/
def Splits (m : ByteMem) (b size : Nat) : Prop :=
  align size + sizeofHeapBlock + minimumAllocationBytes ≤ internalHeapBlockGetAvailableSpace m b

/-- The blocks after `heap_block_split`. -/
def SplitBlocks (m : ByteMem) (b size : Nat) (bs bs' : List Nat) : Prop :=
  (¬ Splits m b size ∧ bs' = bs) ∨
  (Splits m b size ∧ ∃ l₁ l₂, bs = l₁ ++ b :: l₂ ∧ bs' = l₁ ++ b :: (b + 8 + size) :: l₂)

namespace HeapInv

variable {m m' : ByteMem} {start brk b c e p n i x size : Nat} {live live' : Live}
variable {bs l₁ l₂ old mid : List Nat}

/-- The two outcomes of `heap_block_split` on a block with room for `size`:
nothing, or a new free block behind the first `size` bytes of the payload. -/
theorem split_cases (h : HeapInv m start brk live bs) (hb : b ∈ bs)
    (hs : b + 8 + size ≤ blockNext m b) :
    (¬ Splits m b size ∧ heapBlockSplit m b size = m) ∨
    (Splits m b size ∧ b + 8 + size + 8 ≤ blockNext m b ∧
      heapBlockSplit m b size = (internalHeapBlockSetMetadata m (b + 8 + size) 0 1
        (blockNext m b)).write32 b (b + 8 + size)) := by
  have hbd := h.bounds hb
  have hbrk := h.brk_le
  have ha := align_bounds (show size ≤ 4294967288 by omega)
  simp only [Splits, heapBlockSplit, h.blocks.availableSpace hb, sizeofHeapBlock,
    minimumAllocationBytes]
  rw [u32_of_lt (show align size + 8 + 16 < 4294967296 by omega),
    u32_of_lt (show b + 8 + size < 4294967296 by omega)]
  by_cases hlt : blockNext m b - b - 8 < align size + 8 + 16
  · exact Or.inl ⟨by omega, if_pos hlt⟩
  · exact Or.inr ⟨by omega, by omega, if_neg hlt⟩

/-- **`heap_block_split`** leaves the first `size` bytes of the payload to the
block, live or not, and makes a free block of the rest or nothing of it. -/
theorem split (h : HeapInv m start brk live bs) (hb : b ∈ bs)
    (hs : b + 8 + size ≤ blockNext m b) (hlive : ∀ p, p ≠ b + 8 → live' p = live p)
    (hsome : (live' (b + 8)).isSome = (live (b + 8)).isSome)
    (hsize : ∀ n, live' (b + 8) = some n → n ≤ size) :
    ∃ bs', HeapInv (heapBlockSplit m b size) start brk live' bs' ∧ b ∈ bs' ∧
      b + 8 + size ≤ blockNext (heapBlockSplit m b size) b ∧
      (∀ x, x < b ∨ (b + 8 ≤ x ∧ x < b + 8 + size) ∨ blockNext m b ≤ x →
        heapBlockSplit m b size x = m x) ∧ SplitBlocks m b size bs bs' := by
  have hbd := h.bounds hb
  have hbrk := h.brk_le
  rcases h.split_cases hb hs with ⟨hno, heq⟩ | ⟨hsplits, hfit, heq⟩
  · rw [heq]
    refine ⟨bs, ?_, hb, hs, fun _ _ => rfl, .inl ⟨hno, rfl⟩⟩
    refine h.edit_one hb (fun _ _ => rfl) rfl rfl hlive ?_ (fun n hn => ?_)
    · rw [hsome]; exact h.used b hb
    · have := hsize n hn; omega
  · rw [heq]
    set c := b + 8 + size with hc
    set m₁ := internalHeapBlockSetMetadata m c 0 1 (blockNext m b) with hm₁
    have hm₁b : ∀ x, x < c → m₁ x = m x :=
      fun x hx => setMetadata_of_disjoint (by omega) (by omega)
    have hhb := header_congr (m := m) (k := m₁) (b := b) (by omega)
      (fun y _ _ => hm₁b y (by omega))
    have hhc := header_congr (m := m₁) (k := m₁.write32 b c) (b := c) (by omega)
      (fun y _ _ => ByteMem.write32_of_disjoint (by omega) (by omega))
    have hbn : blockNext (m₁.write32 b c) b = c := blockNext_write32 (by omega)
    have hcn : blockNext (m₁.write32 b c) c = blockNext m b := by
      rw [hhc.1]; exact blockNext_setMetadata (blockNext_lt m b)
    have hbE : blockEOM (m₁.write32 b c) b = 0 := by
      rw [blockEOM_write32 (by omega), hhb.2.1]; exact h.blocks.notEOM b hb
    have hcE : blockEOM (m₁.write32 b c) c = 0 := by
      rw [hhc.2.1]; exact blockEOM_setMetadata (by omega)
    have hbF : blockFree (m₁.write32 b c) b = blockFree m b := by
      rw [blockFree_write32 (by omega), hhb.2.2]
    have hcF : blockFree (m₁.write32 b c) c = 1 := by
      rw [hhc.2.2]; exact blockFree_setMetadata (by omega)
    -- the new block is behind a pointer nobody holds
    have hcl : live' (c + 8) = none := by
      rw [hlive _ (by omega)]; exact h.not_live_inside hb (by omega) (by omega)
    obtain ⟨l₁, l₂, rfl⟩ := List.append_of_mem hb
    have h' : HeapInv m start brk live (l₁ ++ [b] ++ l₂) := by simpa using h
    refine ⟨l₁ ++ [b, c] ++ l₂, ?_, by simp, by omega, ?_,
      .inr ⟨hsplits, l₁, l₂, rfl, by simp [hc]⟩⟩
    · refine h'.edit (b := b) (e := blockNext m b) (by simp) (by simp) (fun x hx => ?_)
        (by simp [hbn, hcn]) ?_ ?_ (fun p hp _ => hlive p (by simpa using hp)) (by simp) ?_ ?_
      · rw [ByteMem.write32_of_disjoint (by omega) (by omega)]
        exact setMetadata_of_disjoint (by omega) (by omega)
      · simp only [List.mem_cons, List.not_mem_nil, or_false, forall_eq_or_imp, forall_eq, hbn, hcn]
        omega
      · simp [hbE, hcE]
      · simp only [List.mem_cons, List.not_mem_nil, or_false, forall_eq_or_imp, forall_eq, hbF,
          hcF, hcl, hsome]
        exact ⟨h.used b hb, by simp⟩
      · simp only [List.mem_cons, List.not_mem_nil, or_false, forall_eq_or_imp, forall_eq, hbn,
          hcl]
        exact ⟨fun n hn => by have := hsize n hn; omega, by simp⟩
    · intro x hx
      rw [ByteMem.write32_of_disjoint (by omega) (by omega)]
      exact setMetadata_of_disjoint (by omega) (by omega)

/-! ### Growth -/

theorem congr_below (h : HeapInv m start brk live bs) (hm : ∀ x < brk, m' x = m x) :
    HeapInv m' start brk live bs := by
  have h0 := h.le_brk
  have hbrk := h.brk_le
  have hhdr : ∀ x, x + 8 ≤ brk → blockNext m' x = blockNext m x ∧
      blockEOM m' x = blockEOM m x ∧ blockFree m' x = blockFree m x := fun x hx =>
    header_congr (by omega) (fun y _ _ => hm y (by omega))
  have hb : ∀ b ∈ bs, b + 8 ≤ brk := fun b hb => by have := h.bounds hb; omega
  have hstop := hhdr (brk - 8) (by omega)
  refine ⟨⟨h.blocks.seg.congr (fun x hx => (hhdr x (hb x hx)).1), fun x hx => ?_, fun x hx => ?_,
    by rw [hstop.2.1, h.blocks.endEOM], by rw [hstop.2.2, h.blocks.endUsed],
    by rw [hstop.1, h.blocks.endNext], h.blocks.bound⟩, h0, fun x hx => ?_, fun x hx => ?_,
    h.mem_of_live⟩
  · rw [(hhdr x (hb x hx)).1]; exact h.blocks.step x hx
  · rw [(hhdr x (hb x hx)).2.1]; exact h.blocks.notEOM x hx
  · rw [(hhdr x (hb x hx)).2.2]; exact h.used x hx
  · rw [(hhdr x (hb x hx)).1]; exact h.room x hx

/-- **The growth path.**  The old end block, now live with `size` bytes, reaches
to a new end block below the new break. -/
theorem grow {brk' : Nat} (h : HeapInv m start brk live bs) (hbrk : brk + 8 + size ≤ brk')
    (hle : brk' ≤ ptBaseVaddr) (hlive : ∀ p, p ≠ brk → live' p = live p)
    (hsome : live' brk = some size) (hout : ∀ x < brk - 8, m' x = m x)
    (hnext : blockNext m' (brk - 8) = brk' - 8) (hEOM : blockEOM m' (brk - 8) = 0)
    (hfree : blockFree m' (brk - 8) = 0) (hend : blockEOM m' (brk' - 8) = 1)
    (hused : blockFree m' (brk' - 8) = 0) (hnull : blockNext m' (brk' - 8) = 0) :
    HeapInv m' start brk' live' (bs ++ [brk - 8]) := by
  have h0 := h.le_brk
  have hkept : ∀ x ∈ bs, blockNext m' x = blockNext m x ∧ blockFree m' x = blockFree m x ∧
      live' (x + 8) = live (x + 8) := by
    intro x hx
    have hbd := h.bounds hx
    have hhdr := header_congr (m := m) (k := m') (b := x) (by omega)
      (fun y _ _ => hout y (by omega))
    exact ⟨hhdr.1, hhdr.2.2, hlive _ (by omega)⟩
  have h8 : brk - 8 + 8 = brk := by omega
  refine ⟨h.blocks.extend hout hnext (by omega) hEOM hend hused hnull (by omega), by omega,
    ?_, ?_, ?_⟩
  · intro x hx
    rcases List.mem_append.mp hx with hx | hx
    · obtain ⟨_, h2, h3⟩ := hkept x hx
      rw [h2, h3]
      exact h.used x hx
    · rw [List.mem_singleton.mp hx, h8, hsome, hfree]
      simp
  · intro x hx n hn
    rcases List.mem_append.mp hx with hx | hx
    · obtain ⟨h1, _, h3⟩ := hkept x hx
      rw [h1]
      exact h.room x hx n (by rw [← h3]; exact hn)
    · rw [List.mem_singleton.mp hx] at hn ⊢
      rw [h8, hsome] at hn
      obtain rfl : size = n := Option.some.inj hn
      rw [hnext]
      omega
  · intro p n hp
    by_cases he : p = brk
    · exact ⟨brk - 8, by simp, by omega⟩
    · rw [hlive p he] at hp
      obtain ⟨x, hx, rfl⟩ := h.mem_of_live _ _ hp
      exact ⟨x, by simp [hx], rfl⟩

end HeapInv

end ChoOS
