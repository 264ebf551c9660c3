import ChoOS.Heap.Allocators

/-!
# The block list

`Blocks m start stop bs` says that the blocks of the heap, from `start` on, are
at the addresses `bs` and end at the end block `stop`: `next` leads from each
to the following one and always moves up by at least a header, none of `bs` is
marked `EOM`, and `stop` is, and is `USED`.  So block `b` owns the bytes from
`b` to `blockNext m b`, and the blocks tile `[start, stop)`.

Every operation of the allocator rewrites bytes of a run of neighbouring
blocks and leaves the rest of the memory alone.  `Blocks.edit` is that, once:
replace the blocks between two addresses by others between the same addresses.
`Blocks.kept` says what happens to a block outside the edit: nothing.
`Blocks.extend` is the one operation that is not of this kind, the growth that
turns the old end block into a block.

`search_spec` and `parent_spec` are the two loops.
-/

namespace ChoOS

/-! ### Headers -/

theorem header_congr {m k : ByteMem} {b : Nat} (hb : b + 8 ≤ 4294967296)
    (h : ∀ x, b ≤ x → x < b + 8 → k x = m x) :
    blockNext k b = blockNext m b ∧ blockEOM k b = blockEOM m b ∧
      blockFree k b = blockFree m b := by
  refine ⟨ByteMem.read32_congr (by omega) (fun i hi => h _ (by omega) (by omega)), ?_, ?_⟩
  · simp only [blockEOM, ByteMem.read8_of_lt (show b + 4 < 4294967296 by omega)]
    exact h _ (by omega) (by omega)
  · simp only [blockFree, ByteMem.read8_of_lt (show b + 5 < 4294967296 by omega)]
    exact h _ (by omega) (by omega)

theorem blockNext_lt (m : ByteMem) (block : Nat) : blockNext m block < 4294967296 :=
  m.read32_lt block

section SetMetadata

variable {m : ByteMem} {dst next : Nat} {EOM free : UInt8}

theorem setMetadata_of_disjoint {x : Nat} (hd : dst + 8 ≤ 4294967296)
    (hx : x < dst ∨ dst + 8 ≤ x) :
    internalHeapBlockSetMetadata m dst EOM free next x = m x := by
  rw [internalHeapBlockSetMetadata, ByteMem.write32_of_disjoint (by omega) (by omega),
    ByteMem.write8_apply (by omega), if_neg (by omega), ByteMem.write8_apply (by omega),
    if_neg (by omega)]

theorem blockNext_setMetadata (hn : next < 4294967296) :
    blockNext (internalHeapBlockSetMetadata m dst EOM free next) dst = next :=
  ByteMem.read32_write32 hn

theorem blockEOM_setMetadata (hd : dst + 8 ≤ 4294967296) :
    blockEOM (internalHeapBlockSetMetadata m dst EOM free next) dst = EOM := by
  rw [blockEOM, ByteMem.read8_of_lt (by omega), internalHeapBlockSetMetadata,
    ByteMem.write32_of_disjoint (by omega) (by omega), ByteMem.write8_apply (by omega),
    if_neg (by omega), ByteMem.write8_apply (by omega), if_pos rfl]

theorem blockFree_setMetadata (hd : dst + 8 ≤ 4294967296) :
    blockFree (internalHeapBlockSetMetadata m dst EOM free next) dst = free := by
  rw [blockFree, ByteMem.read8_of_lt (by omega), internalHeapBlockSetMetadata,
    ByteMem.write32_of_disjoint (by omega) (by omega), ByteMem.write8_apply (by omega), if_pos rfl]

end SetMetadata

section SetNext

variable {m : ByteMem} {block next : Nat}

theorem blockNext_write32 (hn : next < 4294967296) :
    blockNext (m.write32 block next) block = next := ByteMem.read32_write32 hn

theorem blockEOM_write32 (hb : block + 8 ≤ 4294967296) :
    blockEOM (m.write32 block next) block = blockEOM m block := by
  rw [blockEOM, blockEOM, ByteMem.read8_of_lt (by omega), ByteMem.read8_of_lt (by omega),
    ByteMem.write32_of_disjoint (by omega) (by omega)]

theorem blockFree_write32 (hb : block + 8 ≤ 4294967296) :
    blockFree (m.write32 block next) block = blockFree m block := by
  rw [blockFree, blockFree, ByteMem.read8_of_lt (by omega), ByteMem.read8_of_lt (by omega),
    ByteMem.write32_of_disjoint (by omega) (by omega)]

end SetNext

section SetFree

variable {m : ByteMem} {block : Nat} {free : UInt8}

theorem blockNext_write8_free (hb : block + 8 ≤ 4294967296) :
    blockNext (m.write8 (block + 5) free) block = blockNext m block :=
  ByteMem.read32_congr (by omega) (fun i hi => by
    rw [ByteMem.write8_apply (by omega), if_neg (by omega)])

theorem blockEOM_write8_free (hb : block + 8 ≤ 4294967296) :
    blockEOM (m.write8 (block + 5) free) block = blockEOM m block := by
  rw [blockEOM, blockEOM, ByteMem.read8_of_lt (by omega), ByteMem.read8_of_lt (by omega),
    ByteMem.write8_apply (by omega), if_neg (by omega)]

theorem blockFree_write8_free (hb : block + 8 ≤ 4294967296) :
    blockFree (m.write8 (block + 5) free) block = free := by
  rw [blockFree, ByteMem.read8_of_lt (by omega), ByteMem.write8_apply (by omega), if_pos rfl]

end SetFree

/-! ### The list -/

/-- The blocks of the heap are at `bs`, and the end block is at `stop`. -/
structure Blocks (m : ByteMem) (start stop : Nat) (bs : List Nat) : Prop where
  seg : Seg (blockNext m) start bs stop
  step : ∀ b ∈ bs, b + 8 ≤ blockNext m b
  notEOM : ∀ b ∈ bs, blockEOM m b = 0
  endEOM : blockEOM m stop = 1
  endUsed : blockFree m stop = 0
  endNext : blockNext m stop = 0
  bound : stop + 8 ≤ ptBaseVaddr

/-- Following `next` from `start` leads to `b`, and to no end block before it. -/
def OnList (m : ByteMem) (start b : Nat) : Prop :=
  ∃ i, (blockNext m)^[i] start = b ∧ ∀ j < i, blockEOM m ((blockNext m)^[j] start) = 0

namespace Blocks

variable {m m' : ByteMem} {start stop b e x y : Nat} {bs l₁ l₂ old mid : List Nat}

theorem stop_bound (h : Blocks m start stop bs) : stop + 8 ≤ 4290772992 := h.bound

theorem mem_bounds (h : Blocks m start stop bs) (hb : b ∈ bs) :
    start ≤ b ∧ b + 8 ≤ blockNext m b ∧ blockNext m b ≤ stop := by
  have hs := h.step b hb
  have := h.seg.mem_bounds h.step hb
  omega

theorem start_le_stop (h : Blocks m start stop bs) : start ≤ stop := by
  have := h.seg.le h.step
  omega

theorem apart (h : Blocks m start stop bs) (hx : x ∈ bs) (hy : y ∈ bs) (hne : x ≠ y) :
    blockNext m x ≤ y ∨ blockNext m y ≤ x := h.seg.apart h.step hx hy hne

theorem length_lt (h : Blocks m start stop bs) : bs.length < walkFuel := by
  have h1 := h.seg.le h.step
  have h2 := h.stop_bound
  simp only [walkFuel]
  omega

theorem nodup (h : Blocks m start stop bs) : bs.Nodup :=
  h.seg.nodup (fun hs => by have := h.mem_bounds hs; omega)

theorem availableSpace (h : Blocks m start stop bs) (hb : b ∈ bs) :
    internalHeapBlockGetAvailableSpace m b = blockNext m b - b - 8 := by
  have h1 := h.mem_bounds hb
  have h2 := h.stop_bound
  rw [internalHeapBlockGetAvailableSpace, if_neg (by simp [h.notEOM b hb]),
    sub32_of_le (a := blockNext m b) (by omega) (by omega), sizeofHeapBlock,
    sub32_of_le (by omega) (by omega)]

theorem onList_iff (h : Blocks m start stop bs) : OnList m start b ↔ b ∈ bs ++ [stop] := by
  have hwalk := h.seg.iterate_getElem
  constructor
  · rintro ⟨i, rfl, hbefore⟩
    rcases Nat.lt_trichotomy i bs.length with hi | rfl | hi
    · rw [hwalk i hi]
      exact List.mem_append_left _ (List.getElem_mem hi)
    · rw [h.seg.iterate]
      simp
    · have hend := hbefore bs.length hi
      rw [h.seg.iterate, h.endEOM] at hend
      exact absurd hend (by decide)
  · intro hb
    have hbefore : ∀ i ≤ bs.length, ∀ j < i, blockEOM m ((blockNext m)^[j] start) = 0 := by
      intro i hi j hj
      rw [hwalk j (by omega)]
      exact h.notEOM _ (List.getElem_mem _)
    rcases List.mem_append.mp hb with hb | hb
    · obtain ⟨i, hi, rfl⟩ := List.mem_iff_getElem.mp hb
      exact ⟨i, hwalk i hi, hbefore i (by omega)⟩
    · rw [List.mem_singleton.mp hb]
      exact ⟨bs.length, h.seg.iterate, hbefore _ (by omega)⟩

theorem kept (h : Blocks m start stop (l₁ ++ old ++ l₂)) (hold : Seg (blockNext m) b old e)
    (hne : old ≠ []) (hx : x ∈ l₁ ++ l₂) : blockNext m x ≤ b ∨ e ≤ x := by
  obtain ⟨h1, h3⟩ := h.seg.cut hold hne
  rcases List.mem_append.mp hx with hx | hx
  · exact Or.inl (h1.mem_bounds (fun y hy => h.step y (by simp [hy])) hx).2
  · exact Or.inr (h3.mem_bounds (fun y hy => h.step y (by simp [hy])) hx).1

/-- **Replacing neighbouring blocks.**  The memory changes only between `b` and
`e`, where the blocks `old` were and the blocks `mid` are now. -/
theorem edit (h : Blocks m start stop (l₁ ++ old ++ l₂)) (hold : Seg (blockNext m) b old e)
    (hne : old ≠ []) (hout : ∀ x, x < b ∨ e ≤ x → m' x = m x)
    (hmid : Seg (blockNext m') b mid e) (hstep : ∀ x ∈ mid, x + 8 ≤ blockNext m' x)
    (hEOM : ∀ x ∈ mid, blockEOM m' x = 0) : Blocks m' start stop (l₁ ++ mid ++ l₂) := by
  have hstop := h.stop_bound
  -- the header of a block outside the edit is the old one
  have hhdr : ∀ x ∈ l₁ ++ l₂, blockNext m' x = blockNext m x ∧ blockEOM m' x = blockEOM m x ∧
      blockFree m' x = blockFree m x := by
    intro x hx
    have hmem : x ∈ l₁ ++ old ++ l₂ := by
      rcases List.mem_append.mp hx with hx | hx
      · exact List.mem_append_left _ (List.mem_append_left _ hx)
      · exact List.mem_append_right _ hx
    have hk := h.kept hold hne hx
    have hbd := h.mem_bounds hmem
    exact header_congr (by omega) (fun y _ _ => hout y (by omega))
  obtain ⟨h1, h3⟩ := h.seg.cut hold hne
  have hle : e ≤ stop := by
    have := h3.le (fun y hy => h.step y (by simp [hy]))
    omega
  have hend := header_congr (m := m) (k := m') (b := stop) (by omega)
    (fun y _ _ => hout y (by omega))
  refine ⟨?_, ?_, ?_, by rw [hend.2.1, h.endEOM], by rw [hend.2.2, h.endUsed],
    by rw [hend.1, h.endNext], h.bound⟩
  · rw [List.append_assoc]
    exact seg_append.mpr ⟨b, h1.congr (fun x hx => (hhdr x (by simp [hx])).1),
      seg_append.mpr ⟨e, hmid, h3.congr (fun x hx => (hhdr x (by simp [hx])).1)⟩⟩
  · intro x hx
    by_cases hm : x ∈ mid
    · exact hstep x hm
    · have hx' : x ∈ l₁ ++ l₂ := by simpa [hm] using hx
      rw [(hhdr x hx').1]
      exact h.step x (by simp only [List.mem_append] at hx' ⊢; tauto)
  · intro x hx
    by_cases hm : x ∈ mid
    · exact hEOM x hm
    · have hx' : x ∈ l₁ ++ l₂ := by simpa [hm] using hx
      rw [(hhdr x hx').2.1]
      exact h.notEOM x (by simp only [List.mem_append] at hx' ⊢; tauto)

/-- **Growth.**  The old end block becomes a block that reaches to the new one. -/
theorem extend {stop' : Nat} (h : Blocks m start stop bs) (hout : ∀ x < stop, m' x = m x)
    (hnext : blockNext m' stop = stop') (hle : stop + 8 ≤ stop') (hEOM : blockEOM m' stop = 0)
    (hend : blockEOM m' stop' = 1) (hused : blockFree m' stop' = 0)
    (hnull : blockNext m' stop' = 0) (hb : stop' + 8 ≤ ptBaseVaddr) :
    Blocks m' start stop' (bs ++ [stop]) := by
  have hstop := h.stop_bound
  have hhdr : ∀ x ∈ bs, blockNext m' x = blockNext m x ∧ blockEOM m' x = blockEOM m x ∧
      blockFree m' x = blockFree m x := by
    intro x hx
    have hbd := h.mem_bounds hx
    exact header_congr (by omega) (fun y _ _ => hout y (by omega))
  refine ⟨?_, ?_, ?_, hend, hused, hnull, hb⟩
  · exact seg_append_cons.mpr ⟨h.seg.congr (fun x hx => (hhdr x hx).1), hnext⟩
  · intro x hx
    rcases List.mem_append.mp hx with hx | hx
    · rw [(hhdr x hx).1]
      exact h.step x hx
    · rw [List.mem_singleton.mp hx, hnext]
      exact hle
  · intro x hx
    rcases List.mem_append.mp hx with hx | hx
    · rw [(hhdr x hx).2.1]
      exact h.notEOM x hx
    · rw [List.mem_singleton.mp hx]
      exact hEOM

/-! ### The loops -/

/-- **The search of `kmalloc`** ends at the first free block with room, or at
the end block when there is none. -/
theorem search_spec (h : Blocks m start stop bs) (size : Nat) :
    (∃ l₁ b l₂, bs = l₁ ++ b :: l₂ ∧ blockFree m b ≠ 0 ∧ b + 8 + size ≤ blockNext m b ∧
      follow (blockNext m) (kmallocStop m size) walkFuel start = some b) ∨
    ((∀ b ∈ bs, blockFree m b ≠ 0 → blockNext m b < b + 8 + size) ∧
      follow (blockNext m) (kmallocStop m size) walkFuel start = some stop) := by
  have hstopF : ∀ b ∈ bs, kmallocStop m size b = true ↔
      blockFree m b ≠ 0 ∧ b + 8 + size ≤ blockNext m b := by
    intro b hb
    have hbd := h.mem_bounds hb
    simp only [kmallocStop, h.notEOM b hb, h.availableSpace hb, ne_eq, not_true_eq_false,
      decide_false, Bool.false_or, Bool.and_eq_true, decide_eq_true_eq]
    exact and_congr_right (fun _ => by omega)
  by_cases hex : ∃ b ∈ bs, kmallocStop m size b = true
  · left
    -- cut the list at the first block that passes
    obtain ⟨b, hfind⟩ := Option.isSome_iff_exists.mp (List.find?_isSome.mpr hex)
    obtain ⟨hb, l₁, l₂, hl, hfirst⟩ := List.find?_eq_some_iff_append.mp hfind
    have hbs : b ∈ bs := by simp [hl]
    have hlen := h.length_lt
    have hseg := h.seg
    rw [hl] at hseg hlen
    refine ⟨l₁, b, l₂, hl, ((hstopF b hbs).mp hb).1, ((hstopF b hbs).mp hb).2, ?_⟩
    refine (seg_append_cons.mp hseg).1.follow_eq (fun x hx => by simpa using hfirst x hx) hb ?_
    simp only [List.length_append, List.length_cons] at hlen
    omega
  · right
    have hno : ∀ b ∈ bs, kmallocStop m size b = false := by
      intro b hb
      by_contra hc
      exact hex ⟨b, hb, by simpa using hc⟩
    refine ⟨fun b hb hfree => ?_, h.seg.follow_eq hno ?_ h.length_lt⟩
    · by_contra hc
      have := (hstopF b hb).mpr ⟨hfree, by omega⟩
      simp [hno b hb] at this
    · simp [kmallocStop, h.endEOM]

/-- **The parent search of `kfree`** finds the block before `b`. -/
theorem parent_spec {p : Nat} (h : Blocks m start stop (l₁ ++ p :: b :: l₂)) :
    follow (blockNext m) (fun q => blockNext m q == b) walkFuel start = some p := by
  have hseg := h.seg
  obtain ⟨h1, h2⟩ := seg_append_cons.mp hseg
  have hpb : blockNext m p = b := h2.1
  have hlen := h.length_lt
  refine h1.follow_eq (fun x hx => ?_) (by simp [hpb]) ?_
  · -- an earlier block whose `next` is `b` would overlap `p`
    have hxp := (h1.mem_bounds (fun y hy => h.step y (by simp [hy])) hx).2
    have hps := h.step p (by simp)
    simp only [beq_eq_false_iff_ne]
    omega
  · simp only [List.length_append, List.length_cons] at hlen
    omega

end Blocks

end ChoOS
