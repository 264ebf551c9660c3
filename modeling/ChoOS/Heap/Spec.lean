import ChoOS.Heap.Listing

/-!
# What the four calls do

One theorem for each of `kmalloc`, `kcalloc`, `krealloc` and `kfree`, from a
heap that satisfies `HeapInv`: the call returns, the invariant holds again with
the live pointers updated, and no byte of an allocation other than the one
passed in has changed (`Untouched`).  Each theorem also says which `Alloc`,
`Dealloc` or `Realloc` of the listing the call is.

`sbrk` enters through `SbrkReturns`: it fails and leaves the break alone, or
grows it by its argument without passing the recursive window; in both cases
the bytes below the old break stay.  `kmalloc_spec` asks for it only where
`kmalloc` calls it, when no free block has room.
-/

namespace ChoOS

variable {ε : Type}

/-- The invariant of a heap state. -/
def Heap.Inv (h : Heap ε) (live : Live) (bs : List Nat) : Prop :=
  HeapInv h.mem h.heapStart h.programBreakPoint live bs

/-- The heap has the blocks, the break and the live pointers of the listing. -/
def Heap.Shows (h : Heap ε) (L : Listing) : Prop :=
  h.programBreakPoint = L.brk ∧ h.Inv L.live L.blocks

/-- What `sbrk` may do when it is asked for `increment` bytes. -/
structure SbrkReturns (h : Heap ε) (increment r : Nat) (h' : Heap ε) : Prop where
  start : h'.heapStart = h.heapStart
  below : ∀ x < h.programBreakPoint, h'.mem x = h.mem x
  result : (r = sbrkFailed ∧ h'.programBreakPoint = h.programBreakPoint) ∨
    (r = h.programBreakPoint ∧ h'.programBreakPoint = h.programBreakPoint + increment ∧
      h'.programBreakPoint ≤ ptBaseVaddr)

/-- No client byte changed, except perhaps those of `ptr`. -/
def Untouched (live : Live) (ptr : Nat) (m m' : ByteMem) : Prop :=
  ∀ p n, live p = some n → p ≠ ptr → ∀ i < n, m' (p + i) = m (p + i)

theorem Untouched.trans {live live' : Live} {ptr : Nat} {m m' m'' : ByteMem}
    (h : Untouched live ptr m m') (h' : Untouched live' ptr m' m'')
    (hl : ∀ p, p ≠ ptr → live' p = live p) : Untouched live ptr m m'' := by
  intro p n hp hne i hi
  rw [h' p n (by rw [hl p hne]; exact hp) hne i hi, h p n hp hne i hi]

/-- Nothing the allocator or its clients own has changed. -/
structure SameHeap (h h' : Heap ε) : Prop where
  start : h'.heapStart = h.heapStart
  brk : h'.programBreakPoint = h.programBreakPoint
  below : ∀ x < h.programBreakPoint, h'.mem x = h.mem x

section

variable {h h' : Heap ε} {live live' : Live} {bs l₁ l₂ : List Nat} {b p ptr size n r : Nat}
variable {m m' : ByteMem} {start brk : Nat} {sbrk : Sbrk ε}

theorem SameHeap.inv (hs : SameHeap h h') (hI : h.Inv live bs) : h'.Inv live bs := by
  have := HeapInv.congr_below hI hs.below
  rw [Heap.Inv, hs.start, hs.brk]
  exact this

theorem HeapInv.live_below (hI : HeapInv m start brk live bs) (hp : live p = some n) :
    p + n + 8 ≤ brk := by
  obtain ⟨b, hb, rfl⟩ := hI.mem_of_live _ _ hp
  have := hI.bounds hb
  have := hI.room b hb n hp
  omega

theorem SameHeap.untouched (hs : SameHeap h h') (hI : h.Inv live bs) (ptr : Nat) :
    Untouched live ptr h.mem h'.mem := fun p n hp _ i hi =>
  hs.below _ (by have := HeapInv.live_below hI hp; omega)

/-- Only headers have changed. -/
def HeadersOnly (bs : List Nat) (m m' : ByteMem) : Prop :=
  ∀ x, (∀ b ∈ bs, x < b ∨ b + 8 ≤ x) → m' x = m x

theorem HeapInv.untouched_headers (hI : HeapInv m start brk live bs) (hm : HeadersOnly bs m m')
    (ptr : Nat) : Untouched live ptr m m' :=
  fun _ _ hp _ _ hi => hm _ fun _ hb => hI.header_disjoint hb hp hi

theorem HeapInv.untouched_block (hI : HeapInv m start brk live bs) (hb : b ∈ bs)
    (hm : ∀ x, x < b ∨ blockNext m b ≤ x → m' x = m x) : Untouched live (b + 8) m m' :=
  fun _ _ hp hne _ hi => hm _ (hI.payload_disjoint hb hp hne hi)

/-! ### `kmalloc` -/

/-- The path of `kmalloc` that takes a free block. -/
theorem kmalloc_fit (hI : HeapInv m start brk live bs) (hb : b ∈ bs) (hfree : blockFree m b ≠ 0)
    (hs : size ≤ 4294967288) (hroom : b + 8 + align size ≤ blockNext m b) :
    ∃ bs', HeapInv ((heapBlockSplit m b (align size)).write8 (b + 5) 0) start brk
        (Function.update live (b + 8) (some size)) bs' ∧
      Untouched live 0 m ((heapBlockSplit m b (align size)).write8 (b + 5) 0) ∧
      SplitBlocks m b (align size) bs bs' := by
  have hbd := hI.bounds hb
  have hlb := hI.not_live_of_free hb hfree
  have ha := align_bounds hs
  obtain ⟨bs', hI', hb', hroom', hm, hbs'⟩ := hI.split hb hroom (fun _ _ => rfl) rfl (by simp [hlb])
  refine ⟨bs', hI'.setFree hb' (fun p hp => Function.update_of_ne hp _ _) (by simp) ?_, ?_, hbs'⟩
  · intro n hn
    rw [Function.update_self] at hn
    obtain rfl : size = n := Option.some.inj hn
    omega
  · intro p n hp _ i hi
    have hpb : p ≠ b + 8 := fun he => by simp [he, hlb] at hp
    have hd := hI.payload_disjoint hb hp hpb hi
    rw [ByteMem.write8_apply (by omega), if_neg (by omega), hm _ (by omega)]

/-- The path of `kmalloc` that grows the heap, after `sbrk` has moved the break.
The old end block is below `e`, and becomes a block up to the new break. -/
theorem kmalloc_grown {e : Nat} (hI : HeapInv h.mem start e live bs) (hs : size ≤ 4294967288)
    (hr : r ≠ sbrkFailed) (hbelow : ∀ x < e, h'.mem x = h.mem x)
    (hge : e + (align size + 8) ≤ h'.programBreakPoint) (hle : h'.programBreakPoint ≤ ptBaseVaddr) :
    ∃ m', kmallocGrow (e - 8) r h' = (e, { h' with mem := m' }) ∧
      HeapInv m' start h'.programBreakPoint (Function.update live e (some size)) (bs ++ [e - 8]) ∧
      Untouched live 0 h.mem m' ∧ ∀ x, x + 8 < e → m' x = h.mem x := by
  have h0 := hI.le_brk
  have h1 := hI.brk_le
  have ha := align_bounds hs
  have hle' : h'.programBreakPoint ≤ 4290772992 := hle
  set newEnd := h'.programBreakPoint - 8 with hne
  set m₁ := internalHeapBlockSetMetadata h'.mem (e - 8) 0 0 newEnd with hm₁
  set m₂ := internalHeapBlockSetMetadata m₁ newEnd 1 0 0 with hm₂
  set m₃ := m₂.write32 (e - 8) newEnd with hm₃
  -- the two headers in the last memory
  have hnode := header_congr (m := m₁) (k := m₂) (b := e - 8) (by omega)
    (fun y _ _ => setMetadata_of_disjoint (by omega) (by omega))
  have hend := header_congr (m := m₂) (k := m₃) (b := newEnd) (by omega)
    (fun y _ _ => ByteMem.write32_of_disjoint (by omega) (by omega))
  have hkept : ∀ x < e - 8, m₃ x = h.mem x := by
    intro x hx
    rw [hm₃, ByteMem.write32_of_disjoint (by omega) (by omega), hm₂,
      setMetadata_of_disjoint (by omega) (by omega), hm₁,
      setMetadata_of_disjoint (by omega) (by omega)]
    exact hbelow x (by omega)
  refine ⟨m₃, ?_, ?_, fun p n hp _ i hi => hkept _ (by have := hI.live_below hp; omega),
    fun x hx => hkept x (by omega)⟩
  · rw [kmallocGrow, if_neg hr]
    simp only [sizeofHeapBlock, sub32_of_le (show 8 ≤ h'.programBreakPoint by omega)
      (show h'.programBreakPoint < 4294967296 by omega)]
    rw [u32_of_lt (by omega), Nat.sub_add_cancel h0]
  · refine hI.grow (show e + 8 + size ≤ h'.programBreakPoint by omega) hle
      (fun p hp => Function.update_of_ne hp _ _) (by simp) hkept
      (blockNext_write32 (by omega)) ?_ ?_ ?_ ?_ ?_
    · rw [hm₃, blockEOM_write32 (by omega), hnode.2.1]
      exact blockEOM_setMetadata (by omega)
    · rw [hm₃, blockFree_write32 (by omega), hnode.2.2]
      exact blockFree_setMetadata (by omega)
    · rw [hend.2.1]
      exact blockEOM_setMetadata (by omega)
    · rw [hend.2.2]
      exact blockFree_setMetadata (by omega)
    · rw [hend.1]
      exact blockNext_setMetadata (by omega)

/-- No free block has room for `size` bytes, so `kmalloc` calls `sbrk`. -/
def NoFit (m : ByteMem) (bs : List Nat) (size : Nat) : Prop :=
  ∀ b ∈ bs, blockFree m b ≠ 0 → blockNext m b < b + 8 + align size

/-- **The two paths of `kmalloc`**: into a free block with room, or to the old
end block and on with what `sbrk` returned. -/
theorem kmalloc_paths {e : Nat} (hI : HeapInv h.mem h.heapStart e live bs) (sbrk : Sbrk ε)
    (size : Nat) :
    (∃ b ∈ bs, blockFree h.mem b ≠ 0 ∧ b + 8 + align size ≤ blockNext h.mem b ∧
      kmalloc sbrk size h
        = some (b + 8, { h with mem := (heapBlockSplit h.mem b (align size)).write8 (b + 5) 0 })) ∨
    (NoFit h.mem bs size ∧ ∀ r h', sbrk (u32 (align size + 8)) h = some (r, h') →
      kmalloc sbrk size h = some (kmallocGrow (e - 8) r h')) := by
  rcases hI.blocks.search_spec (align size) with ⟨l₁, b, l₂, hbs, hfree, hroom, hf⟩ | ⟨hno, hf⟩
  · have hb : b ∈ bs := by simp [hbs]
    have hbd := hI.bounds hb
    refine .inl ⟨b, hb, hfree, hroom, ?_⟩
    simp only [kmalloc, hf, Option.bind_eq_bind, Option.bind_some, hI.blocks.notEOM b hb, ne_eq,
      not_true_eq_false, if_false, sizeofHeapBlock, u32_of_lt (show b + 8 < 4294967296 by omega)]
    rfl
  · refine .inr ⟨hno, fun r h' hcall => ?_⟩
    simp only [kmalloc, hf, Option.bind_eq_bind, Option.bind_some, sizeofHeapBlock, hcall,
      hI.blocks.endEOM]
    rfl

/-- What an allocation of `size` bytes does: `NULL` and no change, or a new live
pointer with the room, and no other client's byte changed. -/
def AllocResult (h : Heap ε) (live : Live) (size r : Nat) (h' : Heap ε) : Prop :=
  (r = 0 ∧ SameHeap h h') ∨
  (r ≠ 0 ∧ live r = none ∧ h'.heapStart = h.heapStart ∧
    (∃ bs', h'.Inv (Function.update live r (some size)) bs') ∧ Untouched live 0 h.mem h'.mem)

/-- **`kmalloc`** returns `NULL` and changes nothing, or returns a new live
pointer with room for `size` bytes; and so it is an allocation in the listing. -/
theorem kmalloc_spec (hI : h.Inv live bs) (hs : size ≤ 4294967288)
    (hsbrk : NoFit h.mem bs size →
      ∃ r h', sbrk (u32 (align size + 8)) h = some (r, h') ∧ SbrkReturns h (align size + 8) r h') :
    ∃ r h', kmalloc sbrk size h = some (r, h') ∧ AllocResult h live size r h' ∧
      ∃ L, Listing.Alloc size ⟨bs, h.programBreakPoint, live⟩ r L ∧ h'.Shows L := by
  have h0 := HeapInv.le_brk hI
  have h1 := HeapInv.brk_le hI
  rcases kmalloc_paths hI sbrk size with ⟨b, hb, hfree, hroom, hk⟩ | ⟨hno, hk⟩
  · have hlb := HeapInv.not_live_of_free hI hb hfree
    obtain ⟨bs', hI', hu, hbs'⟩ := kmalloc_fit hI hb hfree hs hroom
    refine ⟨_, _, hk, .inr ⟨by omega, hlb, rfl, ⟨bs', hI'⟩, hu⟩, ?_⟩
    rcases hbs' with ⟨-, rfl⟩ | ⟨-, l₁, l₂, rfl, rfl⟩
    · exact ⟨_, .whole hb hlb, rfl, hI'⟩
    · exact ⟨_, .split rfl hlb, rfl, hI'⟩
  · obtain ⟨r, h', hcall, hr⟩ := hsbrk hno
    have hk := hk r h' hcall
    rcases hr.result with ⟨rfl, hbrk⟩ | ⟨rfl, hbrk, hle⟩
    · have hsame : SameHeap h h' := ⟨hr.start, hbrk, hr.below⟩
      refine ⟨0, h', by rw [hk, kmallocGrow, if_pos rfl], .inl ⟨rfl, hsame⟩, _, .null, hbrk,
        hsame.inv hI⟩
    · have hnf : h.programBreakPoint ≠ sbrkFailed := by simp only [sbrkFailed]; omega
      obtain ⟨m', hg, hI', hu, -⟩ := kmalloc_grown hI hs hnf hr.below (by omega) hle
      have hI'' : Heap.Inv { h' with mem := m' }
          (Function.update live h.programBreakPoint (some size)) (bs ++ [h.programBreakPoint - 8]) := by
        rw [Heap.Inv, hr.start]
        exact hI'
      refine ⟨h.programBreakPoint, { h' with mem := m' }, by rw [hk, hg],
        .inr ⟨by omega, ?_, hr.start, ⟨_, hI''⟩, hu⟩, _, .grown, hbrk, hI''⟩
      cases hl : live h.programBreakPoint with
      | none => rfl
      | some n => have := HeapInv.live_below hI hl; omega

/-- The search of `kmalloc` ends at the block `node`. -/
def SearchEnds (h : Heap ε) (size node : Nat) : Prop :=
  follow (blockNext h.mem) (kmallocStop h.mem (align size)) walkFuel h.heapStart = some node

/-- `kmalloc` gives out the first bytes of the block where its search ends, and writes to the
header in front of them and to the one behind. -/
theorem kmalloc_writes (hI : h.Inv live bs) (hs : size ≤ 4294967288)
    (hsbrk : NoFit h.mem bs size →
      ∃ r h', sbrk (u32 (align size + 8)) h = some (r, h') ∧ SbrkReturns h (align size + 8) r h')
    (hk : kmalloc sbrk size h = some (r, h')) (hr : r ≠ 0) :
    ∃ b, SearchEnds h size b ∧ r = b + 8 ∧
      ∀ x, x < b ∨ b + 16 + align size ≤ x → x + 8 < h.programBreakPoint → h'.mem x = h.mem x := by
  have h0 := HeapInv.le_brk hI
  have h1 := HeapInv.brk_le hI
  rcases hI.blocks.search_spec (align size) with ⟨l₁, b, l₂, hbs, -, hroom, hf⟩ | ⟨hno, hf⟩
  · have hb : b ∈ bs := by simp [hbs]
    have hbd := HeapInv.bounds hI hb
    simp only [kmalloc, hf, Option.bind_eq_bind, Option.bind_some, hI.blocks.notEOM b hb, ne_eq,
      not_true_eq_false, if_false, sizeofHeapBlock, u32_of_lt (show b + 8 < 4294967296 by omega)]
      at hk
    obtain ⟨rfl, rfl⟩ := Prod.mk.inj (Option.some.inj hk)
    refine ⟨b, hf, rfl, fun x hx _ => ?_⟩
    dsimp only
    rw [ByteMem.write8_apply (by omega), if_neg (by omega)]
    rcases HeapInv.split_cases hI hb hroom with ⟨-, heq⟩ | ⟨-, -, heq⟩
    · rw [heq]
    · rw [heq, ByteMem.write32_of_disjoint (by omega) (by omega),
        setMetadata_of_disjoint (by omega) (by omega)]
  · obtain ⟨r', h₁, hcall, hret⟩ := hsbrk hno
    simp only [kmalloc, hf, Option.bind_eq_bind, Option.bind_some, sizeofHeapBlock, hcall,
      hI.blocks.endEOM] at hk
    have hk' : kmallocGrow (h.programBreakPoint - 8) r' h₁ = (r, h') := Option.some.inj hk
    rcases hret.result with ⟨rfl, -⟩ | ⟨rfl, hbrk, hle⟩
    · rw [kmallocGrow, if_pos rfl] at hk'
      exact absurd (Prod.mk.inj hk').1.symm hr
    · have hnf : h.programBreakPoint ≠ sbrkFailed := by simp only [sbrkFailed]; omega
      obtain ⟨m', hg, -, -, hkept⟩ := kmalloc_grown hI hs hnf hret.below (by omega) hle
      obtain ⟨rfl, rfl⟩ := Prod.mk.inj (hg.symm.trans hk')
      exact ⟨_, hf, by omega, fun x _ hx => hkept x hx⟩

/-! ### `kfree` -/

theorem HeapInv.merge_if (hI : HeapInv m start brk live (l₁ ++ b :: p :: l₂))
    (hb : live (b + 8) = none) (hf : blockFree m p ≠ 0) :
    HeapInv (heapBlockMergeDown m b) start brk live (l₁ ++ b :: l₂) ∧
      ∀ x, x < b ∨ b + 8 ≤ x → heapBlockMergeDown m b x = m x := by
  have hbd := hI.bounds (b := b) (by simp)
  refine ⟨hI.merge hb (hI.not_live_of_free (by simp) hf), fun x hx => ?_⟩
  exact ByteMem.write32_of_disjoint (by omega) (by omega)

/-- The first merge of `kfree`: with the block after `b`, which may be the end block. -/
theorem HeapInv.merge_up (hI : HeapInv m start brk live (l₁ ++ b :: l₂))
    (hb : live (b + 8) = none) :
    ∃ m', (if blockFree m (blockNext m b) ≠ 0 then heapBlockMergeDown m b else m) = m' ∧
      HeapInv m' start brk live (l₁ ++ b :: dropFree live l₂) ∧
      ∀ x, x < b ∨ b + 8 ≤ x → m' x = m x := by
  have hseg := (seg_append_cons.mp hI.blocks.seg).2
  cases l₂ with
  | nil =>
    rw [seg_nil.mp hseg, hI.blocks.endUsed]
    exact ⟨m, by simp, hI, fun _ _ => rfl⟩
  | cons c l₂ =>
    rw [hseg.1, dropFree]
    by_cases hc : blockFree m c ≠ 0
    · rw [hI.not_live_of_free (by simp) hc]
      exact ⟨_, if_pos hc, hI.merge_if hb hc⟩
    · rw [if_pos ((hI.used c (by simp)).mp (not_not.mp hc))]
      exact ⟨m, if_neg hc, hI, fun _ _ => rfl⟩

/-- The second merge of `kfree`: of the block before `b`, when that is free. -/
theorem HeapInv.merge_parent (hI : HeapInv m start brk live (l₁ ++ p :: b :: l₂))
    (hb : live (b + 8) = none) :
    ∃ m', (if blockFree m p ≠ 0 then heapBlockMergeDown m p else m) = m' ∧
      HeapInv m' start brk live (joinFree live (l₁ ++ [p]) b ++ l₂) ∧
      ∀ x, x < p ∨ p + 8 ≤ x → m' x = m x := by
  rw [joinFree, List.getLast?_concat]
  dsimp only
  by_cases hp : blockFree m p ≠ 0
  · obtain ⟨hI', hm⟩ := hI.merge_if (hI.not_live_of_free (by simp) hp)
      (hI.free_of_not_live (by simp) hb)
    rw [hI.not_live_of_free (by simp) hp]
    exact ⟨_, if_pos hp, by simpa using hI', hm⟩
  · rw [if_pos ((hI.used p (by simp)).mp (not_not.mp hp))]
    exact ⟨m, if_neg hp, by simpa using hI, fun _ _ => rfl⟩

theorem joins_update (live : Live) (hn : (l₁ ++ b :: l₂).Nodup) :
    joinFree (Function.update live (b + 8) none) l₁ b = joinFree live l₁ b ∧
      dropFree (Function.update live (b + 8) none) l₂ = dropFree live l₂ := by
  have hne : ∀ x, x ∈ l₁ ++ l₂ → x + 8 ≠ b + 8 := by
    intro x hx he
    obtain ⟨h₁, h₂⟩ := Listing.notMem_sides hn
    rw [show x = b by omega] at hx
    exact (List.mem_append.mp hx).elim h₁ h₂
  constructor
  · rw [joinFree, joinFree]
    split
    · rfl
    · rename_i p hp
      rw [Function.update_of_ne (hne p (List.mem_append_left _ (List.mem_of_getLast? hp)))]
  · cases l₂ with
    | nil => rfl
    | cons c l =>
      rw [dropFree, dropFree, Function.update_of_ne (hne c (by simp))]

/-- **`kfree`** of a live pointer returns, and the pointer is not live any more.
Its parent search ends, because the block is in the list. -/
theorem kfree_blocks {e : Nat} (hI : HeapInv h.mem h.heapStart e live bs) (hp : live ptr = some n) :
    ∃ m', kfree ptr h = some { h with mem := m' } ∧ HeadersOnly bs h.mem m' ∧
      ∃ bs', Listing.Dealloc ⟨bs, e, live⟩ ptr ⟨bs', e, Function.update live ptr none⟩ ∧
        HeapInv m' h.heapStart e (Function.update live ptr none) bs' := by
  obtain ⟨b, hb, rfl⟩ := hI.mem_of_live _ _ hp
  have hbd := HeapInv.bounds hI hb
  have hsub : sub32 (b + 8) sizeofHeapBlock = b := by
    rw [sizeofHeapBlock, sub32_of_le (by omega) (by omega), Nat.add_sub_cancel]
  obtain ⟨live₁, hlive₁⟩ : ∃ f, f = Function.update live (b + 8) none := ⟨_, rfl⟩
  have hl₁ : live₁ (b + 8) = none := by rw [hlive₁, Function.update_self]
  have hlne : ∀ q, q ≠ b + 8 → live₁ q = live q := fun q hq => by
    rw [hlive₁, Function.update_of_ne hq]
  -- the flag
  obtain ⟨m₁, hm₁⟩ : ∃ k, k = h.mem.write8 (b + 5) 1 := ⟨_, rfl⟩
  have hI₁ : HeapInv m₁ h.heapStart e live₁ bs := by
    rw [hm₁]
    exact HeapInv.setFree hI hb hlne (by simp [hl₁]) (by simp [hl₁])
  have hx₁ : ∀ x, x < b ∨ b + 8 ≤ x → m₁ x = h.mem x := fun x hx => by
    rw [hm₁, ByteMem.write8_apply (by omega), if_neg (by omega)]
  -- the block after it
  obtain ⟨l₁, l₂, rfl⟩ := List.append_of_mem hb
  obtain ⟨hjoin, hdrop⟩ := joins_update live hI.blocks.nodup
  rw [← hlive₁] at hjoin hdrop
  obtain ⟨m₂, hm₂, hI₂, hx₂⟩ := hI₁.merge_up hl₁
  rw [hdrop] at hI₂
  have hx : HeadersOnly (l₁ ++ b :: l₂) h.mem m₂ := fun x hx =>
    (hx₂ x (hx b (by simp))).trans (hx₁ x (hx b (by simp)))
  by_cases hst : b = h.heapStart
  · have hnil : l₁ = [] := by
      by_contra hne
      have hlt := (seg_append_cons.mp hI.blocks.seg).1.le
        (fun y hy => hI.blocks.step y (List.mem_append_left _ hy))
      have := List.length_pos_iff.mpr hne
      omega
    subst hnil
    refine ⟨m₂, ?_, hx, _, .freed rfl, ?_⟩
    · simp only [kfree, hsub, ← hm₁, hm₂, if_pos hst]
      rfl
    · rw [hlive₁] at hI₂
      exact hI₂
  · -- the block before it
    have hl₁ne : l₁ ≠ [] := by
      rintro rfl
      exact hst (seg_cons.mp hI₂.blocks.seg).1.symm
    obtain ⟨l₁', p, rfl⟩ : ∃ l₁' p, l₁ = l₁' ++ [p] :=
      ⟨_, _, (List.dropLast_concat_getLast hl₁ne).symm⟩
    have hI₂' : HeapInv m₂ h.heapStart e live₁
        (l₁' ++ p :: b :: dropFree live l₂) := by simpa using hI₂
    obtain ⟨m₃, hm₃, hI₃, hx₃⟩ := hI₂'.merge_parent hl₁
    refine ⟨m₃, ?_, fun x hx' => (hx₃ x (hx' p (by simp))).trans (hx x hx'), _, .freed rfl, ?_⟩
    · simp only [kfree, hsub, ← hm₁, hm₂, if_neg hst, hI₂'.blocks.parent_spec,
        Option.bind_eq_bind, Option.bind_some, hm₃]
      rfl
    · rw [hjoin, hlive₁] at hI₃
      exact hI₃

theorem kfree_listing (hI : h.Inv live bs) (hp : live ptr = some n) :
    ∃ h', kfree ptr h = some h' ∧ h'.heapStart = h.heapStart ∧
      h'.programBreakPoint = h.programBreakPoint ∧ Untouched live ptr h.mem h'.mem ∧
      ∃ L, Listing.Dealloc ⟨bs, h.programBreakPoint, live⟩ ptr L ∧ h'.Shows L := by
  obtain ⟨m', hk, hm, bs', hd, hI'⟩ := kfree_blocks hI hp
  exact ⟨_, hk, rfl, rfl, HeapInv.untouched_headers hI hm ptr, _, hd, rfl, hI'⟩

theorem kfree_spec (hI : h.Inv live bs) (hp : live ptr = some n) :
    ∃ h', kfree ptr h = some h' ∧ h'.heapStart = h.heapStart ∧
      h'.programBreakPoint = h.programBreakPoint ∧
      (∃ bs', h'.Inv (Function.update live ptr none) bs') ∧ Untouched live ptr h.mem h'.mem := by
  obtain ⟨h', hk, hst, hbrk, hu, L, hL, -, hI'⟩ := kfree_listing hI hp
  exact ⟨h', hk, hst, hbrk, ⟨L.blocks, hL.live_eq ▸ hI'⟩, hu⟩

/-! ### `kcalloc` -/

theorem HeapInv.client_write (hI : HeapInv m start brk live bs) (hp : live ptr = some n)
    (hm : ∀ x, x < ptr ∨ ptr + n ≤ x → m' x = m x) :
    HeapInv m' start brk live bs ∧ Untouched live ptr m m' := by
  obtain ⟨b, hb, rfl⟩ := hI.mem_of_live _ _ hp
  have hr := hI.room b hb n hp
  exact ⟨hI.payload hb (fun x hx => hm x (by omega)),
    hI.untouched_block hb (fun x hx => hm x (by omega))⟩

/-- **`kcalloc`** is `kmalloc` of the 32-bit product, with the bytes cleared. -/
theorem kcalloc_spec {nmemb : Nat} (hI : h.Inv live bs)
    (hs : u32 (nmemb * size) ≤ 4294967288)
    (hsbrk : NoFit h.mem bs (u32 (nmemb * size)) →
      ∃ r h', sbrk (u32 (align (u32 (nmemb * size)) + 8)) h = some (r, h') ∧
        SbrkReturns h (align (u32 (nmemb * size)) + 8) r h') :
    ∃ r h', kcalloc sbrk nmemb size h = some (r, h') ∧
      AllocResult h live (u32 (nmemb * size)) r h' ∧
      (r ≠ 0 → ∀ i < u32 (nmemb * size), h'.mem (r + i) = 0) ∧
      ∃ L, Listing.Alloc (u32 (nmemb * size)) ⟨bs, h.programBreakPoint, live⟩ r L ∧ h'.Shows L := by
  obtain ⟨r, h', hk, hres, L, hL, hbrk', hI'⟩ := kmalloc_spec hI hs hsbrk
  rcases hres with ⟨rfl, hsame⟩ | ⟨hr, hfresh, hst, -, hu⟩
  · refine ⟨0, h', ?_, Or.inl ⟨rfl, hsame⟩, fun h0 => absurd rfl h0, L, hL, hbrk', hI'⟩
    simp only [kcalloc, hk, Option.bind_eq_bind, Option.bind_some, if_true]
    rfl
  · have hliveL := hL.live_eq hr
    have hlive : L.live r = some (u32 (nmemb * size)) := by rw [hliveL, Function.update_self]
    have hbelow := HeapInv.live_below hI' hlive
    have hbrk := HeapInv.brk_le hI'
    have hset : ∀ x, memset h'.mem r 0 (u32 (nmemb * size)) x
        = if r ≤ x ∧ x < r + u32 (nmemb * size) then 0 else h'.mem x := memset_apply (by omega)
    have hkeep : ∀ x, x < r ∨ r + u32 (nmemb * size) ≤ x →
        memset h'.mem r 0 (u32 (nmemb * size)) x = h'.mem x := fun x hx => by
      rw [hset, if_neg (by omega)]
    obtain ⟨hI'', hu'⟩ := HeapInv.client_write hI' hlive hkeep
    refine ⟨r, { h' with mem := memset h'.mem r 0 (u32 (nmemb * size)) }, ?_,
      Or.inr ⟨hr, hfresh, hst, ⟨L.blocks, by rw [← hliveL]; exact hI''⟩, ?_⟩, ?_,
      L, hL, hbrk', hI''⟩
    · simp only [kcalloc, hk, Option.bind_eq_bind, Option.bind_some, if_neg hr]
      rfl
    · intro p n hp hne i hi
      have hpr : p ≠ r := fun he => by simp [he, hfresh] at hp
      exact (hu' p n (by rw [hliveL, Function.update_of_ne hpr]; exact hp) hpr i hi).trans
        (hu p n hp hne i hi)
    · exact fun _ i hi => (hset _).trans (if_pos (by omega))

/-! ### `krealloc` -/

/-- What `krealloc` of an allocation of `n` bytes to `size` bytes does. -/
def ReallocResult (h : Heap ε) (live : Live) (ptr n size r : Nat) (h' : Heap ε) : Prop :=
  (r = 0 ∧ SameHeap h h') ∨
  (r ≠ 0 ∧ (r = ptr ∨ live r = none) ∧ h'.heapStart = h.heapStart ∧
    (∃ bs', h'.Inv (Function.update (Function.update live ptr none) r (some size)) bs') ∧
    Untouched live ptr h.mem h'.mem ∧ ∀ i < min n size, h'.mem (r + i) = h.mem (ptr + i))

/-- The code of `krealloc` behind its two early returns. -/
theorem krealloc_block (sbrk : Sbrk ε) (h : Heap ε) (hb : b + 8 < 4294967296) (hpos : 0 < size) :
    krealloc sbrk (b + 8) size h
      = if size ≤ internalHeapBlockGetAvailableSpace h.mem b then
          some (b + 8, { h with mem := heapBlockSplit h.mem b size })
        else (kmalloc sbrk size h).bind fun p =>
          if p.1 = 0 then some (0, p.2)
          else (kfree (b + 8) { p.2 with
              mem := memmove p.2.mem p.1 (b + 8) (internalHeapBlockGetAvailableSpace h.mem b) }).bind
            fun h' => some (p.1, h') := by
  have hsub : sub32 (b + 8) sizeofHeapBlock = b := by
    rw [sizeofHeapBlock, sub32_of_le (by omega) hb, Nat.add_sub_cancel]
  rw [krealloc, if_neg (by omega), if_neg (by omega), hsub]
  rfl

/-- **`krealloc`** of a live pointer to a positive size: nothing changes and the
result is `NULL`, or the result is an allocation of that size, in place or new,
with the old bytes as far as both sizes go. -/
theorem krealloc_spec (hI : h.Inv live bs) (hp : live ptr = some n) (hpos : 0 < size)
    (hs : size ≤ 4294967288)
    (hsbrk : internalHeapBlockGetAvailableSpace h.mem (ptr - 8) < size → NoFit h.mem bs size →
      ∃ r h', sbrk (u32 (align size + 8)) h = some (r, h') ∧ SbrkReturns h (align size + 8) r h') :
    ∃ r h', krealloc sbrk ptr size h = some (r, h') ∧ ReallocResult h live ptr n size r h' ∧
      ∃ L, Listing.Realloc ptr size (Splits h.mem (ptr - 8) size) ⟨bs, h.programBreakPoint, live⟩
        r L ∧ h'.Shows L := by
  obtain ⟨b, hb, rfl⟩ := hI.mem_of_live _ _ hp
  have hbd := HeapInv.bounds hI hb
  have hbrk₀ := HeapInv.brk_le hI
  have hroom := HeapInv.room hI b hb n hp
  have hav := hI.blocks.availableSpace hb
  have hal := align_bounds hs
  have hcode := krealloc_block sbrk h (show b + 8 < _ by omega) hpos
  rw [hav] at hcode
  have hsplits : Splits h.mem b size ↔ align size + 8 + 16 ≤ blockNext h.mem b - b - 8 := by
    rw [Splits, hav]
    rfl
  rw [Nat.add_sub_cancel, hav] at hsbrk
  rw [Nat.add_sub_cancel]
  by_cases hfit : size ≤ blockNext h.mem b - b - 8
  · -- in place
    obtain ⟨bs', hI', hb', -, hm, hbs'⟩ := HeapInv.split hI hb (show b + 8 + size ≤ _ by omega)
      (fun p hne => Function.update_of_ne hne (some size) live) (by simp [hp]) (by simp)
    refine ⟨b + 8, { h with mem := heapBlockSplit h.mem b size }, ?_,
      Or.inr ⟨by omega, Or.inl rfl, rfl, ⟨bs', ?_⟩, ?_, fun i hi => hm _ (by omega)⟩, ?_⟩
    · rw [hcode, if_pos hfit]
    · rw [Function.update_idem]
      exact hI'
    · exact HeapInv.untouched_block hI hb (fun x hx => hm x (by omega))
    · rcases hbs' with ⟨hno, rfl⟩ | ⟨hyes, l₁, l₂, rfl, rfl⟩
      · exact ⟨_, .inPlace (.whole hb hno), rfl, hI'⟩
      · have hlt := hsplits.mp hyes
        exact ⟨_, .inPlace (.split rfl hyes (HeapInv.not_live_inside hI hb (by omega) (by omega))),
          rfl, hI'⟩
  · -- a new block
    have hno : ¬ Splits h.mem b size := by
      rw [hsplits]
      omega
    obtain ⟨r, h', hk, hres, L, hL, hbrk', hI'⟩ := kmalloc_spec hI hs (hsbrk (by omega))
    rcases hres with ⟨rfl, hsame⟩ | ⟨hr, hfresh, hst, -, hu⟩
    · refine ⟨0, h', ?_, Or.inl ⟨rfl, hsame⟩, _, .failed hno, hsame.brk, hsame.inv hI⟩
      rw [hcode, if_neg hfit, hk, Option.bind_some, if_pos rfl]
    · have hliveL := hL.live_eq hr
      obtain ⟨bs', brk', live'⟩ := L
      dsimp only at hliveL hI' hbrk'
      subst hliveL hbrk'
      have hrp : b + 8 ≠ r := fun he => by simp [← he, hp] at hfresh
      have hlr : Function.update live r (some size) r = some size := Function.update_self _ _ _
      have hlp : Function.update live r (some size) (b + 8) = some n := by
        rw [Function.update_of_ne hrp]; exact hp
      have hbelow := HeapInv.live_below hI' hlr
      have hbrk := HeapInv.brk_le hI'
      have hmove : ∀ x, memmove h'.mem r (b + 8) (blockNext h.mem b - b - 8) x
          = if r ≤ x ∧ x < r + (blockNext h.mem b - b - 8) then h'.mem (b + 8 + (x - r))
            else h'.mem x := memmove_apply (by omega) (by omega)
      -- the copy stays inside the new block, which is longer than the old one
      have hkeep : ∀ x, x < r ∨ r + size ≤ x →
          memmove h'.mem r (b + 8) (blockNext h.mem b - b - 8) x = h'.mem x := fun x hx => by
        rw [hmove, if_neg (by omega)]
      obtain ⟨hI₂, hu₂⟩ := HeapInv.client_write hI' hlr hkeep
      obtain ⟨h₃, hf, hst₃, -, hu₃, L, hD, hbrk₃, hI₃⟩ := kfree_listing
        (h := { h' with mem := memmove h'.mem r (b + 8) (blockNext h.mem b - b - 8) }) hI₂ hlp
      refine ⟨r, h₃, ?_, Or.inr ⟨hr, Or.inr hfresh, hst₃.trans hst, ?_, ?_, ?_⟩,
        L, .moved hno hr hrp hL hI'.blocks.nodup hD, hbrk₃, hI₃⟩
      · rw [hcode, if_neg hfit, hk, Option.bind_some, if_neg hr, hf, Option.bind_some]
      · rw [Function.update_comm hrp]
        exact ⟨L.blocks, hD.live_eq ▸ hI₃⟩
      · intro p k hpk hne i hi
        have hpr : p ≠ r := fun he => by simp [he, hfresh] at hpk
        have hp0 : p ≠ 0 := by
          obtain ⟨d, _, rfl⟩ := hI.mem_of_live _ _ hpk
          omega
        have hpk' : Function.update live r (some size) p = some k := by
          rw [Function.update_of_ne hpr]; exact hpk
        exact (hu₃ p k hpk' hne i hi).trans
          ((hu₂ p k hpk' hpr i hi).trans (hu p k hpk hp0 i hi))
      · intro i hi
        calc h₃.mem (r + i)
            = memmove h'.mem r (b + 8) (blockNext h.mem b - b - 8) (r + i) :=
              hu₃ r size hlr (Ne.symm hrp) i (by omega)
          _ = h'.mem (b + 8 + i) := by
              rw [hmove, if_pos (by omega), Nat.add_sub_cancel_left]
          _ = h.mem (b + 8 + i) := hu (b + 8) n hp (by omega) i (by omega)

/-! ### `heap_init` -/

theorem heapStartAddr_page (kernelEnd : Nat) : heapStartAddr kernelEnd % 4096 = 0 := by
  rw [heapStartAddr]
  by_cases hk : kernelEnd % pageSize ≠ 0
  · rw [if_pos hk, pageRoundDown]
    omega
  · rw [if_neg hk]
    simpa [pageSize] using hk

theorem heapInit_blocks {a : Nat} (ha : a % 4096 = 0) (hlt : a < 3225419776) :
    HeapInv (internalHeapBlockSetMetadata (internalHeapBlockSetMetadata m 3225419768 1 0 0) a 0 1
      3225419768) a 3225419776 (fun _ => none) [a] := by
  obtain ⟨m₁, hm₁⟩ : ∃ k, k = internalHeapBlockSetMetadata m 3225419768 1 0 0 := ⟨_, rfl⟩
  rw [← hm₁]
  have hend := header_congr (m := m₁) (k := internalHeapBlockSetMetadata m₁ a 0 1 3225419768)
    (b := 3225419768) (by omega) (fun y _ _ => setMetadata_of_disjoint (by omega) (by omega))
  have hn : blockNext (internalHeapBlockSetMetadata m₁ a 0 1 3225419768) a = 3225419768 :=
    blockNext_setMetadata (by omega)
  have hf : blockFree (internalHeapBlockSetMetadata m₁ a 0 1 3225419768) a = 1 :=
    blockFree_setMetadata (by omega)
  rw [hm₁] at hend
  refine ⟨⟨by simp [hn], ?_, ?_, ?_, ?_, ?_, by decide⟩, by omega, by simp [hf], by simp, by simp⟩
  · simp only [List.mem_singleton, forall_eq, hn]
    omega
  · simp only [List.mem_singleton, forall_eq]
    exact blockEOM_setMetadata (by omega)
  · rw [hm₁]
    exact hend.2.1.trans (blockEOM_setMetadata (by omega))
  · rw [hm₁]
    exact hend.2.2.trans (blockFree_setMetadata (by omega))
  · rw [hm₁]
    exact hend.1.trans (blockNext_setMetadata (by omega))

/-- **`heap_init`** sets up one free block and the end block. -/
theorem heapInit_spec {kernelEnd : Nat} {env : ε} (hh : heapInit kernelEnd m env = some h) :
    h.heapStart = heapStartAddr kernelEnd ∧ h.programBreakPoint = 0xC0400000 ∧
      h.Inv (fun _ => none) [h.heapStart] := by
  have hlim : hardLimitAddr = 3225419776 := rfl
  have hpage := heapStartAddr_page kernelEnd
  rw [heapInit] at hh
  split at hh
  · exact absurd hh (by simp)
  · rename_i hlt
    obtain rfl := Option.some.inj hh
    rw [hlim] at hlt ⊢
    have hsub : sub32 3225419776 sizeofHeapBlock = 3225419768 := rfl
    rw [hsub]
    exact ⟨rfl, rfl, heapInit_blocks hpage (by omega)⟩

theorem heapInit_env {kernelEnd : Nat} {env : ε} (hh : heapInit kernelEnd m env = some h) :
    h.env = env := by
  rw [heapInit] at hh
  split at hh
  · exact absurd hh (by simp)
  · obtain rfl := Option.some.inj hh
    rfl

end

end ChoOS
