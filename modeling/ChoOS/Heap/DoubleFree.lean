import ChoOS.Heap.Break
import ChoOS.Heap.Layout

/-!
# A pointer freed twice

`kfree` looks at the flag of the block, logs when it is `FREE` already, and goes
on.  With the header still on the list nothing comes of it: no neighbour of a free
block is free, so neither merge is made, and the parent search finds the block in
front.  But the first `kfree`, or a later one, may have joined the block with the
one in front of it.  Then no `next` leads to the header any more, and the parent
search runs over the end block to `NULL`.

`KfreeFollows` are the blocks whose `next` the call follows, and `HarmlessFree` is
what one may expect of the second `kfree`.  `double_free_harmless` says that it
holds exactly when the header is on the list.
-/

namespace ChoOS

variable {ε : Type}

/-- The memory in which `kfree` searches the parent of the block. -/
def kfreeSearched (block : Nat) (m : ByteMem) : ByteMem :=
  let m := m.write8 (block + 5) 1
  if blockFree m (blockNext m block) ≠ 0 then heapBlockMergeDown m block else m

/-- The blocks whose `next` is followed: the one of the pointer, the one behind it when
the two are joined, and those that the parent search passes. -/
inductive KfreeFollows (h : Heap ε) (ptr : Nat) : Nat → Prop
  | block : KfreeFollows h ptr (sub32 ptr sizeofHeapBlock)
  | joined {m : ByteMem} {b : Nat} : m = h.mem.write8 (sub32 ptr sizeofHeapBlock + 5) 1 →
      b = blockNext m (sub32 ptr sizeofHeapBlock) → blockFree m b ≠ 0 → KfreeFollows h ptr b
  | parent {m : ByteMem} {i : Nat} : m = kfreeSearched (sub32 ptr sizeofHeapBlock) h.mem →
      sub32 ptr sizeofHeapBlock ≠ h.heapStart →
      (∀ j < i, blockNext m ((blockNext m)^[j] h.heapStart) ≠ sub32 ptr sizeofHeapBlock) →
      KfreeFollows h ptr ((blockNext m)^[i] h.heapStart)

/-- The same blocks, in the same order, with the same flags. -/
structure SameList (h h' : Heap ε) : Prop where
  start : h'.heapStart = h.heapStart
  onList : ∀ b, OnList h'.mem h'.heapStart b ↔ OnList h.mem h.heapStart b
  next : ∀ b, OnList h.mem h.heapStart b → blockNext h'.mem b = blockNext h.mem b
  EOM : ∀ b, OnList h.mem h.heapStart b → blockEOM h'.mem b = blockEOM h.mem b
  free : ∀ b, OnList h.mem h.heapStart b → (blockFree h'.mem b = 0 ↔ blockFree h.mem b = 0)

/-- `kfree` returns, follows `next` only through blocks of the list, and leaves them as
they are. -/
structure HarmlessFree (h : Heap ε) (ptr : Nat) : Prop where
  returns : ∃ h', kfree ptr h = some h' ∧ SameList h h'
  follows : ∀ b, KfreeFollows h ptr b → OnList h.mem h.heapStart b

section Freed

variable {h : Heap ε} {live : Live} {bs l₁ l₂ : List Nat} {b p ptr e : Nat} {m : ByteMem}

theorem kfree_of_start (hb : sub32 ptr sizeofHeapBlock = b) (hm : kfreeSearched b h.mem = m)
    (hst : b = h.heapStart) : kfree ptr h = some { h with mem := m } := by
  simp only [kfree, hb, ← hm, kfreeSearched, if_pos hst]
  rfl

theorem kfree_of_parent (hb : sub32 ptr sizeofHeapBlock = b) (hm : kfreeSearched b h.mem = m)
    (hst : b ≠ h.heapStart)
    (hf : follow (blockNext m) (fun q => blockNext m q == b) walkFuel h.heapStart = some p)
    (hused : blockFree m p = 0) : kfree ptr h = some { h with mem := m } := by
  subst hm
  have hused : ¬ blockFree (kfreeSearched b h.mem) p ≠ 0 := not_not.mpr hused
  simp only [kfreeSearched] at hf hused
  simp only [kfree, hb, kfreeSearched, if_neg hst, hf, Option.bind_eq_bind, Option.bind_some,
    if_neg hused]
  rfl

theorem sub32_header (hI : HeapInv m p e live bs) (hb : b ∈ bs) :
    sub32 (b + 8) sizeofHeapBlock = b := by
  have hbd := hI.bounds hb
  rw [sizeofHeapBlock, sub32_of_le (by omega) (by omega), Nat.add_sub_cancel]

theorem next_used (hI : HeapInv m p e live (l₁ ++ b :: l₂)) (hfree : live (b + 8) = none)
    (hc : (l₁ ++ b :: l₂).IsChain (Listing.OneUsed live)) : blockFree m (blockNext m b) = 0 := by
  have hseg := (seg_append_cons.mp hI.blocks.seg).2
  cases l₂ with
  | nil => rw [seg_nil.mp hseg, hI.blocks.endUsed]
  | cons c l₂ =>
    have hone := List.isChain_iff_forall_rel_of_append_cons_cons.mp hc rfl
    rw [hseg.1]
    exact (hI.used c (by simp)).mpr (hone.resolve_left (by simp [hfree]))

/-- **Freed again with its header on the list**, a block is flagged `FREE` once more, and
that is all. -/
theorem HeapInv.freed_again (hI : HeapInv h.mem h.heapStart e live bs) (hb : b ∈ bs)
    (hfree : live (b + 8) = none) (hc : bs.IsChain (Listing.OneUsed live)) :
    kfree (b + 8) h = some { h with mem := h.mem.write8 (b + 5) 1 } ∧
      ∀ x, KfreeFollows h (b + 8) x → x ∈ bs := by
  have hsub := sub32_header hI hb
  have hI₁ : HeapInv (h.mem.write8 (b + 5) 1) h.heapStart e live bs :=
    hI.setFree hb (fun _ _ => rfl) (by simp [hfree]) (by simp [hfree])
  obtain ⟨l₁, l₂, rfl⟩ := List.append_of_mem hb
  have hnext := next_used hI₁ hfree hc
  have hm : kfreeSearched b h.mem = h.mem.write8 (b + 5) 1 := by
    rw [kfreeSearched]
    exact if_neg (not_not.mpr hnext)
  by_cases hst : b = h.heapStart
  · refine ⟨kfree_of_start hsub hm hst, ?_⟩
    rintro x hx
    cases hx with
    | block => rwa [hsub]
    | joined hm' hx' hf =>
      rw [hsub] at hm' hx'
      subst hm' hx'
      exact absurd hnext hf
    | parent _ hne _ => exact absurd (hsub.trans hst) hne
  · -- the block in front is in use
    have hl₁ : l₁ ≠ [] := by
      rintro rfl
      exact hst (seg_cons.mp hI.blocks.seg).1.symm
    obtain ⟨l₁, p, rfl⟩ : ∃ l p, l₁ = l ++ [p] :=
      ⟨_, _, (List.dropLast_concat_getLast hl₁).symm⟩
    rw [List.append_assoc, List.singleton_append] at hI hI₁ hc ⊢
    have hone := List.isChain_iff_forall_rel_of_append_cons_cons.mp hc rfl
    have hused := (hI₁.used p (by simp)).mpr (hone.resolve_right (by simp [hfree]))
    refine ⟨kfree_of_parent hsub hm hst hI₁.blocks.parent_spec hused, ?_⟩
    rintro x hx
    cases hx with
    | block =>
      rw [hsub]
      simp
    | joined hm' hx' hf =>
      rw [hsub] at hm' hx'
      subst hm' hx'
      exact absurd hnext hf
    | @parent m i hm' _ hbefore =>
      rw [hsub, hm] at hm'
      rw [hsub] at hbefore
      subst hm'
      have hwalk := hI₁.blocks.seg.iterate_getElem
      have hle : i ≤ l₁.length := by
        by_contra hlt
        have hp := hbefore l₁.length (by omega)
        rw [hwalk _ (by simp), List.getElem_append_right (Nat.le_refl _)] at hp
        simp only [Nat.sub_self, List.getElem_cons_zero] at hp
        exact hp (seg_append_cons.mp hI₁.blocks.seg).2.1
      rw [hwalk i (by simp; omega)]
      exact List.getElem_mem _

theorem HeapInv.sameList (hI : HeapInv h.mem h.heapStart h.programBreakPoint live bs) (hb : b ∈ bs)
    (hfree : live (b + 8) = none) : SameList h { h with mem := h.mem.write8 (b + 5) 1 } := by
  have hbd := hI.bounds hb
  have hI₁ : HeapInv (h.mem.write8 (b + 5) 1) h.heapStart h.programBreakPoint live bs :=
    hI.setFree hb (fun _ _ => rfl) (by simp [hfree]) (by simp [hfree])
  have hhdr : ∀ x, OnList h.mem h.heapStart x → x ≠ b →
      blockNext (h.mem.write8 (b + 5) 1) x = blockNext h.mem x ∧
      blockEOM (h.mem.write8 (b + 5) 1) x = blockEOM h.mem x ∧
      blockFree (h.mem.write8 (b + 5) 1) x = blockFree h.mem x := by
    intro x hx hne
    have hx := hI.blocks.onList_iff.mp hx
    have hapart : x + 8 ≤ b ∨ b + 8 ≤ x := by
      rcases List.mem_append.mp hx with hx | hx
      · have h1 := hI.bounds hx
        have h2 := hI.blocks.apart hx hb hne
        omega
      · rw [List.mem_singleton.mp hx]
        omega
    have hle := hI.brk_le
    have hx8 : x + 8 ≤ 4294967296 := by
      rcases List.mem_append.mp hx with hx | hx
      · have h1 := hI.bounds hx
        omega
      · rw [List.mem_singleton.mp hx]
        omega
    refine header_congr hx8 fun y h1 h2 => ?_
    rw [ByteMem.write8_apply (by omega), if_neg (by omega)]
  refine ⟨rfl, fun x => ?_, fun x hx => ?_, fun x hx => ?_, fun x hx => ?_⟩
  · exact hI₁.blocks.onList_iff.trans hI.blocks.onList_iff.symm
  · by_cases hxb : x = b
    · rw [hxb]
      exact blockNext_write8_free (by omega)
    · exact (hhdr x hx hxb).1
  · by_cases hxb : x = b
    · rw [hxb]
      exact blockEOM_write8_free (by omega)
    · exact (hhdr x hx hxb).2.1
  · by_cases hxb : x = b
    · rw [hxb]
      exact (hI₁.used b hb).trans (hI.used b hb).symm
    · rw [show blockFree _ x = _ from (hhdr x hx hxb).2.2]

/-- The call writes only into the header, until it has found the parent. -/
theorem kfreeSearched_of_disjoint {x : Nat} (hb : b + 8 ≤ 4294967296) (hx : x < b ∨ b + 8 ≤ x) :
    kfreeSearched b m x = m x := by
  have h8 : m.write8 (b + 5) 1 x = m x := by
    rw [ByteMem.write8_apply (by omega), if_neg (by omega)]
  rw [kfreeSearched]
  split
  · rw [heapBlockMergeDown, ByteMem.write32_of_disjoint (by omega) (by omega), h8]
  · exact h8

/-- **Freed again without its header on the list**, a block is searched past the end. -/
theorem HeapInv.search_passes (hI : HeapInv h.mem h.heapStart e live bs)
    (hmem : b ∉ bs ++ [e - 8]) (hlo : h.heapStart ≤ b) (hhi : b + 16 ≤ e)
    (hb8 : b % 8 = 0) (hal : ∀ x ∈ bs ++ [e - 8], x % 8 = 0) : KfreeFollows h (b + 8) 0 := by
  have hbrk := hI.brk_le
  have hsub : sub32 (b + 8) sizeofHeapBlock = b := by
    rw [sizeofHeapBlock, sub32_of_le (by omega) (by omega), Nat.add_sub_cancel]
  have hst : b ≠ h.heapStart := by
    rintro rfl
    exact hmem (hI.blocks.onList_iff.mp ⟨0, rfl, fun j hj => absurd hj (Nat.not_lt_zero j)⟩)
  have hstop : b ≠ e - 8 := fun he => hmem (by simp [he])
  -- the header lies in the payload of a block
  obtain ⟨y, hy, hyb, hby⟩ := hI.blocks.seg.exists_mem hlo (show b < e - 8 by omega)
  have hne : y ≠ b := fun he => hmem (by simp [← he, hy])
  have hy8 := hal y (by simp [hy])
  have hn8 : blockNext h.mem y % 8 = 0 := by
    obtain ⟨l₁, l₂, rfl⟩ := List.append_of_mem hy
    have hseg := (seg_append_cons.mp hI.blocks.seg).2
    rw [hseg.start_eq]
    refine hal _ ?_
    cases l₂ <;> simp
  have hout : ∀ x, x < b ∨ b + 8 ≤ x → kfreeSearched b h.mem x = h.mem x :=
    fun x hx => kfreeSearched_of_disjoint (by omega) hx
  obtain ⟨m, hm⟩ : ∃ m, m = kfreeSearched b h.mem := ⟨_, rfl⟩
  have hI' : HeapInv m h.heapStart e live bs := by
    rw [hm]
    exact hI.payload hy fun x hx => hout x (by omega)
  have hwalk := hI'.blocks.seg.iterate_getElem
  have hend := hI'.blocks.seg.iterate
  -- every `next` on the way leads to another block of the list, the last one to `NULL`
  have hstep : ∀ j < bs.length + 1, blockNext m ((blockNext m)^[j] h.heapStart) ≠ b := by
    intro j hj he
    rw [← Function.iterate_succ_apply' (blockNext m)] at he
    rcases Nat.lt_trichotomy (j + 1) bs.length with hlt | heq | hgt
    · rw [hwalk (j + 1) hlt] at he
      exact hmem (by simp [← he])
    · rw [show j.succ = bs.length from heq, hend] at he
      exact hstop he.symm
    · obtain rfl : j = bs.length := by omega
      rw [Function.iterate_succ_apply', hend, hI'.blocks.endNext] at he
      omega
  have hlast : (blockNext m)^[bs.length + 1] h.heapStart = 0 := by
    rw [Function.iterate_succ_apply', hend, hI'.blocks.endNext]
  rw [← hlast]
  exact .parent (by rw [hsub, hm]) (by rwa [hsub]) (by rwa [hsub])

end Freed

/-! ### Runs -/

/-- The calls of a run: `kmalloc`, `kfree`, and the clients' accesses. -/
def MallocFree (_ : ByteMem) : HeapEvent → Prop
  | .kcalloc _ _ _ => False
  | .krealloc _ _ _ => False
  | _ => True

section Run

variable {kernelEnd : Nat} {mbd : Multiboot} {h₀ : Heap Machine} {c c' : Client Machine}
variable {es : List HeapEvent} {e : HeapEvent} {L L' : Listing} {splits : Prop} {p size : Nat}

theorem ListStep.brk_le (hs : ListStep splits L e L') : L.brk ≤ L'.brk := by
  have halloc : ∀ {n r : Nat} {L L' : Listing}, L.Alloc n r L' → L.brk ≤ L'.brk := by
    intro n r L L' ha
    cases ha with
    | null => exact Nat.le_refl _
    | whole _ _ => exact Nat.le_refl _
    | split _ _ => exact Nat.le_refl _
    | grown => exact Nat.le_add_right _ _
  have hdealloc : ∀ {ptr : Nat} {L L' : Listing}, L.Dealloc ptr L' → L'.brk = L.brk := by
    intro ptr L L' hd
    cases hd
    rfl
  cases hs with
  | kmalloc ha => exact halloc ha
  | kcalloc ha => exact halloc ha
  | kreallocNull _ ha => exact halloc ha
  | kreallocZero _ hd => exact (hdealloc hd).ge
  | krealloc hr =>
    cases hr with
    | failed _ => exact Nat.le_refl _
    | inPlace hr => cases hr <;> exact Nat.le_refl _
    | moved _ _ _ ha _ hd =>
      rw [hdealloc hd]
      exact halloc ha
  | kfree hd => exact (hdealloc hd).ge
  | write => exact Nat.le_refl _
  | read => exact Nat.le_refl _

theorem returned_bounds (hboot : BootedHeap kernelEnd mbd h₀)
    (hrun : Trace (LayoutStep SplitsAligned) ⟨h₀, fun _ => none⟩ es c)
    (hret : .kmalloc size p ∈ es) (hp : p ≠ 0) :
    c.heap.heapStart + 8 ≤ p ∧ p + 8 ≤ c.heap.programBreakPoint ∧ p % 8 = 0 := by
  obtain ⟨-, magic, mem, s, t, ram, m, hdir, hinit⟩ := hboot
  obtain ⟨es₁, es₂, rfl⟩ := List.append_of_mem hret
  obtain ⟨c₁, hrun₁, hrun₂⟩ := hrun.split
  obtain ⟨c₂, hs, hrun₃⟩ := hrun₂.uncons
  obtain ⟨hR₁, L₁, hL₁, hal₁⟩ := listing_aligned hdir hinit hrun₁
  obtain ⟨hR₂, L₂, hs₂, hL₂⟩ := hs.1.honest_listing hR₁ hL₁
  have hp8 : p % 8 = 0 := hs₂.result_aligned hal₁
  have hlive : L₂.live p = some size := by
    cases hs₂ with
    | kmalloc ha => rw [ha.live_eq hp, Function.update_self]
  have hI₂ := hL₂.2.2
  have hbelow := HeapInv.live_below hI₂ hlive
  obtain ⟨b, hb, rfl⟩ := hI₂.mem_of_live _ _ hlive
  have hlow := (HeapInv.bounds hI₂ hb).1
  -- from here on the start stays and the break does not go down
  obtain ⟨-, -, hst, hbrk⟩ := hrun₃.invariant (I := fun c => c.Inv ∧ Ready c.heap ∧
      c.heap.heapStart = c₂.heap.heapStart ∧
      c₂.heap.programBreakPoint ≤ c.heap.programBreakPoint)
    ⟨hL₂.inv, hR₂, rfl, Nat.le_refl _⟩ fun c e c' ⟨hI, hR, hst, hbrk⟩ ⟨hs, _⟩ => by
      have hs' : HeapStep (fun h sbrk call => honestCalls h sbrk call ∧ Ready h) c e c' :=
        hs.mono fun _ _ hc => ⟨hc, hR⟩
      refine ⟨hs'.inv legalCalls_honest hI, hs.ready hI hR,
        (hs'.heapStart legalCalls_honest hI).trans hst, ?_⟩
      obtain ⟨bs, hI⟩ := hI
      obtain ⟨L', hstep, hL'⟩ := hs'.listing legalCalls_honest (Client.Inv.shows hI)
      have := hstep.brk_le
      rw [hL'.2.1]
      exact hbrk.trans this
  omega

/-- **A second `kfree` is harmless exactly when the header is still on the list.**  This is
for every state of every run of `kmalloc` and `kfree`, and every pointer that `kmalloc`
returned and that is not live.  Otherwise the parent search follows the `next` of the end
block, and goes on from `NULL`. -/
theorem double_free_harmless (hboot : BootedHeap kernelEnd mbd h₀)
    (hrun : Trace (LayoutStep MallocFree) ⟨h₀, fun _ => none⟩ es c)
    (hret : .kmalloc size p ∈ es) (hp : p ≠ 0) (hfreed : c.live p = none) :
    (HarmlessFree c.heap p ↔ OnList c.heap.mem c.heap.heapStart (p - 8)) ∧
    (¬ OnList c.heap.mem c.heap.heapStart (p - 8) →
      KfreeFollows c.heap p 0 ∧ ¬ OnList c.heap.mem c.heap.heapStart 0) := by
  obtain ⟨-, magic, mem, s, t, ram, m, hdir, hinit⟩ := id hboot
  have haligned : Trace (LayoutStep SplitsAligned) ⟨h₀, fun _ => none⟩ es c :=
    hrun.mono fun c e c' ⟨hs, hok⟩ => ⟨hs, by rintro _ _ _ rfl; exact absurd hok id⟩
  obtain ⟨hlo, hhi, hp8⟩ := returned_bounds hboot haligned hret hp
  obtain ⟨-, L, hL, hal, hc⟩ := listing_run (Φ := fun L => L.Aligned ∧ L.Coalesced) hdir hinit hrun
    ⟨listing_start_aligned hinit, List.isChain_singleton _⟩ (by
      rintro c L e L' hL ⟨hal, hc⟩ hok hs
      have hno : ∀ ptr size r, e ≠ .krealloc ptr size r := by
        rintro _ _ _ rfl
        exact hok
      exact ⟨(hs.aligned_iff hal).mpr fun _ _ _ he => absurd he (hno _ _ _),
        hL.step_coalesced hs hc fun _ _ _ he => absurd he (hno _ _ _)⟩)
  have hI : HeapInv c.heap.mem c.heap.heapStart c.heap.programBreakPoint L.live L.blocks := hL.2.2
  have honList : ∀ b, OnList c.heap.mem c.heap.heapStart b ↔
      b ∈ L.blocks ++ [c.heap.programBreakPoint - 8] := fun b => hI.blocks.onList_iff
  obtain ⟨b, rfl⟩ : ∃ b, p = b + 8 := ⟨p - 8, by omega⟩
  have hbrk := hI.brk_le
  have hsub : sub32 (b + 8) sizeofHeapBlock = b := by
    rw [sizeofHeapBlock, sub32_of_le (by omega) (by omega), Nat.add_sub_cancel]
  rw [Nat.add_sub_cancel]
  rw [hL.1] at hfreed
  refine ⟨⟨fun hh => ?_, fun hon => ?_⟩, fun hoff => ⟨?_, fun h0 => ?_⟩⟩
  · have := hh.follows _ .block
    rwa [hsub] at this
  · have hb : b ∈ L.blocks := by
      rcases List.mem_append.mp ((honList b).mp hon) with hb | hb
      · exact hb
      · have := List.mem_singleton.mp hb
        omega
    obtain ⟨hk, hfollows⟩ := hI.freed_again hb hfreed hc
    refine ⟨⟨_, hk, hI.sameList hb hfreed⟩, fun x hx => ?_⟩
    exact (honList x).mpr (List.mem_append_left _ (hfollows x hx))
  · refine hI.search_passes (fun hmem => hoff ((honList b).mpr hmem)) (by omega) (by omega)
      (by omega) fun x hx => ?_
    rcases List.mem_append.mp hx with hx | hx
    · exact hal.blocks x hx
    · have h8 := hal.brk
      have := hL.2.1
      rw [List.mem_singleton.mp hx]
      omega
  · have hst := (honest_run hdir hinit (hrun.mono fun _ _ _ hs => hs.1)).2.2
    have hkernel := hboot.inBounds.1.kernel
    have hstop := hI.blocks.start_le_stop
    rcases List.mem_append.mp ((honList 0).mp h0) with h0 | h0
    · have := (hI.bounds h0).1
      omega
    · have := List.mem_singleton.mp h0
      omega

theorem double_free_harmless_lower : ∃ h₀ c, BootedHeap 0xC0120000 oneEntryMap h₀ ∧
    Trace (LayoutStep MallocFree) ⟨h₀, fun _ => none⟩
      [.kmalloc 100 0xC0120008, .kfree 0xC0120008] c ∧ HarmlessFree c.heap 0xC0120008 := by
  obtain ⟨h₀, h₁, h₂, hinit, hk₁, hk₂, hb₀, hst⟩ : ∃ h₀ h₁ h₂,
      heapInit 0xC0120000 (fun _ => 0) (Machine.start oneEntryInit.1 oneEntryInit.2 fun _ => 0)
        = some h₀ ∧
      kmalloc sbrk 100 h₀ = some (0xC0120008, h₁) ∧ kfree 0xC0120008 h₁ = some h₂ ∧
      h₀.programBreakPoint = 0xC0400000 ∧ h₂.heapStart = 0xC0120000 :=
    ⟨_, _, _, rfl, rfl, rfl, rfl, rfl⟩
  have hrun : Trace (LayoutStep MallocFree) ⟨h₀, fun _ => none⟩
      [.kmalloc 100 0xC0120008, .kfree 0xC0120008] _ :=
    .snoc (.snoc .nil
      ⟨.kmalloc ⟨rfl, .inr (honest_of_brk hb₀ (by decide))⟩ hk₁, trivial⟩)
      ⟨.kfree rfl hk₂, trivial⟩
  have hboot := bootedHeap_oneEntry hinit
  refine ⟨h₀, _, hboot, hrun, (double_free_harmless hboot hrun List.mem_cons_self (by decide)
    (by simp)).1.mpr ⟨0, hst, fun j hj => absurd hj (Nat.not_lt_zero j)⟩⟩

/-- The upper of two blocks, freed last, was joined with the lower one; freed again, it is
searched from `NULL` on. -/
theorem double_free_runs_away : ∃ h₀ c, BootedHeap 0xC0120000 oneEntryMap h₀ ∧
    Trace (LayoutStep MallocFree) ⟨h₀, fun _ => none⟩ [.kmalloc 100 0xC0120008,
      .kmalloc 100 0xC0120078, .kfree 0xC0120008, .kfree 0xC0120078] c ∧
    c.live 0xC0120078 = none ∧ ¬ HarmlessFree c.heap 0xC0120078 := by
  obtain ⟨h₀, h₁, h₂, h₃, h₄, hinit, hk₁, hk₂, hk₃, hk₄, hb₀, hb₁, hst, hnext, heom⟩ :
      ∃ h₀ h₁ h₂ h₃ h₄,
      heapInit 0xC0120000 (fun _ => 0) (Machine.start oneEntryInit.1 oneEntryInit.2 fun _ => 0)
        = some h₀ ∧
      kmalloc sbrk 100 h₀ = some (0xC0120008, h₁) ∧
      kmalloc sbrk 100 h₁ = some (0xC0120078, h₂) ∧ kfree 0xC0120008 h₂ = some h₃ ∧
      kfree 0xC0120078 h₃ = some h₄ ∧ h₀.programBreakPoint = 0xC0400000 ∧
      h₁.programBreakPoint = 0xC0400000 ∧ h₄.heapStart = 0xC0120000 ∧
      blockNext h₄.mem 0xC0120000 = 0xC03FFFF8 ∧ blockEOM h₄.mem 0xC03FFFF8 = 1 :=
    ⟨_, _, _, _, _, rfl, rfl, rfl, rfl, rfl, rfl, rfl, rfl, rfl, rfl⟩
  have hrun : Trace (LayoutStep MallocFree) ⟨h₀, fun _ => none⟩ [.kmalloc 100 0xC0120008,
      .kmalloc 100 0xC0120078, .kfree 0xC0120008, .kfree 0xC0120078] _ :=
    .snoc (.snoc (.snoc (.snoc .nil
      ⟨.kmalloc ⟨rfl, .inr (honest_of_brk hb₀ (by decide))⟩ hk₁, trivial⟩)
      ⟨.kmalloc ⟨rfl, .inr (honest_of_brk hb₁ (by decide))⟩ hk₂, trivial⟩)
      ⟨.kfree rfl hk₃, trivial⟩)
      ⟨.kfree rfl hk₄, trivial⟩
  refine ⟨h₀, _, bootedHeap_oneEntry hinit, hrun, by simp, fun hh => ?_⟩
  obtain ⟨i, hi, hbefore⟩ := hh.follows _ .block
  have hsub : sub32 0xC0120078 sizeofHeapBlock = 0xC0120070 := by decide
  rw [hsub] at hi
  change (blockNext h₄.mem)^[i] h₄.heapStart = 0xC0120070 at hi
  -- the list is one block and the end block
  rcases i with _ | _ | i
  · rw [Function.iterate_zero_apply, hst] at hi
    exact absurd hi (by decide)
  · rw [Function.iterate_one, hst, hnext] at hi
    exact absurd hi (by decide)
  · have hend : blockEOM h₄.mem ((blockNext h₄.mem)^[1] h₄.heapStart) = 0 := hbefore 1 (by omega)
    rw [Function.iterate_one, hst, hnext, heom] at hend
    exact absurd hend (by decide)

end Run

end ChoOS
