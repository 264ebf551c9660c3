import ChoOS.Heap.SetBreak

/-!
# `kcalloc` for every pair of arguments

`kcalloc` multiplies its arguments modulo `2 ^ 32` and asks `kmalloc` for the rest.
So the block is for the product that is left, and `memset` clears as much.

`Provided` is what a caller may expect of a pointer that is not `NULL`: a block of
the list with room for the product as an integer, cleared.  `kcalloc_provides` says
for which arguments this holds: exactly for those whose product is an honest request
of `kmalloc`, with nothing wrapped on the way to the break.
-/

namespace ChoOS

/-- `p` is behind the header of a `USED` block of the list that has room for `n` bytes,
and the first `n` of them are zero. -/
structure Provided (h : Heap Machine) (p n : Nat) : Prop where
  start : h.heapStart ≤ p
  fits : p + n ≤ h.programBreakPoint
  block : ∃ i, (∀ j ≤ i, blockEOM h.mem ((blockNext h.mem)^[j] h.heapStart) = 0) ∧
    blockFree h.mem ((blockNext h.mem)^[i] h.heapStart) = 0 ∧
    (blockNext h.mem)^[i] h.heapStart + 8 = p ∧
    p + n ≤ blockNext h.mem ((blockNext h.mem)^[i] h.heapStart)
  zero : ∀ i < n, h.mem (p + i) = 0

/-- `kmalloc` grows the heap into the recursive window, where `sbrk` itself is wrong. -/
def EntersWindow (h : Heap Machine) (size : Nat) : Prop :=
  ReachesEnd h size ∧ ptBaseVaddr < h.programBreakPoint + (align size + 8) ∧
    h.programBreakPoint + (align size + 8) < 4294967296

section Calloc

variable {h h' h₀ : Heap Machine} {c c' : Client Machine} {live : Live} {bs : List Nat}
variable {nmemb size p r : Nat} {e : HeapEvent}

theorem kmalloc_old_break (hI : h.Inv live bs) (hend : ReachesEnd h size)
    (hk : kmalloc sbrk size h = some (p, h')) (hp : p ≠ 0) :
    ∃ r₁ h₁, sbrk (u32 (align size + 8)) h = some (r₁, h₁) ∧ r₁ ≠ sbrkFailed ∧
      p = h.programBreakPoint ∧ h'.programBreakPoint = h₁.programBreakPoint := by
  have h8 := HeapInv.le_brk hI
  have hbrk := HeapInv.brk_le hI
  obtain ⟨node, hn, hk⟩ := Option.bind_eq_some_iff.mp hk
  obtain ⟨node', hn', hEOM⟩ := hend
  obtain rfl := Option.some.inj (hn.symm.trans hn')
  have hnode : node = h.programBreakPoint - 8 := by
    rcases hI.blocks.search_spec (align size) with ⟨l₁, b, l₂, hbs, -, -, hf⟩ | ⟨-, hf⟩
    · obtain rfl := Option.some.inj (hn.symm.trans hf)
      exact absurd (hI.blocks.notEOM node (by simp [hbs])) hEOM
    · exact Option.some.inj (hn.symm.trans hf)
  rw [if_pos hEOM] at hk
  obtain ⟨⟨r₁, h₁⟩, hs, hk⟩ := Option.bind_eq_some_iff.mp hk
  have hbreak := (kmallocGrow_break h₁ node r₁).2
  have hgrow := Option.some.inj hk
  rw [hgrow] at hbreak
  refine ⟨r₁, h₁, hs, ?_, ?_, hbreak⟩
  · rintro rfl
    rw [kmallocGrow, if_pos rfl] at hgrow
    exact hp (Prod.mk.inj hgrow).1.symm
  · rw [kmallocGrow] at hgrow
    split at hgrow
    · exact absurd (Prod.mk.inj hgrow).1.symm hp
    · have := (Prod.mk.inj hgrow).1
      rw [← this, hnode, sizeofHeapBlock, u32_of_lt (by omega)]
      omega

theorem kcalloc_kmalloc (hk : kcalloc sbrk nmemb size h = some (p, h')) :
    ∃ h₁, kmalloc sbrk (u32 (nmemb * size)) h = some (p, h₁) ∧
      h'.programBreakPoint = h₁.programBreakPoint := by
  obtain ⟨⟨p₁, h₁⟩, hk₁, hk⟩ := Option.bind_eq_some_iff.mp hk
  dsimp only at hk
  split at hk <;> obtain ⟨rfl, rfl⟩ := Prod.mk.inj (Option.some.inj hk)
  · rename_i h0 _
    rw [h0] at hk₁
    exact ⟨_, hk₁, rfl⟩
  · exact ⟨_, hk₁, rfl⟩

/-- **`kcalloc` provides what was asked** for an honest product. -/
theorem kcalloc_of_honest (hI : h.Inv live bs) (hR : Ready h)
    (hh : HonestRequest h (nmemb * size)) :
    ∃ p h', kcalloc sbrk nmemb size h = some (p, h') ∧ (p ≠ 0 → Provided h' p (nmemb * size)) := by
  have hmax := hh.1
  have hu : u32 (nmemb * size) = nmemb * size := u32_of_lt (by omega)
  have hlegal : honestCalls h sbrk (.kcalloc nmemb size) := by
    refine ⟨rfl, .inr ?_⟩
    rw [HeapCall.request, hu]
    exact hh
  obtain ⟨p, h', hk, hres, hzero, -⟩ := legal_kcalloc legalCalls_honest hI ⟨hlegal, hR⟩
  refine ⟨p, h', hk, fun hp => ?_⟩
  rw [hu] at hres hzero
  rcases hres with ⟨h0, -⟩ | ⟨-, -, -, ⟨bs', hI'⟩, -⟩
  · exact absurd h0 hp
  · obtain ⟨hst, hend, hblock⟩ := Heap.Inv.block_of_live hI' (Function.update_self p _ live)
    exact ⟨hst, hend, hblock, hzero hp⟩

/-- **Only an honest product is provided.** -/
theorem Provided.honest (hI : h.Inv live bs) (hlo : 3221225472 ≤ h.heapStart)
    (hk : kcalloc sbrk nmemb size h = some (p, h')) (hp : p ≠ 0)
    (hw : ¬ EntersWindow h (u32 (nmemb * size))) (hP : Provided h' p (nmemb * size)) :
    HonestRequest h (nmemb * size) := by
  obtain ⟨hle, hhi⟩ := Heap.Inv.start_le hI
  obtain ⟨h₁, hk₁, hbrk₁⟩ := kcalloc_kmalloc hk
  have hfits := hP.fits
  obtain ⟨i, -, -, hblock, -⟩ := hP.block
  -- the break is a word
  have hword : h'.programBreakPoint < 4294967296 := by
    rcases kcalloc_break hk with ⟨-, hb⟩ | ⟨-, r₂, h₂, hs, -, hb⟩
    · omega
    · have hu : u32 (align (u32 (nmemb * size)) + 8) < 4294967296 := Nat.mod_lt _ (by decide)
      obtain ⟨-, ⟨-, hb₂⟩ | ⟨-, -, hb₂⟩ | ⟨-, -, -, hb₂⟩⟩ := sbrk_break_cases hlo hle hhi hu hs
      · omega
      · rw [hb, hb₂]
        exact Nat.mod_lt _ (by decide)
      · omega
  have hmax : nmemb * size ≤ 4294967288 := by omega
  have hu : u32 (nmemb * size) = nmemb * size := u32_of_lt (by omega)
  rw [hu] at hk₁ hw
  refine ⟨hmax, fun hend => .inl ?_⟩
  obtain ⟨r₁, h₂, hs, hr, rfl, hbrk⟩ := kmalloc_old_break hI hend hk₁ hp
  have hal := align_bounds hmax
  have hwin : ¬ (ptBaseVaddr < h.programBreakPoint + (align (nmemb * size) + 8) ∧
      h.programBreakPoint + (align (nmemb * size) + 8) < 4294967296) := fun hin => hw ⟨hend, hin⟩
  have hlt : u32 (align (nmemb * size) + 8) < 4294967296 := Nat.mod_lt _ (by decide)
  obtain ⟨-, ⟨h0, -⟩ | ⟨-, hpos, hb⟩ | ⟨-, hneg, hroom, hb⟩⟩ := sbrk_break_cases hlo hle hhi hlt hs
  · exact absurd h0 hr
  · simp only [u32, ptBaseVaddr] at hpos hb hwin hlt ⊢
    omega
  · simp only [u32] at hneg hroom hb hlt
    omega

/-- **`kcalloc` provides what was asked exactly for honest products.**  In every state
of every run from `pmm_directory_init` and `heap_init` whose calls are honest requests,
`kcalloc` returns for every honest product, and a pointer that it returns is to a block
with the bytes that were asked for, cleared, if and only if the product is honest. -/
theorem kcalloc_provides {kernelEnd : Nat} {mbd : Multiboot} {es : List HeapEvent}
    (hboot : BootedHeap kernelEnd mbd h₀)
    (hrun : Trace (HeapStep honestCalls) ⟨h₀, fun _ => none⟩ es c) :
    (HonestRequest c.heap (nmemb * size) → ∃ p h',
      kcalloc sbrk nmemb size c.heap = some (p, h') ∧
        (p ≠ 0 → Provided h' p (nmemb * size))) ∧
    ∀ p h', kcalloc sbrk nmemb size c.heap = some (p, h') → p ≠ 0 →
      ¬ EntersWindow c.heap (u32 (nmemb * size)) →
      (Provided h' p (nmemb * size) ↔ HonestRequest c.heap (nmemb * size)) := by
  obtain ⟨-, magic, mem, s, t, ram, m, hdir, hinit⟩ := id hboot
  obtain ⟨⟨bs, hI⟩, hR, hst⟩ := honest_run hdir hinit hrun
  have hlo : 3221225472 ≤ c.heap.heapStart := by
    have := hboot.inBounds.1.kernel
    omega
  refine ⟨kcalloc_of_honest hI hR, fun p h' hk hp hw => ⟨?_, fun hh => ?_⟩⟩
  · intro hP
    exact hP.honest hI hlo hk hp hw
  · obtain ⟨p, h', hk', hP⟩ := kcalloc_of_honest hI hR hh
    obtain ⟨rfl, rfl⟩ := Prod.mk.inj (Option.some.inj (hk.symm.trans hk'))
    exact hP hp

theorem kcalloc_provides_oneEntry : ∃ h₀ c, BootedHeap 0xC0120000 oneEntryMap h₀ ∧
    Trace (HeapStep honestCalls) ⟨h₀, fun _ => none⟩ [.kmalloc 10 0xC0120008] c ∧
    ∃ p h', kcalloc sbrk 4 10 c.heap = some (p, h') ∧ (p ≠ 0 → Provided h' p 40) := by
  obtain ⟨h₀, hinit, h₁, hk, hbrk, hbrk₁⟩ : ∃ h₀,
      heapInit 0xC0120000 (fun _ => 0) (Machine.start oneEntryInit.1 oneEntryInit.2 fun _ => 0)
        = some h₀ ∧
      ∃ h₁, kmalloc sbrk 10 h₀ = some (0xC0120008, h₁) ∧
        h₀.programBreakPoint = 0xC0400000 ∧ h₁.programBreakPoint = 0xC0400000 :=
    ⟨_, rfl, _, rfl, rfl, rfl⟩
  have hsmall : HonestRequest h₀ 10 := ⟨by decide, fun _ => .inl (by rw [hbrk]; decide)⟩
  have hasked : HonestRequest h₁ (4 * 10) := ⟨by decide, fun _ => .inl (by rw [hbrk₁]; decide)⟩
  have hrun : Trace (HeapStep honestCalls) ⟨h₀, fun _ => none⟩ [.kmalloc 10 0xC0120008] _ :=
    .single (.kmalloc ⟨rfl, .inr hsmall⟩ hk)
  have hboot := bootedHeap_oneEntry hinit
  exact ⟨h₀, _, hboot, hrun, (kcalloc_provides hboot hrun).1 hasked⟩

/-- `kcalloc(65536, 65536)` asks `kmalloc` for nothing and returns the first block. -/
theorem kcalloc_product_wraps : ∃ h₀ h', BootedHeap 0xC0120000 oneEntryMap h₀ ∧
    kcalloc sbrk 65536 65536 h₀ = some (0xC0120008, h') ∧
    ¬ Provided h' 0xC0120008 (65536 * 65536) := by
  obtain ⟨h₀, hinit, h', hk, hbrk⟩ : ∃ h₀,
      heapInit 0xC0120000 (fun _ => 0) (Machine.start oneEntryInit.1 oneEntryInit.2 fun _ => 0)
        = some h₀ ∧
      ∃ h', kcalloc sbrk 65536 65536 h₀ = some (0xC0120008, h') ∧
        h'.programBreakPoint = 0xC0400000 := ⟨_, rfl, _, rfl, rfl⟩
  refine ⟨h₀, h', bootedHeap_oneEntry hinit, hk, fun hP => ?_⟩
  have := hP.fits
  rw [hbrk] at this
  exact absurd this (by decide)

end Calloc

end ChoOS
