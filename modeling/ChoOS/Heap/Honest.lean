import ChoOS.Heap.Brk
import ChoOS.Heap.Run

/-!
# `kmalloc` for every size

`KmallocHonest` is what a caller may expect of `kmalloc` for any 32-bit size:
`NULL` and no change, or room for `size` bytes inside one block of the list.

Four conversions of the size can wrap on the way to the break.  `ALIGN` wraps
from `0xFFFFFFF9` on; the header makes the increment `0` for the eight sizes
below; from `2 ^ 31` on it is a negative increment for `sbrk`, which then
shrinks the heap unless that leads below `heap_start`; and a positive increment
can take the break into the recursive window or around the address space.
`HonestRequest` excludes these, and only where the search of `kmalloc` finds no
free block and `sbrk` is called at all.  `kmalloc_honest` is the run.
-/

namespace ChoOS

variable {ε : Type}

/-- The search of `kmalloc` ends at the end block. -/
def ReachesEnd (h : Heap ε) (size : Nat) : Prop :=
  ∃ node, follow (blockNext h.mem) (kmallocStop h.mem (align size)) walkFuel h.heapStart
    = some node ∧ blockEOM h.mem node ≠ 0

/-- The sizes that reach no wrap. -/
def HonestRequest (h : Heap ε) (size : Nat) : Prop :=
  size ≤ 0xFFFFFFF8 ∧
  (ReachesEnd h size →
    (align size + 8 < 2147483648 ∧ h.programBreakPoint + (align size + 8) ≤ ptBaseVaddr) ∨
    (2147483648 ≤ align size + 8 ∧
      h.programBreakPoint + (align size + 8) < h.heapStart + 4294967296))

/-- `kmalloc` returns `NULL` and changes nothing, or `p` with `size` bytes of its
own: inside the heap and inside the payload of one `USED` block of the list. -/
def KmallocHonest (h : Heap Machine) (size : Nat) : Prop :=
  ∃ p h', kmalloc sbrk size h = some (p, h') ∧
    ((p = 0 ∧ SameHeap h h') ∨
     (h'.heapStart ≤ p ∧ p + size ≤ h'.programBreakPoint ∧
      ∃ i, (∀ j ≤ i, blockEOM h'.mem ((blockNext h'.mem)^[j] h'.heapStart) = 0) ∧
        blockFree h'.mem ((blockNext h'.mem)^[i] h'.heapStart) = 0 ∧
        (blockNext h'.mem)^[i] h'.heapStart + 8 ≤ p ∧
        p + size ≤ blockNext h'.mem ((blockNext h'.mem)^[i] h'.heapStart)))

/-! ### What the calls do to the machine -/

/-- The machine and the break are as before, or as `sbrk` left them. -/
def ByBreak (sbrk : Sbrk ε) (size : Nat) (h h' : Heap ε) : Prop :=
  (h'.env = h.env ∧ h'.programBreakPoint = h.programBreakPoint) ∨
  (ReachesEnd h size ∧ ∃ r₁ h₁, sbrk (u32 (align size + 8)) h = some (r₁, h₁) ∧
    h'.env = h₁.env ∧ h'.programBreakPoint = h₁.programBreakPoint)

section ByBreak

variable {sbrk : Sbrk ε} {h h' : Heap ε} {r ptr size nmemb node newBlock : Nat}

theorem kmallocGrow_break (h : Heap ε) (node newBlock : Nat) :
    (kmallocGrow node newBlock h).2.env = h.env ∧
      (kmallocGrow node newBlock h).2.programBreakPoint = h.programBreakPoint := by
  rw [kmallocGrow]
  split <;> exact ⟨rfl, rfl⟩

theorem kmalloc_break (hk : kmalloc sbrk size h = some (r, h')) : ByBreak sbrk size h h' := by
  obtain ⟨node, hn, hk⟩ := Option.bind_eq_some_iff.mp hk
  split at hk
  · rename_i hend
    obtain ⟨⟨r₁, h₁⟩, hs, hk⟩ := Option.bind_eq_some_iff.mp hk
    have he := kmallocGrow_break h₁ node r₁
    rw [Option.some.inj hk] at he
    exact .inr ⟨⟨node, hn, hend⟩, r₁, h₁, hs, he.1, he.2⟩
  · obtain ⟨-, rfl⟩ := Prod.mk.inj (Option.some.inj hk)
    exact .inl ⟨rfl, rfl⟩

theorem kfree_break (hk : kfree ptr h = some h') :
    h'.env = h.env ∧ h'.programBreakPoint = h.programBreakPoint := by
  rw [kfree] at hk
  dsimp only at hk
  split at hk
  · obtain rfl := Option.some.inj hk
    exact ⟨rfl, rfl⟩
  · obtain ⟨_, _, hk⟩ := Option.bind_eq_some_iff.mp hk
    obtain rfl := Option.some.inj hk
    exact ⟨rfl, rfl⟩

theorem kcalloc_break (hk : kcalloc sbrk nmemb size h = some (r, h')) :
    ByBreak sbrk (u32 (nmemb * size)) h h' := by
  obtain ⟨⟨p, h₁⟩, hk₁, hk⟩ := Option.bind_eq_some_iff.mp hk
  have hb := kmalloc_break hk₁
  dsimp only at hk
  split at hk <;> obtain ⟨-, rfl⟩ := Prod.mk.inj (Option.some.inj hk) <;> exact hb

theorem krealloc_break (hk : krealloc sbrk ptr size h = some (r, h')) :
    ByBreak sbrk size h h' := by
  rw [krealloc] at hk
  split at hk
  · exact kmalloc_break hk
  split at hk
  · obtain ⟨h₁, hf, hk⟩ := Option.bind_eq_some_iff.mp hk
    obtain ⟨-, rfl⟩ := Prod.mk.inj (Option.some.inj hk)
    exact .inl (kfree_break hf)
  dsimp only at hk
  split at hk
  · obtain ⟨-, rfl⟩ := Prod.mk.inj (Option.some.inj hk)
    exact .inl ⟨rfl, rfl⟩
  · obtain ⟨⟨p, h₁⟩, hk₁, hk⟩ := Option.bind_eq_some_iff.mp hk
    have hb := kmalloc_break hk₁
    dsimp only at hk
    split at hk
    · obtain ⟨-, rfl⟩ := Prod.mk.inj (Option.some.inj hk)
      exact hb
    · obtain ⟨h₂, hf, hk⟩ := Option.bind_eq_some_iff.mp hk
      obtain ⟨-, rfl⟩ := Prod.mk.inj (Option.some.inj hk)
      obtain ⟨he, hp⟩ := kfree_break hf
      rcases hb with ⟨h1, h2⟩ | ⟨hend, r₁, h₃, hs, h1, h2⟩
      · exact .inl ⟨he.trans h1, hp.trans h2⟩
      · exact .inr ⟨hend, r₁, h₃, hs, he.trans h1, hp.trans h2⟩

end ByBreak

/-! ### Runs -/

section Run

variable {h h' : Heap Machine} {live : Live} {bs : List Nat} {held : Set Nat} {size : Nat}
variable {c c' : Client Machine} {e : HeapEvent}

/-- The calls of `brk.c`'s `sbrk` with honest sizes; `krealloc` in place reaches
no `kmalloc`. -/
def honestCalls : Legal Machine := fun h sbrk call =>
  sbrk = ChoOS.sbrk ∧ (call.inPlace h.mem ∨ HonestRequest h call.request)

/-- The tables are apart, and the break is where `heap_init` put it or above. -/
def Ready (h : Heap Machine) : Prop :=
  (∃ held, h.env.Ok held) ∧ 3225419776 ≤ h.programBreakPoint

/-- `kmalloc` reaches the end block exactly when no free block has room. -/
theorem reachesEnd_iff {e : Nat} (hI : HeapInv h.mem h.heapStart e live bs) :
    ReachesEnd h size ↔ NoFit h.mem bs size := by
  rcases hI.blocks.search_spec (align size) with ⟨l₁, b, l₂, rfl, hf, hr, hn⟩ | ⟨hno, hn⟩
  · refine iff_of_false ?_ fun hno => ?_
    · rintro ⟨node, hnode, heom⟩
      obtain rfl := Option.some.inj (hn.symm.trans hnode)
      exact heom (hI.blocks.notEOM b (by simp))
    · have := hno b (by simp) hf
      omega
  · refine iff_of_true ⟨_, hn, ?_⟩ hno
    rw [hI.blocks.endEOM]
    decide

/-- **`sbrk` is safe for honest sizes.** -/
theorem sbrk_honest (hst : h.heapStart ≤ h.programBreakPoint)
    (hbrk : h.programBreakPoint ≤ 4290772992) (hR : Ready h) (hh : HonestRequest h size)
    (hend : ReachesEnd h size) :
    ∃ r h' held', sbrk (u32 (align size + 8)) h = some (r, h') ∧
      SbrkReturns h (align size + 8) r h' ∧ h'.env.Ok held' := by
  obtain ⟨⟨held, hO⟩, hlo⟩ := hR
  have hpt : ptBaseVaddr = 4290772992 := rfl
  rcases hh.2 hend with ⟨h1, h2⟩ | ⟨h1, h2⟩
  · rw [u32_of_lt (by omega)]
    exact sbrk_grows hO (by omega) h1 hlo (by omega)
  · rw [u32_of_lt (by omega)]
    exact ⟨_, _, held, sbrk_refused hlo h1 (by omega) h2 (by omega),
      ⟨rfl, fun _ _ => rfl, .inl ⟨rfl, rfl⟩⟩, hO⟩

theorem Heap.Inv.start_le {ε : Type} {h : Heap ε} (hI : h.Inv live bs) :
    h.heapStart ≤ h.programBreakPoint ∧ h.programBreakPoint ≤ 4290772992 := by
  have hst := hI.blocks.start_le_stop
  exact ⟨by omega, HeapInv.brk_le hI⟩

theorem ready_of_break (hI : h.Inv live bs) (hR : Ready h) (hh : HonestRequest h size)
    (hb : ByBreak sbrk size h h') : Ready h' := by
  rcases hb with ⟨h1, h2⟩ | ⟨hend, r₁, h₁, hs, h1, h2⟩
  · rw [Ready, h1, h2]
    exact hR
  · obtain ⟨hst, hbrk⟩ := Heap.Inv.start_le hI
    obtain ⟨r, h₂, held', hs', hr, hO⟩ := sbrk_honest hst hbrk hR hh hend
    obtain ⟨rfl, rfl⟩ := Prod.mk.inj (Option.some.inj (hs.symm.trans hs'))
    have hlo := hR.2
    rw [Ready, h1, h2]
    refine ⟨⟨held', hO⟩, ?_⟩
    rcases hr.result with ⟨_, hb⟩ | ⟨_, hb, _⟩ <;> omega

theorem legalCalls_honest : LegalCalls (fun h sbrk call => honestCalls h sbrk call ∧ Ready h) := by
  rintro h live bs _ call hI ⟨⟨rfl, hh⟩, hR⟩ hin
  have hh := hh.resolve_left hin
  refine ⟨hh.1, fun hno => ?_⟩
  obtain ⟨hst, hbrk⟩ := Heap.Inv.start_le hI
  obtain ⟨r, h', _, hs, hr, _⟩ := sbrk_honest hst hbrk hR hh ((reachesEnd_iff hI).mpr hno)
  exact ⟨r, h', hs, hr⟩

theorem HeapStep.mono {ε : Type} {legal legal' : Legal ε} {c c' : Client ε}
    (hl : ∀ sbrk call, legal c.heap sbrk call → legal' c.heap sbrk call)
    (hs : HeapStep legal c e c') : HeapStep legal' c e c' := by
  cases hs with
  | kmalloc hc hk => exact .kmalloc (hl _ _ hc) hk
  | kcalloc hc hk => exact .kcalloc (hl _ _ hc) hk
  | krealloc hp hc hk => exact .krealloc hp (hl _ _ hc) hk
  | kfree hp hk => exact .kfree hp hk
  | write hp hi => exact .write hp hi
  | read hp hi => exact .read hp hi

theorem krealloc_inPlace {ε : Type} {sbrk : Sbrk ε} {h h' : Heap ε} {ptr r : Nat}
    (hptr : 8 ≤ ptr) (hlt : ptr < 4294967296) (hin : HeapCall.inPlace h.mem (.krealloc ptr size))
    (hk : krealloc sbrk ptr size h = some (r, h')) :
    h'.env = h.env ∧ h'.programBreakPoint = h.programBreakPoint := by
  rw [krealloc, if_neg hin.1] at hk
  split at hk
  · obtain ⟨h₁, hf, hk⟩ := Option.bind_eq_some_iff.mp hk
    obtain ⟨-, rfl⟩ := Prod.mk.inj (Option.some.inj hk)
    exact kfree_break hf
  · rename_i hs
    have hfit := hin.2.resolve_left hs
    rw [sizeofHeapBlock, sub32_of_le hptr hlt] at hk
    dsimp only at hk
    rw [if_pos hfit] at hk
    obtain ⟨-, rfl⟩ := Prod.mk.inj (Option.some.inj hk)
    exact ⟨rfl, rfl⟩

/-- **A step keeps the heap ready.** -/
theorem HeapStep.ready (hI : c.Inv) (hR : Ready c.heap) (hs : HeapStep honestCalls c e c') :
    Ready c'.heap := by
  obtain ⟨bs, hI⟩ := hI
  cases hs with
  | kmalloc hc hk =>
    obtain ⟨rfl, hh⟩ := hc
    exact ready_of_break hI hR (hh.resolve_left id) (kmalloc_break hk)
  | kcalloc hc hk =>
    obtain ⟨rfl, hh⟩ := hc
    exact ready_of_break hI hR (hh.resolve_left id) (kcalloc_break hk)
  | @krealloc _ ptr size r h' hp hc hk =>
    obtain ⟨rfl, hin | hh⟩ := hc
    · obtain ⟨n, hn⟩ := Option.isSome_iff_exists.mp (hp.resolve_left hin.1)
      have hb := HeapInv.live_below hI hn
      have hbrk := HeapInv.brk_le hI
      obtain ⟨b, _, rfl⟩ := hI.mem_of_live _ _ hn
      obtain ⟨h1, h2⟩ := krealloc_inPlace (by omega) (by omega) hin hk
      change Ready h'
      rw [Ready, h1, h2]
      exact hR
    · exact ready_of_break hI hR hh (krealloc_break hk)
  | @kfree ptr h' hp hk =>
    obtain ⟨h1, h2⟩ := kfree_break hk
    change Ready h'
    rw [Ready, h1, h2]
    exact hR
  | write _ _ => exact hR
  | read _ _ => exact hR

/-- A live pointer is behind the header of a `USED` block of the list, and has its room
there. -/
theorem Heap.Inv.block_of_live {ε : Type} {h : Heap ε} {p n : Nat} (hI : h.Inv live bs)
    (hp : live p = some n) : h.heapStart ≤ p ∧ p + n ≤ h.programBreakPoint ∧
      ∃ i, (∀ j ≤ i, blockEOM h.mem ((blockNext h.mem)^[j] h.heapStart) = 0) ∧
        blockFree h.mem ((blockNext h.mem)^[i] h.heapStart) = 0 ∧
        (blockNext h.mem)^[i] h.heapStart + 8 = p ∧
        p + n ≤ blockNext h.mem ((blockNext h.mem)^[i] h.heapStart) := by
  obtain ⟨b, hb, rfl⟩ := hI.mem_of_live _ _ hp
  have hshape := Heap.Inv.shape hI
  have hroom := HeapInv.room hI b hb n hp
  have hbd := HeapInv.bounds hI hb
  obtain ⟨i, hi, rfl⟩ := List.mem_iff_getElem.mp hb
  have hw := hshape.walk i hi
  refine ⟨by omega, by omega, i, fun j hj => ?_, ?_, by rw [hw], by rw [hw]; exact hroom⟩
  · by_contra hne
    have := (hshape.EOM_iff j (by omega)).mp hne
    omega
  · rw [hw]
    exact (HeapInv.used hI _ hb).mpr (by rw [hp]; rfl)

/-- **`kmalloc` is honest** on a ready heap, for an honest size. -/
theorem kmalloc_honest_of_ready (hI : h.Inv live bs) (hR : Ready h) (hh : HonestRequest h size) :
    KmallocHonest h size := by
  obtain ⟨p, h', hk, hres, -⟩ := legal_kmalloc legalCalls_honest hI ⟨⟨rfl, .inr hh⟩, hR⟩
  refine ⟨p, h', hk, ?_⟩
  rcases hres with ⟨rfl, hsame⟩ | ⟨hp, _, _, ⟨bs', hI'⟩, _⟩
  · exact .inl ⟨rfl, hsame⟩
  · have hlive : Function.update live p (some size) p = some size := Function.update_self _ _ _
    obtain ⟨hst, hend, i, hEOM, hused, hblock, hroom⟩ := Heap.Inv.block_of_live hI' hlive
    exact .inr ⟨hst, hend, i, hEOM, hused, hblock.le, hroom⟩

theorem ready_of_boot {magic kernelEnd : Nat} {mbd : Multiboot} {mem : Nat → Page} {m : ByteMem}
    {s : Frames} {t : Tables} {ram : Nat → UInt8} {h₀ : Heap Machine}
    (hdir : pmmDirectoryInit magic kernelEnd mbd mem = some (s, t))
    (hinit : heapInit kernelEnd m (Machine.start s t ram) = some h₀) : Ready h₀ := by
  obtain ⟨d, e, hd⟩ := pmmDirectoryInit_spec hdir
  rw [Ready, heapInit_env hinit, (heapInit_spec hinit).2.1]
  exact ⟨⟨_, Machine.start_ok hd ram⟩, by decide⟩

/-- **A run of honest calls** keeps the invariant, stays ready and does not move the start. -/
theorem honest_run {magic kernelEnd : Nat} {mbd : Multiboot} {mem : Nat → Page} {m : ByteMem}
    {s : Frames} {t : Tables} {ram : Nat → UInt8} {h₀ : Heap Machine} {es : List HeapEvent}
    (hdir : pmmDirectoryInit magic kernelEnd mbd mem = some (s, t))
    (hinit : heapInit kernelEnd m (Machine.start s t ram) = some h₀)
    (hrun : Trace (HeapStep honestCalls) ⟨h₀, fun _ => none⟩ es c) :
    c.Inv ∧ Ready c.heap ∧ c.heap.heapStart = h₀.heapStart := by
  refine hrun.invariant (I := fun c => c.Inv ∧ Ready c.heap ∧ c.heap.heapStart = h₀.heapStart)
    ⟨⟨_, (heapInit_spec hinit).2.2⟩, ready_of_boot hdir hinit, rfl⟩ ?_
  rintro c e c' ⟨hI, hR, hst⟩ hs
  have hs' : HeapStep (fun h sbrk call => honestCalls h sbrk call ∧ Ready h) c e c' :=
    hs.mono fun _ _ hc => ⟨hc, hR⟩
  exact ⟨hs'.inv legalCalls_honest hI, hs.ready hI hR,
    (hs'.heapStart legalCalls_honest hI).trans hst⟩

/-- **`kmalloc` is honest over whole runs.**  In every state of every run from
`pmm_directory_init` and `heap_init` whose calls are honest requests, `kmalloc`
is honest for every honest request. -/
theorem kmalloc_honest {magic kernelEnd : Nat} {mbd : Multiboot} {mem : Nat → Page} {m : ByteMem}
    {s : Frames} {t : Tables} {ram : Nat → UInt8} {h₀ : Heap Machine} {es : List HeapEvent}
    (hdir : pmmDirectoryInit magic kernelEnd mbd mem = some (s, t))
    (hinit : heapInit kernelEnd m (Machine.start s t ram) = some h₀)
    (hrun : Trace (HeapStep honestCalls) ⟨h₀, fun _ => none⟩ es c)
    (hh : HonestRequest c.heap size) : KmallocHonest c.heap size := by
  obtain ⟨⟨bs, hI⟩, hR, -⟩ := honest_run hdir hinit hrun
  exact kmalloc_honest_of_ready hI hR hh

theorem pmmDirectoryInit_oneEntry : (pmmDirectoryInit multibootBootloaderMagic 0xC0120000
    oneEntryMap (fun _ => .zero)).isSome := by decide +kernel

/-- The allocator and the tables after `pmm_directory_init` on `oneEntryMap`. -/
def oneEntryInit : Frames × Tables := (pmmDirectoryInit _ _ _ _).get pmmDirectoryInit_oneEntry

theorem oneEntryInit_eq : pmmDirectoryInit multibootBootloaderMagic 0xC0120000 oneEntryMap
    (fun _ => .zero) = some (oneEntryInit.1, oneEntryInit.2) := by
  rw [Prod.eta, oneEntryInit, Option.some_get]

theorem kmalloc_honest_oneEntry : ∃ h₀ c,
    heapInit 0xC0120000 (fun _ => 0) (Machine.start oneEntryInit.1 oneEntryInit.2 fun _ => 0)
      = some h₀ ∧
    Trace (HeapStep honestCalls) ⟨h₀, fun _ => none⟩ [.kmalloc 10 0xC0120008] c ∧
    KmallocHonest c.heap 0x400000 := by
  obtain ⟨h₀, hinit, h₁, hk, hbrk, hbrk₁⟩ : ∃ h₀,
      heapInit 0xC0120000 (fun _ => 0) (Machine.start oneEntryInit.1 oneEntryInit.2 fun _ => 0)
        = some h₀ ∧
      ∃ h₁, kmalloc sbrk 10 h₀ = some (0xC0120008, h₁) ∧
        h₀.programBreakPoint = 0xC0400000 ∧ h₁.programBreakPoint = 0xC0400000 :=
    ⟨_, rfl, _, rfl, rfl, rfl⟩
  have hsmall : HonestRequest h₀ 10 := ⟨by decide, fun _ => .inl (by rw [hbrk]; decide)⟩
  have hlarge : HonestRequest h₁ 0x400000 := ⟨by decide, fun _ => .inl (by rw [hbrk₁]; decide)⟩
  have hrun : Trace (HeapStep honestCalls) ⟨h₀, fun _ => none⟩ [.kmalloc 10 0xC0120008] _ :=
    .single (.kmalloc ⟨rfl, .inr hsmall⟩ hk)
  exact ⟨h₀, _, hinit, hrun, kmalloc_honest oneEntryInit_eq hinit hrun hlarge⟩

/-- The largest size: `ALIGN` wraps to `0`, and the first free block is returned. -/
theorem kmalloc_wraps : ∃ h₀,
    heapInit 0xC0120000 (fun _ => 0) (Machine.start oneEntryInit.1 oneEntryInit.2 fun _ => 0)
      = some h₀ ∧ ¬ KmallocHonest h₀ 0xFFFFFFFF := by
  obtain ⟨h₀, hinit, h₁, hk, hbrk⟩ : ∃ h₀,
      heapInit 0xC0120000 (fun _ => 0) (Machine.start oneEntryInit.1 oneEntryInit.2 fun _ => 0)
        = some h₀ ∧
      ∃ h₁, kmalloc sbrk 0xFFFFFFFF h₀ = some (0xC0120008, h₁) ∧
        h₁.programBreakPoint = 0xC0400000 := ⟨_, rfl, _, rfl, rfl⟩
  refine ⟨h₀, hinit, ?_⟩
  rintro ⟨p, h', hk', hres⟩
  obtain ⟨rfl, rfl⟩ := Prod.mk.inj (Option.some.inj (hk.symm.trans hk'))
  rcases hres with ⟨h0, _⟩ | ⟨_, hle, _⟩
  · exact absurd h0 (by decide)
  · rw [hbrk] at hle
    exact absurd hle (by decide)

end Run

end ChoOS
