import ChoOS.Heap.Honest

/-!
# The first heap and the frame allocator share memory

The heap starts out on the pages from `heap_start` to 4 MiB above `P2V(0)`, and
these show the frames from `V2P(heap_start)` to 4 MiB.  `pmm_frames_init`
reserves the kernel image only, so the frames of that region stay free in the
bitmap, and `pmm_alloc_frame_int` takes the lowest free frame.  The page
directory has to be a frame that `boot.S` maps, below 4 MiB; what is free there
belongs to the heap as well.

`directory_in_heap` is this overlap, for every memory map and every kernel
image.  No later call takes a frame back from `issued`, so `frames_overlap`
holds in every state of every run.
-/

namespace ChoOS

/-- The frames that the first pages of the heap show. -/
def InitialHeapFrame (kernelEnd a : Nat) : Prop :=
  v2p (heapStartAddr kernelEnd) ≤ a ∧ a < 0x400000

/-- No frame that was handed out belongs to the first heap. -/
def FramesApart (kernelEnd : Nat) (e : Machine) : Prop :=
  ∀ a ∈ e.issued, ¬ InitialHeapFrame kernelEnd a

/-- The heap and the machine, with the frames and the pointers that callers hold. -/
structure Kernel where
  heap : Heap Machine
  held : Set Nat
  live : Live

inductive KernelEvent
  | pmmAllocPage (r : Nat)
  | pmmFreePage (a : Nat)
  | vmmPageMap (phys virt flags : Nat) (res : Int)
  | kmalloc (size r : Nat)
  | kfree (ptr : Nat)

/-- One call; what is given back is held. -/
inductive KernelStep : Kernel → KernelEvent → Kernel → Prop
  | pmmAllocPage {k : Kernel} {r : Nat} {e : Machine} : k.heap.env.pmmAllocPage = (r, e) →
      KernelStep k (.pmmAllocPage r) ⟨{ k.heap with env := e }, heldAfter k.held r, k.live⟩
  | pmmFreePage {k : Kernel} {a : Nat} : a ∈ k.held →
      KernelStep k (.pmmFreePage a)
        ⟨{ k.heap with env := k.heap.env.pmmFreePage a }, k.held \ {a}, k.live⟩
  | vmmPageMap {k : Kernel} {phys virt flags : Nat} {res : Int} {h' : Heap Machine} :
      heapPageMap phys virt flags k.heap = some (res, h') →
      KernelStep k (.vmmPageMap phys virt flags res) ⟨h', k.held, k.live⟩
  | kmalloc {k : Kernel} {size r : Nat} {h' : Heap Machine} :
      kmalloc sbrk size k.heap = some (r, h') →
      KernelStep k (.kmalloc size r) ⟨h', k.held, liveAlloc k.live size r⟩
  | kfree {k : Kernel} {ptr : Nat} {h' : Heap Machine} : (k.live ptr).isSome →
      kfree ptr k.heap = some h' →
      KernelStep k (.kfree ptr) ⟨h', k.held, Function.update k.live ptr none⟩

/-! ### No frame leaves the history -/

section History

variable {h h' : Heap Machine} {e e' : Machine} {phys virt flags a r n increment top : Nat}
variable {res : Int} {ok : Bool}

theorem issued_pmmAllocPage (ha : a ∈ e.issued) : a ∈ e.pmmAllocPage.2.issued := by
  simp only [Machine.pmmAllocPage]
  split
  · exact ha
  · exact List.mem_cons_of_mem _ ha

/-- `vmm_page_map` allocates at most once. -/
theorem vmmPageMap_state {σ : Type} {alloc : σ → Nat × σ} {t t' : Tables} {s s' : σ}
    (hm : vmmPageMap alloc phys virt flags t s = some (res, t', s')) :
    s' = s ∨ s' = (alloc s).2 := by
  obtain ⟨p, _, hm⟩ := Option.bind_eq_some_iff.mp hm
  split at hm
  · obtain ⟨_, _, hm⟩ := Option.bind_eq_some_iff.mp hm
    exact .inl (Prod.mk.inj (Prod.mk.inj (Option.some.inj hm)).2).2.symm
  · dsimp only at hm
    split at hm
    · exact .inr (Prod.mk.inj (Prod.mk.inj (Option.some.inj hm)).2).2.symm
    · obtain ⟨_, _, hm⟩ := Option.bind_eq_some_iff.mp hm
      obtain ⟨_, _, hm⟩ := Option.bind_eq_some_iff.mp hm
      exact .inr (Prod.mk.inj (Prod.mk.inj (Option.some.inj hm)).2).2.symm

theorem issued_vmmPageMap (hm : e.vmmPageMap phys virt flags = some (res, e'))
    (ha : a ∈ e.issued) : a ∈ e'.issued := by
  obtain ⟨⟨res', t', e₁⟩, hm₁, hm⟩ := Option.bind_eq_some_iff.mp hm
  obtain ⟨-, rfl⟩ := Prod.mk.inj (Option.some.inj hm)
  rcases vmmPageMap_state hm₁ with rfl | rfl
  · exact ha
  · exact issued_pmmAllocPage ha

theorem issued_heapPageMap (hm : heapPageMap phys virt flags h = some (res, h'))
    (ha : a ∈ h.env.issued) : a ∈ h'.env.issued := by
  obtain ⟨⟨res', e'⟩, hm₁, hm⟩ := Option.bind_eq_some_iff.mp hm
  obtain ⟨-, rfl⟩ := Prod.mk.inj (Option.some.inj hm)
  exact issued_vmmPageMap hm₁ ha

theorem MapRounds.issued (hrun : MapRounds top virt h ok h') (ha : a ∈ h.env.issued) :
    a ∈ h'.env.issued := by
  induction hrun with
  | done _ => exact ha
  | noPage _ _ => exact issued_pmmAllocPage ha
  | noTable _ _ hm _ =>
    have ha₂ := issued_vmmPageMap hm (issued_pmmAllocPage ha)
    exact ha₂
  | page _ _ hm _ ih => exact ih (issued_vmmPageMap hm (issued_pmmAllocPage ha))

theorem UnmapRun.issued {as : List Nat} (hrun : UnmapRun top h as h') (ha : a ∈ h.env.issued) :
    a ∈ h'.env.issued := by
  induction hrun with
  | done _ => exact ha
  | page _ hu _ ih =>
    obtain ⟨⟨res', t₁⟩, _, hu⟩ := Option.bind_eq_some_iff.mp hu
    obtain ⟨-, rfl⟩ := Prod.mk.inj (Option.some.inj hu)
    exact ih ha

theorem issued_sbrk (hs : sbrk increment h = some (r, h')) (ha : a ∈ h.env.issued) :
    a ∈ h'.env.issued := by
  cases sbrk_done hs with
  | zero _ => exact ha
  | noPages _ _ _ => exact ha
  | grown _ _ _ hrun => exact hrun.issued ha
  | failed _ _ _ hrun => exact hrun.issued ha
  | refused _ _ => exact ha
  | shrunk _ _ hrun => exact hrun.issued ha

theorem KernelStep.issued {k k' : Kernel} {ev : KernelEvent} (hs : KernelStep k ev k')
    (ha : a ∈ k.heap.env.issued) : a ∈ k'.heap.env.issued := by
  cases hs with
  | pmmAllocPage h =>
    have := issued_pmmAllocPage ha
    rw [h] at this
    exact this
  | pmmFreePage _ => exact ha
  | vmmPageMap h => exact issued_heapPageMap h ha
  | kmalloc h =>
    rcases kmalloc_break h with ⟨he, _⟩ | ⟨_, r₁, h₁, hs, he, _⟩
    · rw [he]
      exact ha
    · rw [he]
      exact issued_sbrk hs ha
  | kfree _ h =>
    rw [(kfree_break h).1]
    exact ha

end History

/-! ### The overlap -/

section Overlap

variable {magic kernelEnd : Nat} {mbd : Multiboot} {mem : Nat → Page} {m : ByteMem}
variable {s : Frames} {t : Tables} {ram : Nat → UInt8} {h₀ : Heap Machine}

/-- The frames after the kernel image are those from `heap_start` on. -/
theorem heapStart_le_frame {d : Nat} (hd : d < 1023) (hend : kernelEndIdx kernelEnd ≤ d) :
    v2p (heapStartAddr kernelEnd) ≤ d * 4096 := by
  simp only [kernelEndIdx, sub32, u32, kernelVirtOffset, pageSize] at hend
  rw [heapStartAddr]
  split
  · simp only [pageRoundDown, v2p, sub32, u32, kernelVirtOffset, pageSize]
    omega
  · simp only [v2p, sub32, u32, kernelVirtOffset]
    omega

/-- **The page directory lies in the first heap.** -/
theorem directory_in_heap (hdir : pmmDirectoryInit magic kernelEnd mbd mem = some (s, t)) :
    InitialHeapFrame kernelEnd (t.cr3 * 4096) := by
  obtain ⟨d, e, hd⟩ := pmmDirectoryInit_spec hdir
  obtain ⟨bitmap, hb, hI⟩ := hd.owned
  have hlt := hd.d_lt
  have hfree : bitmap.testBit d = false := by
    have := (hI.owned.heldTaken (d * 4096) (.inr rfl)).notReserved
    rwa [Nat.mul_div_cancel _ (by decide)] at this
  have hend : ¬ d < kernelEndIdx kernelEnd := fun h => by
    rw [pmmFramesInit_protected hb (.inr ⟨h, by omega⟩)] at hfree
    exact absurd hfree (by decide)
  rw [InitialHeapFrame, hd.cr3]
  exact ⟨heapStart_le_frame hlt (by omega), by omega⟩

/-- The kernel after both initialisers. -/
def Kernel.start (h₀ : Heap Machine) : Kernel := ⟨h₀, ∅, fun _ => none⟩

/-- **The heap and the frame allocator overlap**, whatever the memory map and
the kernel image: in every state of every run some frame that was handed out
belongs to the first heap. -/
theorem frames_overlap {es : List KernelEvent} {k : Kernel}
    (hdir : pmmDirectoryInit magic kernelEnd mbd mem = some (s, t))
    (hinit : heapInit kernelEnd m (Machine.start s t ram) = some h₀)
    (hrun : Trace KernelStep (Kernel.start h₀) es k) : ¬ FramesApart kernelEnd k.heap.env := by
  have hissued : (t.cr3 : Nat) * 4096 ∈ k.heap.env.issued := by
    refine hrun.invariant (I := fun k => (t.cr3 : Nat) * 4096 ∈ k.heap.env.issued) ?_
      (fun _ _ _ ha hs => hs.issued ha)
    change (t.cr3 : Nat) * 4096 ∈ h₀.env.issued
    rw [heapInit_env hinit]
    exact List.mem_cons_of_mem _ (List.mem_singleton.mpr rfl)
  exact fun hapart => hapart _ hissued (directory_in_heap hdir)

theorem frames_overlap_oneEntry : ∃ h₀ k,
    heapInit 0xC0120000 (fun _ => 0) (Machine.start oneEntryInit.1 oneEntryInit.2 fun _ => 0)
      = some h₀ ∧
    Trace KernelStep (Kernel.start h₀) [.kmalloc 10 0xC0120008] k ∧
    ¬ FramesApart 0xC0120000 k.heap.env := by
  obtain ⟨h₀, hinit, h₁, hk⟩ : ∃ h₀,
      heapInit 0xC0120000 (fun _ => 0) (Machine.start oneEntryInit.1 oneEntryInit.2 fun _ => 0)
        = some h₀ ∧
      ∃ h₁, kmalloc sbrk 10 h₀ = some (0xC0120008, h₁) := ⟨_, rfl, _, rfl⟩
  have hrun : Trace KernelStep (Kernel.start h₀) [.kmalloc 10 0xC0120008] _ :=
    .single (.kmalloc hk)
  exact ⟨h₀, _, hinit, hrun, frames_overlap oneEntryInit_eq hinit hrun⟩

/-- With 21 free frames from 2 MiB on and a kernel that ends at `0xC0120000`, the
page directory is frame 512, inside the first heap. -/
theorem directory_overlaps_oneEntry : ∃ h₀,
    heapInit 0xC0120000 (fun _ => 0) (Machine.start oneEntryInit.1 oneEntryInit.2 fun _ => 0)
      = some h₀ ∧
    ¬ ∀ es k, Trace KernelStep (Kernel.start h₀) es k → FramesApart 0xC0120000 k.heap.env := by
  obtain ⟨h₀, hinit, hissued⟩ : ∃ h₀,
      heapInit 0xC0120000 (fun _ => 0) (Machine.start oneEntryInit.1 oneEntryInit.2 fun _ => 0)
        = some h₀ ∧
      (oneEntryInit.2.cr3 : Nat) * 4096 ∈ h₀.env.issued :=
    ⟨_, rfl, List.mem_cons_of_mem _ (List.mem_singleton.mpr rfl)⟩
  exact ⟨h₀, hinit, fun hall => hall [] _ .nil _ hissued (directory_in_heap oneEntryInit_eq)⟩

end Overlap

end ChoOS
