import ChoOS.Heap.Honest

/-!
# What becomes of the list over a run

Two promises about the block list: every header, and so every pointer that is
handed out, is at an address divisible by eight; and no two free blocks are
neighbours, so that a heap with nothing allocated is one free block.

`HeapStep.listing` turns a step of the heap into a step of its listing, and on
the listing all but one of the calls keep both promises.  The exception is
`krealloc` in place.  It passes its size to `heap_block_split` as it is, where
`kmalloc` passes the aligned one, so the new header can be at any address; and
it frees the rest of the block without a look at the block behind, which
`kfree` would join it with.  `heap_aligned` and `heap_coalesced` say that a run
keeps its promise as long as it avoids just that, and that the next call breaks
the promise exactly if it does not.
-/

namespace ChoOS

/-! ### Runs -/

section Runs

variable {magic kernelEnd : Nat} {mbd : Multiboot} {mem : Nat → Page} {m : ByteMem} {s : Frames}
variable {t : Tables} {ram : Nat → UInt8} {h₀ : Heap Machine} {c c' : Client Machine}
variable {e : HeapEvent} {es : List HeapEvent} {L L' : Listing}
variable {ok : ByteMem → HeapEvent → Prop} {Φ : Listing → Prop}

/-- A call of a run, and what it has to meet. -/
def LayoutStep (ok : ByteMem → HeapEvent → Prop) (c : Client Machine) (e : HeapEvent)
    (c' : Client Machine) : Prop := HeapStep honestCalls c e c' ∧ ok c.heap.mem e

theorem HeapStep.honest_listing (hR : Ready c.heap) (hL : c.Shows L)
    (hs : HeapStep honestCalls c e c') :
    Ready c'.heap ∧ ∃ L', ListStep (e.SplitsInPlace c.heap.mem) L e L' ∧ c'.Shows L' :=
  ⟨hs.ready hL.inv hR, (hs.mono fun _ _ hc => ⟨hc, hR⟩).listing legalCalls_honest hL⟩

theorem listing_run (hdir : pmmDirectoryInit magic kernelEnd mbd mem = some (s, t))
    (hinit : heapInit kernelEnd m (Machine.start s t ram) = some h₀)
    (hrun : Trace (LayoutStep ok) ⟨h₀, fun _ => none⟩ es c)
    (hzero : Φ ⟨[h₀.heapStart], h₀.programBreakPoint, fun _ => none⟩)
    (hstep : ∀ (c : Client Machine) L e L', c.Shows L → Φ L → ok c.heap.mem e →
      ListStep (e.SplitsInPlace c.heap.mem) L e L' → Φ L') :
    Ready c.heap ∧ ∃ L, c.Shows L ∧ Φ L := by
  refine hrun.invariant (I := fun c => Ready c.heap ∧ ∃ L, c.Shows L ∧ Φ L)
    ⟨ready_of_boot hdir hinit, _, Client.Inv.shows (heapInit_spec hinit).2.2, hzero⟩ ?_
  rintro c e c' ⟨hR, L, hL, hΦ⟩ ⟨hs, hok⟩
  obtain ⟨hR', L', hs', hL'⟩ := hs.honest_listing hR hL
  exact ⟨hR', L', hL', hstep c L e L' hL hΦ hok hs'⟩

/-! ### Alignment -/

/-- The pointer that a call returned. -/
def HeapEvent.result : HeapEvent → Nat
  | .kmalloc _ r => r
  | .kcalloc _ _ r => r
  | .krealloc _ _ r => r
  | _ => 0

/-- A split of `krealloc` in place leaves a multiple of eight bytes to the block. -/
def SplitsAligned (m : ByteMem) (e : HeapEvent) : Prop :=
  ∀ ptr size r, e = .krealloc ptr size r → e.SplitsInPlace m → size % 8 = 0

/-- Every block of the list is at an address divisible by eight. -/
def Heap.Aligned {ε : Type} (h : Heap ε) : Prop := ∀ b, OnList h.mem h.heapStart b → b % 8 = 0

theorem ListStep.result_aligned {splits : Prop} (hs : ListStep splits L e L') (h : L.Aligned) :
    e.result % 8 = 0 := by
  cases hs with
  | kmalloc ha => exact ha.result_aligned h
  | kcalloc ha => exact ha.result_aligned h
  | kreallocNull _ ha => exact ha.result_aligned h
  | kreallocZero _ _ => rfl
  | krealloc hr => exact hr.result_aligned h
  | kfree _ => rfl
  | write => rfl
  | read => rfl

theorem ListStep.aligned_iff {splits : Prop} (hs : ListStep splits L e L') (h : L.Aligned) :
    L'.Aligned ↔ ∀ ptr size r, e = .krealloc ptr size r → splits → size % 8 = 0 :=
  hs.kept_iff (ψ := fun _ size => size % 8 = 0) h (fun _ _ _ ha => ha.aligned h)
    (fun _ _ hd => hd.aligned h) fun _ _ _ _ hr => hr.aligned_iff h

theorem Client.Shows.aligned_iff (hL : c.Shows L) : c.heap.Aligned ↔ L.Aligned := by
  obtain ⟨-, hbrk, hI⟩ := hL
  have h8 := HeapInv.le_brk hI
  rw [Heap.Aligned]
  simp only [hI.blocks.onList_iff]
  constructor
  · intro h
    refine ⟨fun b hb => h b (List.mem_append_left _ hb), ?_⟩
    have := h (c.heap.programBreakPoint - 8) (by simp)
    omega
  · intro h b hb
    rcases List.mem_append.mp hb with hb | hb
    · exact h.blocks b hb
    · have := h.brk
      rw [List.mem_singleton.mp hb]
      omega

theorem listing_start_aligned {env : Machine} (hinit : heapInit kernelEnd m env = some h₀) :
    Listing.Aligned ⟨[h₀.heapStart], h₀.programBreakPoint, fun _ => none⟩ := by
  refine ⟨?_, ?_⟩
  · have := heapStartAddr_page kernelEnd
    have := (heapInit_spec hinit).1
    simp only [List.mem_singleton, forall_eq]
    omega
  · change h₀.programBreakPoint % 8 = 0
    have := (heapInit_spec hinit).2.1
    omega

theorem listing_aligned (hdir : pmmDirectoryInit magic kernelEnd mbd mem = some (s, t))
    (hinit : heapInit kernelEnd m (Machine.start s t ram) = some h₀)
    (hrun : Trace (LayoutStep SplitsAligned) ⟨h₀, fun _ => none⟩ es c) :
    Ready c.heap ∧ ∃ L, c.Shows L ∧ L.Aligned := by
  exact listing_run hdir hinit hrun (listing_start_aligned hinit)
    fun c L e L' _ h hok hs => (hs.aligned_iff h).mpr hok

/-- **The heap is aligned** in every state of every run whose splits in place
leave multiples of eight bytes, and so is every pointer that was returned; and
the next call keeps this if and only if it is such a one. -/
theorem heap_aligned (hdir : pmmDirectoryInit magic kernelEnd mbd mem = some (s, t))
    (hinit : heapInit kernelEnd m (Machine.start s t ram) = some h₀)
    (hrun : Trace (LayoutStep SplitsAligned) ⟨h₀, fun _ => none⟩ es c) :
    (c.heap.Aligned ∧ ∀ e ∈ es, e.result % 8 = 0) ∧
    ∀ e c', HeapStep honestCalls c e c' →
      ((c'.heap.Aligned ∧ e.result % 8 = 0) ↔ SplitsAligned c.heap.mem e) := by
  obtain ⟨hR, L, hL, hal⟩ := listing_aligned hdir hinit hrun
  refine ⟨⟨hL.aligned_iff.mpr hal, fun e he => ?_⟩, fun e c' hs => ?_⟩
  · -- cut the run in front of the call
    obtain ⟨es₁, es₂, rfl⟩ := List.append_of_mem he
    obtain ⟨c₁, hrun₁, hrun₂⟩ := hrun.split
    obtain ⟨c₂, hs, -⟩ := hrun₂.uncons
    obtain ⟨hR₁, L₁, hL₁, hal₁⟩ := listing_aligned hdir hinit hrun₁
    obtain ⟨-, L₂, hs₂, -⟩ := hs.1.honest_listing hR₁ hL₁
    exact hs₂.result_aligned hal₁
  · obtain ⟨-, L', hs', hL'⟩ := hs.honest_listing hR hL
    rw [hL'.aligned_iff, and_iff_left (hs'.result_aligned hal), hs'.aligned_iff hal]
    rfl

theorem honest_of_brk {h : Heap Machine} {size : Nat} (hbrk : h.programBreakPoint = 0xC0400000)
    (hs : size ≤ 0x100000) : HonestRequest h size := by
  have hal := align_bounds (show size ≤ 4294967288 by omega)
  have hpt : ptBaseVaddr = 4290772992 := rfl
  exact ⟨by omega, fun _ => .inl (by rw [hbrk]; omega)⟩

theorem heap_aligned_sixteen : ∃ h₀ c,
    heapInit 0xC0120000 (fun _ => 0) (Machine.start oneEntryInit.1 oneEntryInit.2 fun _ => 0)
      = some h₀ ∧
    Trace (LayoutStep SplitsAligned) ⟨h₀, fun _ => none⟩ [.kmalloc 100 0xC0120008,
      .krealloc 0xC0120008 16 0xC0120008, .kmalloc 8 0xC0120020] c ∧ c.heap.Aligned := by
  obtain ⟨h₀, h₁, h₂, h₃, hinit, hk₁, hk₂, hk₃, hb₀, hb₁, hb₂⟩ : ∃ h₀ h₁ h₂ h₃,
      heapInit 0xC0120000 (fun _ => 0) (Machine.start oneEntryInit.1 oneEntryInit.2 fun _ => 0)
        = some h₀ ∧
      kmalloc sbrk 100 h₀ = some (0xC0120008, h₁) ∧
      krealloc sbrk 0xC0120008 16 h₁ = some (0xC0120008, h₂) ∧
      kmalloc sbrk 8 h₂ = some (0xC0120020, h₃) ∧ h₀.programBreakPoint = 0xC0400000 ∧
      h₁.programBreakPoint = 0xC0400000 ∧ h₂.programBreakPoint = 0xC0400000 :=
    ⟨_, _, _, _, rfl, rfl, rfl, rfl, rfl, rfl, rfl⟩
  have hrun : Trace (LayoutStep SplitsAligned) ⟨h₀, fun _ => none⟩ [.kmalloc 100 0xC0120008,
      .krealloc 0xC0120008 16 0xC0120008, .kmalloc 8 0xC0120020] _ :=
    .snoc (.snoc (.snoc .nil
      ⟨.kmalloc ⟨rfl, .inr (honest_of_brk hb₀ (by decide))⟩ hk₁, by rintro _ _ _ ⟨⟩⟩)
      ⟨.krealloc (.inr rfl) ⟨rfl, .inr (honest_of_brk hb₁ (by decide))⟩ hk₂,
        by rintro _ _ _ ⟨⟩ _; rfl⟩)
      ⟨.kmalloc ⟨rfl, .inr (honest_of_brk hb₂ (by decide))⟩ hk₃, by rintro _ _ _ ⟨⟩⟩
  exact ⟨h₀, _, hinit, hrun, (heap_aligned oneEntryInit_eq hinit hrun).1.1⟩

/-- `krealloc` to ten bytes in place puts a header at `0xC0120012`, and the next
`kmalloc` returns the pointer behind it. -/
theorem resize_misaligns : ∃ h₀ c,
    heapInit 0xC0120000 (fun _ => 0) (Machine.start oneEntryInit.1 oneEntryInit.2 fun _ => 0)
      = some h₀ ∧
    Trace (HeapStep honestCalls) ⟨h₀, fun _ => none⟩ [.kmalloc 100 0xC0120008,
      .krealloc 0xC0120008 10 0xC0120008, .kmalloc 8 0xC012001A] c ∧
    ¬ c.heap.Aligned ∧ (HeapEvent.kmalloc 8 0xC012001A).result % 8 = 2 := by
  obtain ⟨h₀, h₁, h₂, h₃, hinit, hk₁, hk₂, hk₃, hb₀, hb₁, hb₂, hnext, heom⟩ : ∃ h₀ h₁ h₂ h₃,
      heapInit 0xC0120000 (fun _ => 0) (Machine.start oneEntryInit.1 oneEntryInit.2 fun _ => 0)
        = some h₀ ∧
      kmalloc sbrk 100 h₀ = some (0xC0120008, h₁) ∧
      krealloc sbrk 0xC0120008 10 h₁ = some (0xC0120008, h₂) ∧
      kmalloc sbrk 8 h₂ = some (0xC012001A, h₃) ∧ h₀.programBreakPoint = 0xC0400000 ∧
      h₁.programBreakPoint = 0xC0400000 ∧ h₂.programBreakPoint = 0xC0400000 ∧
      blockNext h₃.mem h₃.heapStart = 0xC0120012 ∧ blockEOM h₃.mem h₃.heapStart = 0 :=
    ⟨_, _, _, _, rfl, rfl, rfl, rfl, rfl, rfl, rfl, rfl, rfl⟩
  have hrun : Trace (HeapStep honestCalls) ⟨h₀, fun _ => none⟩ [.kmalloc 100 0xC0120008,
      .krealloc 0xC0120008 10 0xC0120008, .kmalloc 8 0xC012001A] _ :=
    .snoc (.snoc (.snoc .nil
      (.kmalloc ⟨rfl, .inr (honest_of_brk hb₀ (by decide))⟩ hk₁))
      (.krealloc (.inr rfl) ⟨rfl, .inr (honest_of_brk hb₁ (by decide))⟩ hk₂))
      (.kmalloc ⟨rfl, .inr (honest_of_brk hb₂ (by decide))⟩ hk₃)
  refine ⟨h₀, _, hinit, hrun, fun hal => ?_, rfl⟩
  have hlist : OnList h₃.mem h₃.heapStart 0xC0120012 := ⟨1, hnext, fun j hj => by
    rw [Nat.lt_one_iff.mp hj]
    exact heom⟩
  exact absurd (hal _ hlist) (by decide)

/-! ### Neighbours -/

/-- `krealloc` in place splits only in front of a block in use. -/
def SplitsCoalesced (m : ByteMem) (e : HeapEvent) : Prop :=
  ∀ ptr size r, e = .krealloc ptr size r → e.SplitsInPlace m →
    blockFree m (blockNext m (ptr - 8)) = 0

/-- No block of the list is `FREE` together with the one behind it. -/
def Heap.Coalesced {ε : Type} (h : Heap ε) : Prop :=
  ∀ b, OnList h.mem h.heapStart b → blockFree h.mem b ≠ 0 →
    blockFree h.mem (blockNext h.mem b) = 0

/-- The list is one free block and the end block. -/
structure Heap.OneFree {ε : Type} (h : Heap ε) : Prop where
  block : blockEOM h.mem h.heapStart = 0
  free : blockFree h.mem h.heapStart ≠ 0
  end_block : blockEOM h.mem (blockNext h.mem h.heapStart) ≠ 0

section Neighbours

variable {splits : Prop} {b ptr size r : Nat} {l₁ l₂ : List Nat}

theorem ListStep.coalesced_iff (hs : ListStep splits L e L') (h8 : 8 ≤ L.brk)
    (hn : L.blocks.Nodup) (h : L.Coalesced) :
    L'.Coalesced ↔ ∀ ptr size r, e = .krealloc ptr size r → splits → L.NextUsed ptr :=
  hs.kept_iff (ψ := fun ptr _ => L.NextUsed ptr) h (fun _ _ _ ha => ha.coalesced h8 h)
    (fun _ _ hd => hd.coalesced hn h) fun _ _ _ _ hr => hr.coalesced_iff h8 hn h

theorem ListStep.ne_nil (hs : ListStep splits L e L') (h : L.blocks ≠ []) : L'.blocks ≠ [] :=
  (hs.kept_iff (Φ := fun L => L.blocks ≠ []) (ψ := fun _ _ => True) h
    (fun _ _ _ ha => ha.ne_nil h) (fun _ _ hd => hd.ne_nil)
    fun _ _ _ _ hr => iff_of_true (hr.ne_nil h) fun _ => trivial).mpr fun _ _ _ _ _ => trivial

theorem ListStep.split_ptr (hs : ListStep splits L (.krealloc ptr size r) L') (hsp : splits) :
    ∃ b ∈ L.blocks, ptr = b + 8 := by
  cases hs with
  | kreallocNull hno _ => exact absurd hsp hno
  | kreallocZero hno _ => exact absurd hsp hno
  | krealloc hr =>
    cases hr with
    | failed hno => exact absurd hsp hno
    | inPlace hr =>
      cases hr with
      | whole hb _ => exact ⟨_, hb, rfl⟩
      | split hl _ _ => exact ⟨_, by simp [hl], rfl⟩
    | moved hno _ _ _ _ _ => exact absurd hsp hno

theorem Client.Shows.next_eq {d : Nat} (hL : c.Shows L) (hl : L.blocks = l₁ ++ b :: d :: l₂) :
    blockNext c.heap.mem b = d := by
  have hseg := hL.2.2.blocks.seg
  rw [hl] at hseg
  exact (seg_append_cons.mp hseg).2.1

theorem Client.Shows.nextUsed_iff (hL : c.Shows L) (hb : b ∈ L.blocks) :
    L.NextUsed (b + 8) ↔ blockFree c.heap.mem (blockNext c.heap.mem b) = 0 := by
  have hI := hL.2.2
  constructor
  · intro hnext
    obtain ⟨l₁, l₂, hl⟩ := List.append_of_mem hb
    cases l₂ with
    | nil =>
      have hseg := hI.blocks.seg
      rw [hl] at hseg
      rw [hseg.eq_next_of_concat, hI.blocks.endUsed]
    | cons d l₂ =>
      have hused := hnext l₁ b d l₂ hl rfl
      rw [hL.next_eq hl]
      exact (HeapInv.used hI d (by simp [hl])).mpr hused
  · rintro hfree l₁ b' d l₂ hl hptr
    obtain rfl : b = b' := by omega
    rw [hL.next_eq hl] at hfree
    exact (HeapInv.used hI d (by simp [hl])).mp hfree

theorem Client.Shows.free_iff (hL : c.Shows L) (hb : b ∈ L.blocks) :
    blockFree c.heap.mem b ≠ 0 ↔ ¬ (L.live (b + 8)).isSome :=
  not_congr (HeapInv.used hL.2.2 b hb)

theorem Client.Shows.coalesced_iff (hL : c.Shows L) : c.heap.Coalesced ↔ L.Coalesced := by
  have hI := hL.2.2
  have hon : ∀ b, OnList c.heap.mem c.heap.heapStart b ↔
      b ∈ L.blocks ++ [c.heap.programBreakPoint - 8] := fun b => hI.blocks.onList_iff
  constructor
  · intro h
    refine List.isChain_iff_forall_rel_of_append_cons_cons.mpr fun b d l₁ l₂ hl => ?_
    have hb : b ∈ L.blocks := by simp [hl]
    by_cases hused : (L.live (b + 8)).isSome
    · exact .inl hused
    · have hnext := h b ((hon b).mpr (List.mem_append_left _ hb)) ((hL.free_iff hb).mpr hused)
      exact .inr ((hL.nextUsed_iff hb).mpr hnext l₁ b d l₂ hl rfl)
  · intro h b hb hfree
    rcases List.mem_append.mp ((hon b).mp hb) with hb | hb
    · refine (hL.nextUsed_iff hb).mp fun l₁ b' d l₂ hl hptr => ?_
      obtain rfl : b = b' := by omega
      have hone := List.isChain_iff_forall_rel_of_append_cons_cons.mp h hl
      exact hone.resolve_left ((hL.free_iff hb).mp hfree)
    · rw [List.mem_singleton.mp hb, hI.blocks.endUsed] at hfree
      exact absurd rfl hfree

theorem Client.Shows.oneFree (hL : c.Shows L) (h : L.Coalesced) (hne : L.blocks ≠ [])
    (hlive : ∀ p, c.live p = none) : c.heap.OneFree := by
  obtain ⟨b, hbs⟩ := h.eq_singleton hne fun p => by rw [← hL.1, hlive]
  have hI := hL.2.2
  have hb : b ∈ L.blocks := by simp [hbs]
  have hseg := hI.blocks.seg
  rw [hbs, seg_cons, seg_nil] at hseg
  obtain ⟨hstart, hnext⟩ := hseg
  refine ⟨?_, ?_, ?_⟩
  · rw [hstart]
    exact hI.blocks.notEOM b hb
  · rw [hstart, hL.free_iff hb, ← hL.1, hlive]
    decide
  · rw [hstart, hnext, hI.blocks.endEOM]
    decide

theorem Client.Shows.wellFormed (hL : c.Shows L) : 8 ≤ L.brk ∧ L.blocks.Nodup :=
  ⟨by rw [← hL.2.1]; exact HeapInv.le_brk hL.2.2, hL.2.2.blocks.nodup⟩

theorem Client.Shows.step_coalesced (hL : c.Shows L) (hs : ListStep splits L e L')
    (h : L.Coalesced)
    (hok : ∀ ptr size r, e = .krealloc ptr size r → splits → L.NextUsed ptr) : L'.Coalesced := by
  obtain ⟨h8, hn⟩ := hL.wellFormed
  exact (hs.coalesced_iff h8 hn h).mpr hok

theorem Client.Shows.split_iff (hL : c.Shows L)
    (hs : ListStep (e.SplitsInPlace c.heap.mem) L e L') :
    (∀ ptr size r, e = .krealloc ptr size r → e.SplitsInPlace c.heap.mem → L.NextUsed ptr) ↔
      SplitsCoalesced c.heap.mem e := by
  refine forall_congr' fun ptr => forall_congr' fun size => forall_congr' fun r =>
    forall_congr' fun he => forall_congr' fun hsp => ?_
  subst he
  obtain ⟨b, hb, rfl⟩ := hs.split_ptr hsp
  rw [Nat.add_sub_cancel]
  exact hL.nextUsed_iff hb

end Neighbours

/-- **No two free neighbours** in any state of any run whose splits in place are
in front of blocks in use; so with nothing allocated the list is one free block.
The next call keeps this if and only if it is such a one. -/
theorem heap_coalesced (hdir : pmmDirectoryInit magic kernelEnd mbd mem = some (s, t))
    (hinit : heapInit kernelEnd m (Machine.start s t ram) = some h₀)
    (hrun : Trace (LayoutStep SplitsCoalesced) ⟨h₀, fun _ => none⟩ es c) :
    (c.heap.Coalesced ∧ ((∀ p, c.live p = none) → c.heap.OneFree)) ∧
    ∀ e c', HeapStep honestCalls c e c' →
      (c'.heap.Coalesced ↔ SplitsCoalesced c.heap.mem e) := by
  obtain ⟨hR, L, hL, h, hne⟩ := listing_run (Φ := fun L => L.Coalesced ∧ L.blocks ≠ []) hdir hinit
    hrun ⟨List.isChain_singleton _, by simp⟩ (by
      rintro c L e L' hL ⟨h, hne⟩ hok hs
      exact ⟨hL.step_coalesced hs h ((hL.split_iff hs).mpr hok), hs.ne_nil hne⟩)
  refine ⟨⟨hL.coalesced_iff.mpr h, hL.oneFree h hne⟩, fun e c' hs => ?_⟩
  obtain ⟨-, L', hs', hL'⟩ := hs.honest_listing hR hL
  obtain ⟨h8, hn⟩ := hL.wellFormed
  rw [hL'.coalesced_iff, hs'.coalesced_iff h8 hn h, hL.split_iff hs']

theorem heap_coalesced_two : ∃ h₀ c,
    heapInit 0xC0120000 (fun _ => 0) (Machine.start oneEntryInit.1 oneEntryInit.2 fun _ => 0)
      = some h₀ ∧
    Trace (LayoutStep SplitsCoalesced) ⟨h₀, fun _ => none⟩ [.kmalloc 100 0xC0120008,
      .kmalloc 100 0xC0120078, .krealloc 0xC0120008 10 0xC0120008, .kfree 0xC0120008,
      .kfree 0xC0120078] c ∧ c.heap.OneFree := by
  obtain ⟨h₀, h₁, h₂, h₃, h₄, h₅, hinit, hk₁, hk₂, hk₃, hk₄, hk₅, hb₀, hb₁, hb₂, hfree⟩ :
      ∃ h₀ h₁ h₂ h₃ h₄ h₅,
      heapInit 0xC0120000 (fun _ => 0) (Machine.start oneEntryInit.1 oneEntryInit.2 fun _ => 0)
        = some h₀ ∧
      kmalloc sbrk 100 h₀ = some (0xC0120008, h₁) ∧
      kmalloc sbrk 100 h₁ = some (0xC0120078, h₂) ∧
      krealloc sbrk 0xC0120008 10 h₂ = some (0xC0120008, h₃) ∧
      kfree 0xC0120008 h₃ = some h₄ ∧ kfree 0xC0120078 h₄ = some h₅ ∧
      h₀.programBreakPoint = 0xC0400000 ∧ h₁.programBreakPoint = 0xC0400000 ∧
      h₂.programBreakPoint = 0xC0400000 ∧ blockFree h₂.mem (blockNext h₂.mem 0xC0120000) = 0 :=
    ⟨_, _, _, _, _, _, rfl, rfl, rfl, rfl, rfl, rfl, rfl, rfl, rfl, rfl⟩
  have hrun : Trace (LayoutStep SplitsCoalesced) ⟨h₀, fun _ => none⟩ [.kmalloc 100 0xC0120008,
      .kmalloc 100 0xC0120078, .krealloc 0xC0120008 10 0xC0120008, .kfree 0xC0120008,
      .kfree 0xC0120078] _ :=
    .snoc (.snoc (.snoc (.snoc (.snoc .nil
      ⟨.kmalloc ⟨rfl, .inr (honest_of_brk hb₀ (by decide))⟩ hk₁, by rintro _ _ _ ⟨⟩⟩)
      ⟨.kmalloc ⟨rfl, .inr (honest_of_brk hb₁ (by decide))⟩ hk₂, by rintro _ _ _ ⟨⟩⟩)
      ⟨.krealloc (.inr rfl) ⟨rfl, .inr (honest_of_brk hb₂ (by decide))⟩ hk₃,
        by rintro _ _ _ ⟨⟩ _; exact hfree⟩)
      ⟨.kfree rfl hk₄, by rintro _ _ _ ⟨⟩⟩)
      ⟨.kfree rfl hk₅, by rintro _ _ _ ⟨⟩⟩
  refine ⟨h₀, _, hinit, hrun, (heap_coalesced oneEntryInit_eq hinit hrun).1.2 fun p => ?_⟩
  by_cases h1 : p = 0xC0120008 <;> by_cases h2 : p = 0xC0120078 <;>
    simp [liveRealloc, liveAlloc, h1, h2]

/-- A block shrunk in place and freed leaves two free blocks and nothing allocated. -/
theorem resize_fragments : ∃ h₀ c,
    heapInit 0xC0120000 (fun _ => 0) (Machine.start oneEntryInit.1 oneEntryInit.2 fun _ => 0)
      = some h₀ ∧
    Trace (HeapStep honestCalls) ⟨h₀, fun _ => none⟩ [.kmalloc 100 0xC0120008,
      .krealloc 0xC0120008 10 0xC0120008, .kfree 0xC0120008] c ∧
    (∀ p, c.live p = none) ∧ ¬ c.heap.Coalesced ∧ ¬ c.heap.OneFree := by
  obtain ⟨h₀, h₁, h₂, h₃, hinit, hk₁, hk₂, hk₃, hb₀, hb₁, hfree, hnext, heom⟩ : ∃ h₀ h₁ h₂ h₃,
      heapInit 0xC0120000 (fun _ => 0) (Machine.start oneEntryInit.1 oneEntryInit.2 fun _ => 0)
        = some h₀ ∧
      kmalloc sbrk 100 h₀ = some (0xC0120008, h₁) ∧
      krealloc sbrk 0xC0120008 10 h₁ = some (0xC0120008, h₂) ∧
      kfree 0xC0120008 h₂ = some h₃ ∧ h₀.programBreakPoint = 0xC0400000 ∧
      h₁.programBreakPoint = 0xC0400000 ∧ blockFree h₃.mem h₃.heapStart = 1 ∧
      blockFree h₃.mem (blockNext h₃.mem h₃.heapStart) = 1 ∧
      blockEOM h₃.mem (blockNext h₃.mem h₃.heapStart) = 0 :=
    ⟨_, _, _, _, rfl, rfl, rfl, rfl, rfl, rfl, rfl, rfl, rfl⟩
  have hrun : Trace (HeapStep honestCalls) ⟨h₀, fun _ => none⟩ [.kmalloc 100 0xC0120008,
      .krealloc 0xC0120008 10 0xC0120008, .kfree 0xC0120008] _ :=
    .snoc (.snoc (.snoc .nil
      (.kmalloc ⟨rfl, .inr (honest_of_brk hb₀ (by decide))⟩ hk₁))
      (.krealloc (.inr rfl) ⟨rfl, .inr (honest_of_brk hb₁ (by decide))⟩ hk₂))
      (.kfree rfl hk₃)
  have hstart : OnList h₃.mem h₃.heapStart h₃.heapStart :=
    ⟨0, rfl, fun j hj => absurd hj (Nat.not_lt_zero j)⟩
  refine ⟨h₀, _, hinit, hrun, fun p => ?_, fun hc => ?_, fun hone => ?_⟩
  · simp [liveRealloc, liveAlloc, Function.update_apply]
  · have hzero : blockFree h₃.mem (blockNext h₃.mem h₃.heapStart) = 0 :=
      hc h₃.heapStart hstart (ne_of_eq_of_ne hfree (by decide))
    exact absurd (hnext.symm.trans hzero) (by decide)
  · exact hone.end_block heom

end Runs

end ChoOS
