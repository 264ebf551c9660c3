import Mathlib.Order.Bounds.Basic
import ChoOS.Heap.Layout

/-!
# Where `kmalloc` puts an allocation

`kmalloc` takes the first block of the list that is free and has room, and calls
`sbrk` when there is none.  This is about blocks; `Gap` is about addresses: so many
bytes of the heap of which none belongs to a block in use.

As long as no two free blocks are neighbours, a gap lies in one free block
(`Gap.exists_block`), so the two views agree.  `kmalloc_lowest` is then what the
search is for: an allocation with its header goes to the lowest address where it
fits, and the heap grows only when it fits nowhere.
-/

namespace ChoOS

section Search

variable {ε : Type} {h h' : Heap ε} {m : ByteMem} {start stop b size r x n : Nat}
  {bs : List Nat} {live : Live} {sbrk : Sbrk ε}

/-- The block is free and has room. -/
def Fits (m : ByteMem) (size b : Nat) : Prop :=
  blockFree m b ≠ 0 ∧ b + 8 + size ≤ blockNext m b

theorem Blocks.search_first (h : Blocks m start stop bs) (size : Nat) :
    (∃ l₁ b l₂, bs = l₁ ++ b :: l₂ ∧ Fits m size b ∧ (∀ x ∈ l₁, ¬ Fits m size x) ∧
      follow (blockNext m) (kmallocStop m size) walkFuel start = some b) ∨
    ((∀ b ∈ bs, ¬ Fits m size b) ∧
      follow (blockNext m) (kmallocStop m size) walkFuel start = some stop) := by
  rcases h.search_spec size with ⟨l₁, b, l₂, hl, hfree, hroom, hf⟩ | ⟨hno, hf⟩
  · refine .inl ⟨l₁, b, l₂, hl, ⟨hfree, hroom⟩, fun x hx hfit => ?_, hf⟩
    have hxs : x ∈ bs := by simp [hl, hx]
    have hseg := h.seg
    have hnodup := h.nodup
    rw [hl] at hseg hnodup
    have hseg : Seg (blockNext m) start (l₁ ++ b :: l₂) stop := hseg
    have hstop := hseg.follow_first hnodup hf x hx
    have hbd := h.mem_bounds hxs
    have hroom := hfit.2
    simp only [kmallocStop, h.notEOM x hxs, h.availableSpace hxs, hfit.1, ne_eq, not_false_eq_true,
      not_true_eq_false, decide_false, decide_true, Bool.false_or, Bool.true_and,
      decide_eq_false_iff_not] at hstop
    omega
  · exact .inr ⟨fun b hb hfit => absurd (hno b hb hfit.1) (Nat.not_lt.mpr hfit.2), hf⟩

/-- **First fit.**  `kmalloc` returns the first block that fits, or what becomes of the end
block when `sbrk` returns. -/
theorem kmalloc_firstFit (hI : h.Inv live bs) (hk : kmalloc sbrk size h = some (r, h')) :
    (∃ l₁ b l₂, bs = l₁ ++ b :: l₂ ∧ Fits h.mem (align size) b ∧
      (∀ x ∈ l₁, ¬ Fits h.mem (align size) x) ∧ r = b + 8 ∧ h'.env = h.env ∧
      h'.programBreakPoint = h.programBreakPoint) ∨
    ((∀ b ∈ bs, ¬ Fits h.mem (align size) b) ∧ ∃ r' h₁, sbrk (u32 (align size + 8)) h = some (r', h₁) ∧
      kmallocGrow (h.programBreakPoint - 8) r' h₁ = (r, h')) := by
  rcases hI.blocks.search_first (align size) with ⟨l₁, b, l₂, hl, hfit, hfirst, hf⟩ | ⟨hno, hf⟩
  · have hb : b ∈ bs := by simp [hl]
    have hbd := HeapInv.bounds hI hb
    simp only [kmalloc, hf, Option.bind_eq_bind, Option.bind_some, hI.blocks.notEOM b hb, ne_eq,
      not_true_eq_false, if_false, sizeofHeapBlock, u32_of_lt (show b + 8 < 4294967296 by omega)]
      at hk
    obtain ⟨rfl, rfl⟩ := Prod.mk.inj (Option.some.inj hk)
    exact .inl ⟨l₁, b, l₂, hl, hfit, hfirst, rfl, rfl, rfl⟩
  · simp only [kmalloc, hf, Option.bind_eq_bind, Option.bind_some, sizeofHeapBlock, hI.blocks.endEOM]
      at hk
    obtain ⟨⟨r', h₁⟩, hcall, hk⟩ := Option.bind_eq_some_iff.mp hk
    exact .inr ⟨hno, r', h₁, hcall, Option.some.inj hk⟩

/-! ### Gaps -/

/-- `n` bytes of the heap that belong to no block in use. -/
structure Heap.Gap (h : Heap ε) (n x : Nat) : Prop where
  start : h.heapStart ≤ x
  stop : x + n + 8 ≤ h.programBreakPoint
  unused : ∀ b, OnList h.mem h.heapStart b → blockFree h.mem b = 0 →
    x + n ≤ b ∨ blockNext h.mem b ≤ x

theorem Fits.gap (hI : h.Inv live bs) (hb : b ∈ bs) (hfit : Fits h.mem n b) :
    h.Gap (8 + n) b := by
  have hbd := HeapInv.bounds hI hb
  have hroom := hfit.2
  refine ⟨by omega, by omega, fun d hd hused => ?_⟩
  rcases List.mem_append.mp (hI.blocks.onList_iff.mp hd) with hd | hd
  · have hne : b ≠ d := by
      rintro rfl
      exact hfit.1 hused
    have := hI.blocks.apart hb hd hne
    omega
  · have := List.mem_singleton.mp hd
    omega

/-- **A gap lies in one free block**, when no two of them are neighbours. -/
theorem Heap.Gap.exists_block (hI : h.Inv live bs) (hco : h.Coalesced) (hg : h.Gap (8 + n) x) :
    ∃ b ∈ bs, Fits h.mem n b ∧ b ≤ x := by
  have hstart := hg.start
  have hstop := hg.stop
  obtain ⟨b, hb, hbx, hxb⟩ := hI.blocks.seg.exists_mem hstart
    (show x < h.programBreakPoint - 8 by omega)
  have hon : OnList h.mem h.heapStart b :=
    hI.blocks.onList_iff.mpr (List.mem_append_left _ hb)
  have hfree : blockFree h.mem b ≠ 0 := by
    intro hused
    have := hg.unused b hon hused
    omega
  refine ⟨b, hb, ⟨hfree, ?_⟩, hbx⟩
  -- the block behind is in use, or the end block
  have hnext := hco b hon hfree
  rcases hI.blocks.seg.next_mem hb with hend | hmem
  · rw [hend]
    omega
  · have hbehind := hg.unused _ (hI.blocks.onList_iff.mpr (List.mem_append_left _ hmem)) hnext
    have hbd := HeapInv.bounds hI hmem
    omega

theorem firstFit_isLeast {l₁ l₂ : List Nat} (hI : h.Inv live bs) (hco : h.Coalesced)
    (hl : bs = l₁ ++ b :: l₂) (hfit : Fits h.mem n b) (hfirst : ∀ x ∈ l₁, ¬ Fits h.mem n x) :
    IsLeast {x | h.Gap (8 + n) x} b := by
  have hb : b ∈ bs := by simp [hl]
  refine ⟨hfit.gap hI hb, fun x hx => ?_⟩
  obtain ⟨d, hd, hfit', hdx⟩ := hx.exists_block hI hco
  have hsorted := hI.blocks.seg.pairwise_lt hI.blocks.step (by decide)
  rw [hl] at hd hsorted
  rcases List.mem_append.mp hd with hd | hd
  · exact absurd hfit' (hfirst d hd)
  · rcases List.mem_cons.mp hd with rfl | hd
    · exact hdx
    · have := (List.pairwise_cons.mp (List.pairwise_append.mp hsorted).2.1).1 d hd
      omega

end Search

/-! ### Runs -/

section Runs

variable {magic kernelEnd : Nat} {mbd : Multiboot} {mem : Nat → Page} {m : ByteMem} {s : Frames}
variable {t : Tables} {ram : Nat → UInt8} {h₀ : Heap Machine} {c c' : Client Machine}
variable {es : List HeapEvent} {size r : Nat}

/-- **An allocation goes to the lowest address where it fits**, with the header in front of
it, in every run that keeps free blocks apart; and the heap grows only when it fits nowhere.
Then `kmalloc` returns the old break, or `NULL` when `sbrk` fails. -/
theorem kmalloc_lowest (hdir : pmmDirectoryInit magic kernelEnd mbd mem = some (s, t))
    (hinit : heapInit kernelEnd m (Machine.start s t ram) = some h₀)
    (hrun : Trace (LayoutStep SplitsCoalesced) ⟨h₀, fun _ => none⟩ es c)
    (hs : HeapStep honestCalls c (.kmalloc size r) c') :
    ((∃ x, c.heap.Gap (8 + align size) x) →
      8 ≤ r ∧ IsLeast {x | c.heap.Gap (8 + align size) x} (r - 8) ∧
      c'.heap.env = c.heap.env ∧ c'.heap.programBreakPoint = c.heap.programBreakPoint) ∧
    ((∀ x, ¬ c.heap.Gap (8 + align size) x) → ∃ r' h₁,
      sbrk (u32 (align size + 8)) c.heap = some (r', h₁) ∧
      (r' = sbrkFailed → r = 0 ∧ c'.heap = h₁) ∧
      (r' ≠ sbrkFailed → r = c.heap.programBreakPoint)) := by
  obtain ⟨-, L, hL, h, -⟩ := listing_run (Φ := fun L => L.Coalesced ∧ L.blocks ≠ []) hdir hinit
    hrun ⟨List.isChain_singleton _, by simp⟩ (by
      rintro c L e L' hL ⟨h, hne⟩ hok hs
      exact ⟨hL.step_coalesced hs h ((hL.split_iff hs).mpr hok), hs.ne_nil hne⟩)
  have hco := hL.coalesced_iff.mpr h
  have hI := hL.2.2
  cases hs with
  | kmalloc hlegal hk =>
    obtain ⟨rfl, -⟩ := hlegal
    rcases kmalloc_firstFit hI hk with ⟨l₁, b, l₂, hl, hfit, hfirst, rfl, henv, hbrk⟩ |
      ⟨hno, r', h₁, hcall, hgrow⟩
    · have hleast := firstFit_isLeast hI hco hl hfit hfirst
      exact ⟨fun _ => ⟨by omega, hleast, henv, hbrk⟩, fun hnone => absurd hleast.1 (hnone b)⟩
    · refine ⟨fun ⟨x, hx⟩ => ?_, fun _ => ⟨r', h₁, hcall, fun hr => ?_, fun hr => ?_⟩⟩
      · obtain ⟨b, hb, hfit, -⟩ := hx.exists_block hI hco
        exact absurd hfit (hno b hb)
      · rw [kmallocGrow, if_pos hr] at hgrow
        obtain ⟨rfl, rfl⟩ := Prod.mk.inj hgrow
        exact ⟨rfl, rfl⟩
      · rw [kmallocGrow, if_neg hr] at hgrow
        have h0 := HeapInv.le_brk hI
        have h1 := HeapInv.brk_le hI
        rw [← (Prod.mk.inj hgrow).1, sizeofHeapBlock, u32_of_lt (by omega)]
        omega

/-- The room of a freed allocation is the lowest gap. -/
theorem kmalloc_lowest_freed : ∃ h₀ c c',
    heapInit 0xC0120000 (fun _ => 0) (Machine.start oneEntryInit.1 oneEntryInit.2 fun _ => 0)
      = some h₀ ∧
    Trace (LayoutStep SplitsCoalesced) ⟨h₀, fun _ => none⟩ [.kmalloc 100 0xC0120008,
      .kmalloc 100 0xC0120078, .kfree 0xC0120008] c ∧
    HeapStep honestCalls c (.kmalloc 40 0xC0120008) c' ∧
    IsLeast {x | c.heap.Gap (8 + align 40) x} 0xC0120000 := by
  obtain ⟨h₀, h₁, h₂, h₃, h₄, hinit, hk₁, hk₂, hk₃, hk₄, hb₀, hb₁, hb₃⟩ :
      ∃ h₀ h₁ h₂ h₃ h₄,
      heapInit 0xC0120000 (fun _ => 0) (Machine.start oneEntryInit.1 oneEntryInit.2 fun _ => 0)
        = some h₀ ∧
      kmalloc sbrk 100 h₀ = some (0xC0120008, h₁) ∧
      kmalloc sbrk 100 h₁ = some (0xC0120078, h₂) ∧
      kfree 0xC0120008 h₂ = some h₃ ∧ kmalloc sbrk 40 h₃ = some (0xC0120008, h₄) ∧
      h₀.programBreakPoint = 0xC0400000 ∧ h₁.programBreakPoint = 0xC0400000 ∧
      h₃.programBreakPoint = 0xC0400000 :=
    ⟨_, _, _, _, _, rfl, rfl, rfl, rfl, rfl, rfl, rfl, rfl⟩
  obtain ⟨c, rfl, hrun⟩ : ∃ c : Client Machine, c.heap = h₃ ∧
      Trace (LayoutStep SplitsCoalesced) ⟨h₀, fun _ => none⟩ [.kmalloc 100 0xC0120008,
        .kmalloc 100 0xC0120078, .kfree 0xC0120008] c :=
    ⟨_, rfl, .snoc (.snoc (.snoc .nil
      ⟨.kmalloc ⟨rfl, .inr (honest_of_brk hb₀ (by decide))⟩ hk₁, by rintro _ _ _ ⟨⟩⟩)
      ⟨.kmalloc ⟨rfl, .inr (honest_of_brk hb₁ (by decide))⟩ hk₂, by rintro _ _ _ ⟨⟩⟩)
      ⟨.kfree rfl hk₃, by rintro _ _ _ ⟨⟩⟩⟩
  have hs : HeapStep honestCalls c (.kmalloc 40 0xC0120008) ⟨h₄, liveAlloc c.live 40 0xC0120008⟩ :=
    .kmalloc ⟨rfl, .inr (honest_of_brk hb₃ (by decide))⟩ hk₄
  obtain ⟨hfits, hgrows⟩ := kmalloc_lowest oneEntryInit_eq hinit hrun hs
  refine ⟨h₀, c, _, hinit, hrun, hs, (hfits ?_).2.1⟩
  by_contra hnone
  obtain ⟨r', h', -, hfailed, hgrown⟩ := hgrows fun x hx => hnone ⟨x, hx⟩
  by_cases hr : r' = sbrkFailed
  · exact absurd (hfailed hr).1 (by decide)
  · have hbrk := hgrown hr
    rw [hb₃] at hbrk
    exact absurd hbrk (by decide)

end Runs

end ChoOS
