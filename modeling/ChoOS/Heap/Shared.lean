import ChoOS.Heap.Mapped

/-!
# The break and its other users

`sbrk` is not only there for `kmalloc`: a client may take bytes from the break
itself, and then the end block is not directly below the break any more.
`kmalloc` does not look.  When it grows, it writes the new end block below the
new break and makes one block of everything between the two, the bytes of the
clients included.

`Sharing` is a heap with the regions that clients took.  As long as `kmalloc`
grows only while the end block is below the break (`GrowsAtEnd`), the list ends
at an address `e`, all regions are between `e` and the break, and nothing
overlaps (`Sharing.Inv.apart`).  From such a state the next growth that finds
the end block elsewhere takes in a region, so `sharing_apart` is an equivalence.
-/

namespace ChoOS

/-- The heap, the live pointers of `kmalloc` with the aligned sizes, and the
regions that clients took from `sbrk`, address and length. -/
structure Sharing where
  heap : Heap Machine
  live : Live
  regions : List (Nat × Nat)

inductive ShareEvent
  | sbrk (n r : Nat)
  | kmalloc (size r : Nat)
  | kfree (ptr : Nat)
  | write (a : Nat) (v : UInt8)

/-- One call, or a write of a client into its region. -/
inductive ShareStep : Sharing → ShareEvent → Sharing → Prop
  | sbrk {c : Sharing} {n r : Nat} {h' : Heap Machine} : 0 < n → n < 2147483648 →
      sbrk n c.heap = some (r, h') →
      ShareStep c (.sbrk n r)
        ⟨h', c.live, if r = sbrkFailed then c.regions else (r, n) :: c.regions⟩
  | kmalloc {c : Sharing} {size r : Nat} {h' : Heap Machine} :
      kmalloc sbrk size c.heap = some (r, h') →
      ShareStep c (.kmalloc size r) ⟨h', liveAlloc c.live (align size) r, c.regions⟩
  | kfree {c : Sharing} {ptr : Nat} {h' : Heap Machine} : (c.live ptr).isSome →
      kfree ptr c.heap = some h' →
      ShareStep c (.kfree ptr) ⟨h', Function.update c.live ptr none, c.regions⟩
  | write {c : Sharing} {a n i : Nat} {v : UInt8} : (a, n) ∈ c.regions → i < n →
      ShareStep c (.write (a + i) v)
        ⟨{ c.heap with mem := c.heap.mem.write8 (a + i) v }, c.live, c.regions⟩

/-- No byte of a region is in the header or the payload of a block of the list. -/
def Sharing.Apart (c : Sharing) : Prop :=
  ∀ a n, (a, n) ∈ c.regions → ∀ b, OnList c.heap.mem c.heap.heapStart b → ∀ x, a ≤ x → x < a + n →
    ¬ (b ≤ x ∧ x < b + sizeofHeapBlock + internalHeapBlockGetAvailableSpace c.heap.mem b)

/-- `kmalloc` finds no block, and `sbrk` grants the growth. -/
def Grows (h : Heap Machine) (size : Nat) : Prop :=
  ReachesEnd h size ∧
    ∃ r h', sbrk (u32 (align size + 8)) h = some (r, h') ∧ r ≠ sbrkFailed

/-- When `kmalloc` grows, the end block is below the break. -/
def GrowsAtEnd (h : Heap Machine) : ShareEvent → Prop
  | .kmalloc size _ => Grows h size → OnList h.mem h.heapStart (h.programBreakPoint - 8)
  | _ => True

/-- `sbrk` is not asked for more than there is below the recursive window.  The
size reaches `kmalloc` through `ALIGN` only. -/
def InWindow (h : Heap Machine) : ShareEvent → Prop
  | .sbrk n _ => h.programBreakPoint + n ≤ ptBaseVaddr
  | .kmalloc size _ => HonestRequest h (align size)
  | _ => True

/-- The list ends at `e`, and the regions are between `e` and the break. -/
structure Sharing.Inv (c : Sharing) (e : Nat) (bs : List Nat) : Prop where
  heap : HeapInv c.heap.mem c.heap.heapStart e c.live bs
  ready : Ready c.heap
  end_le : e ≤ c.heap.programBreakPoint
  window : c.heap.programBreakPoint ≤ 4290772992
  region : ∀ a n, (a, n) ∈ c.regions → e ≤ a ∧ 0 < n ∧ a + n ≤ c.heap.programBreakPoint
  taken : e < c.heap.programBreakPoint → c.regions ≠ []

section Shared

variable {c c' : Sharing} {ev : ShareEvent} {e size r : Nat} {bs : List Nat} {h' : Heap Machine}

theorem HeapInv.extent {m : ByteMem} {start brk b : Nat} {live : Live}
    (hI : HeapInv m start brk live bs) (hb : OnList m start b) :
    b + sizeofHeapBlock + internalHeapBlockGetAvailableSpace m b ≤ brk := by
  have h8 := hI.le_brk
  rcases List.mem_append.mp (hI.blocks.onList_iff.mp hb) with hb | hb
  · have hbd := hI.bounds hb
    rw [hI.blocks.availableSpace hb, sizeofHeapBlock]
    omega
  · rw [List.mem_singleton.mp hb, internalHeapBlockGetAvailableSpace, hI.blocks.endEOM,
      if_pos (by decide), sizeofHeapBlock]
    omega

theorem Sharing.Inv.apart (hI : c.Inv e bs) : c.Apart := by
  rintro a n hreg b hb x hax hxn ⟨-, hx⟩
  have hend := hI.heap.extent hb
  have hr := hI.region a n hreg
  omega

theorem Sharing.Inv.endAtBreak_iff (hI : c.Inv e bs) :
    OnList c.heap.mem c.heap.heapStart (c.heap.programBreakPoint - 8) ↔
      e = c.heap.programBreakPoint := by
  have h8 := hI.heap.le_brk
  have hle := hI.end_le
  rw [hI.heap.blocks.onList_iff]
  constructor
  · intro hmem
    rcases List.mem_append.mp hmem with hb | hb
    · have := hI.heap.bounds hb
      omega
    · have := List.mem_singleton.mp hb
      omega
  · intro heq
    rw [← heq]
    simp

/-! ### `kmalloc` -/

theorem reachesEnd_align {h : Heap Machine} : ReachesEnd h (align size) ↔ ReachesEnd h size := by
  rw [ReachesEnd, ReachesEnd, align_align]

theorem Sharing.Inv.of_same (hI : c.Inv e bs) (hR : Ready h') (hs : SameHeap c.heap h') :
    Sharing.Inv ⟨h', c.live, c.regions⟩ e bs := by
  have hle := hI.end_le
  have hheap := hI.heap.congr_below fun x hx => hs.below x (by omega)
  refine ⟨?_, hR, ?_, ?_, ?_, ?_⟩
  · rw [← hs.start] at hheap
    exact hheap
  all_goals
    dsimp only
    rw [hs.brk]
  · exact hle
  · exact hI.window
  · exact hI.region
  · exact hI.taken

/-- **What `kmalloc` does** on a shared heap: without growth the list ends where it
did; with growth the old end block becomes a block up to the new break. -/
theorem Sharing.Inv.kmalloc (hI : c.Inv e bs) (hh : HonestRequest c.heap (align size))
    (hk : ChoOS.kmalloc sbrk size c.heap = some (r, h')) :
    (¬ Grows c.heap size ∧
      ∃ bs', Sharing.Inv ⟨h', liveAlloc c.live (align size) r, c.regions⟩ e bs') ∨
    (Grows c.heap size ∧ Ready h' ∧ h'.programBreakPoint ≤ 4290772992 ∧
      h'.programBreakPoint = c.heap.programBreakPoint + (align size + 8) ∧
      HeapInv h'.mem h'.heapStart h'.programBreakPoint (liveAlloc c.live (align size) r)
        (bs ++ [e - 8])) := by
  have h8 := hI.heap.le_brk
  have hle := hI.end_le
  have hwin := hI.window
  have hst : c.heap.heapStart ≤ c.heap.programBreakPoint := by
    have := hI.heap.blocks.start_le_stop
    omega
  rcases kmalloc_paths hI.heap sbrk size with ⟨b, hb, hfree, hroom, hk'⟩ | ⟨hno, hk'⟩
  · obtain ⟨rfl, rfl⟩ := Prod.mk.inj (Option.some.inj (hk.symm.trans hk'))
    rw [← align_align] at hroom
    obtain ⟨bs', hI', -⟩ := kmalloc_fit hI.heap hb hfree (align_le size) hroom
    rw [align_align] at hI'
    refine .inl ⟨fun hg => ?_, bs', ?_⟩
    · have := (reachesEnd_iff hI.heap).mp hg.1 b hb hfree
      rw [align_align] at hroom
      omega
    · rw [liveAlloc_of_ne _ _ (by omega)]
      exact ⟨hI', hI.ready, hle, hwin, hI.region, hI.taken⟩
  · have hend : ReachesEnd c.heap size := (reachesEnd_iff hI.heap).mpr hno
    obtain ⟨r₁, h₁, held', hs, hr, hO⟩ := sbrk_honest hst hwin hI.ready hh
      (reachesEnd_align.mpr hend)
    rw [align_align] at hs hr
    obtain ⟨-, hlo⟩ := hI.ready
    have hk' := hk.symm.trans (hk' r₁ h₁ hs)
    rcases hr.result with ⟨rfl, hbrk⟩ | ⟨rfl, hbrk, hle'⟩
    · rw [kmallocGrow, if_pos rfl] at hk'
      obtain ⟨rfl, rfl⟩ := Prod.mk.inj (Option.some.inj hk')
      refine .inl ⟨?_, bs, ?_⟩
      · rintro ⟨-, r₂, h₂, hs', hne⟩
        exact hne (Prod.mk.inj (Option.some.inj (hs'.symm.trans hs))).1
      · rw [liveAlloc_null]
        exact hI.of_same ⟨⟨held', hO⟩, by omega⟩ ⟨hr.start, hbrk, hr.below⟩
    · have hnf : c.heap.programBreakPoint ≠ sbrkFailed := by
        simp only [sbrkFailed]
        omega
      obtain ⟨m', hg, hI', -⟩ := kmalloc_grown hI.heap (align_le size) hnf
        (fun x hx => hr.below x (by omega)) (by rw [align_align]; omega) hle'
      rw [hg] at hk'
      obtain ⟨rfl, rfl⟩ := Prod.mk.inj (Option.some.inj hk')
      refine .inr ⟨⟨hend, _, _, hs, hnf⟩, ⟨⟨held', hO⟩, by dsimp only; omega⟩, hle', hbrk, ?_⟩
      rw [liveAlloc_of_ne _ _ (by omega), hr.start]
      exact hI'

/-- A growth with the end block elsewhere makes the regions part of a block. -/
theorem Sharing.Inv.swallows (hI : c.Inv e bs) (hlt : e < c.heap.programBreakPoint)
    (hreg : c'.regions = c.regions) (hge : c.heap.programBreakPoint + 8 ≤ c'.heap.programBreakPoint)
    (hI' : HeapInv c'.heap.mem c'.heap.heapStart c'.heap.programBreakPoint c'.live (bs ++ [e - 8])) :
    ¬ c'.Apart := by
  intro hapart
  obtain ⟨⟨a, n⟩, hmem⟩ := List.exists_mem_of_ne_nil _ (hI.taken hlt)
  have h8 := hI.heap.le_brk
  have hr := hI.region a n hmem
  have hb : e - 8 ∈ bs ++ [e - 8] := by simp
  have hnext : blockNext c'.heap.mem (e - 8) = c'.heap.programBreakPoint - 8 :=
    hI'.blocks.seg.eq_next_of_concat
  have hon := hI'.blocks.onList_iff.mpr (List.mem_append_left _ hb)
  refine hapart a n (hreg ▸ hmem) (e - 8) hon a (by omega) (by omega) ⟨by omega, ?_⟩
  rw [hI'.blocks.availableSpace hb, hnext, sizeofHeapBlock]
  omega

/-- **What `sbrk` does**: the bytes that a client takes are behind the list. -/
theorem Sharing.Inv.sbrk {n : Nat} (hI : c.Inv e bs) (hpos : 0 < n) (hlt : n < 2147483648)
    (hend : c.heap.programBreakPoint + n ≤ 4290772992)
    (hcall : ChoOS.sbrk n c.heap = some (r, h')) :
    Sharing.Inv ⟨h', c.live, if r = sbrkFailed then c.regions else (r, n) :: c.regions⟩ e bs := by
  have hle := hI.end_le
  obtain ⟨⟨held, hO⟩, hlo⟩ := hI.ready
  obtain ⟨r₁, h₁, held', hcall', hr, hO'⟩ := sbrk_grows hO hpos hlt hlo hend
  obtain ⟨rfl, rfl⟩ := Prod.mk.inj (Option.some.inj (hcall.symm.trans hcall'))
  rcases hr.result with ⟨rfl, hbrk⟩ | ⟨rfl, hbrk, -⟩
  · rw [if_pos rfl]
    exact hI.of_same ⟨⟨held', hO'⟩, by omega⟩ ⟨hr.start, hbrk, hr.below⟩
  · have hnf : c.heap.programBreakPoint ≠ sbrkFailed := by
      simp only [sbrkFailed]
      omega
    rw [if_neg hnf]
    have hheap := hI.heap.congr_below fun x hx => hr.below x (by omega)
    rw [← hr.start] at hheap
    refine ⟨hheap, ⟨⟨held', hO'⟩, by dsimp only; omega⟩, by dsimp only; omega,
      by dsimp only; omega, fun a k hmem => ?_, fun _ => List.cons_ne_nil _ _⟩
    rcases List.mem_cons.mp hmem with heq | hmem
    · obtain ⟨rfl, rfl⟩ := Prod.mk.inj heq
      dsimp only
      omega
    · have := hI.region a k hmem
      dsimp only
      omega

/-! ### Steps and runs -/

/-- **One step**: the invariant again, or a growth with the end block elsewhere and
a region inside a block. -/
theorem ShareStep.outcome (hs : ShareStep c ev c') (hI : c.Inv e bs) (hw : InWindow c.heap ev) :
    (GrowsAtEnd c.heap ev ∧ ∃ e' bs', c'.Inv e' bs') ∨ (¬ GrowsAtEnd c.heap ev ∧ ¬ c'.Apart) := by
  have hle := hI.end_le
  have hwin := hI.window
  cases hs with
  | @sbrk n r h' hpos hlt hcall => exact .inl ⟨trivial, e, bs, hI.sbrk hpos hlt hw hcall⟩
  | @kmalloc size r h' hk =>
    rcases hI.kmalloc hw hk with ⟨hno, bs', hI'⟩ | ⟨hg, hR, hwin', hbrk, hheap⟩
    · exact .inl ⟨fun hg => absurd hg hno, e, bs', hI'⟩
    · by_cases heq : e = c.heap.programBreakPoint
      · refine .inl ⟨fun _ => hI.endAtBreak_iff.mpr heq, h'.programBreakPoint, _, hheap, hR, le_rfl,
          hwin', fun a n hmem => ?_, fun hlt => absurd hlt (lt_irrefl _)⟩
        have := hI.region a n hmem
        omega
      · refine .inr ⟨fun hat => heq (hI.endAtBreak_iff.mp (hat hg)),
          hI.swallows (by omega) rfl (by dsimp only; omega) hheap⟩
  | @kfree ptr h' hp hk =>
    obtain ⟨n, hn⟩ := Option.isSome_iff_exists.mp hp
    obtain ⟨m', hk', -, bs', -, hI'⟩ := kfree_blocks hI.heap hn
    obtain rfl := Option.some.inj (hk.symm.trans hk')
    exact .inl ⟨trivial, e, bs', hI', hI.ready, hle, hwin, hI.region, hI.taken⟩
  | @write a n i v hmem hi =>
    have hr := hI.region a n hmem
    refine .inl ⟨trivial, e, bs, hI.heap.congr_below fun x hx => ?_, hI.ready, hle, hwin, hI.region,
      hI.taken⟩
    change c.heap.mem.write8 (a + i) v x = c.heap.mem x
    rw [ByteMem.write8_apply (by omega), if_neg (by omega)]

/-- A step inside the window that grows only at the end. -/
def ApartStep (c : Sharing) (ev : ShareEvent) (c' : Sharing) : Prop :=
  ShareStep c ev c' ∧ InWindow c.heap ev ∧ GrowsAtEnd c.heap ev

/-- The heap after `heap_init`, with no region taken. -/
def Sharing.start (h₀ : Heap Machine) : Sharing := ⟨h₀, fun _ => none, []⟩

variable {magic kernelEnd : Nat} {mbd : Multiboot} {mem : Nat → Page} {m : ByteMem} {s : Frames}
variable {t : Tables} {ram : Nat → UInt8} {h₀ : Heap Machine} {es : List ShareEvent}

theorem Sharing.start_inv (hdir : pmmDirectoryInit magic kernelEnd mbd mem = some (s, t))
    (hinit : heapInit kernelEnd m (Machine.start s t ram) = some h₀) :
    (Sharing.start h₀).Inv h₀.programBreakPoint [h₀.heapStart] :=
  ⟨(heapInit_spec hinit).2.2, ready_of_boot hdir hinit, le_rfl,
    HeapInv.brk_le (heapInit_spec hinit).2.2, fun _ _ hmem => absurd hmem List.not_mem_nil,
    fun hlt => absurd hlt (lt_irrefl _)⟩

theorem ApartStep.inv (hs : ApartStep c ev c') (hI : ∃ e bs, c.Inv e bs) :
    ∃ e bs, c'.Inv e bs := by
  obtain ⟨e, bs, hI⟩ := hI
  exact (hs.1.outcome hI hs.2.1).elim And.right fun hno => absurd hs.2.2 hno.1

/-- **Regions and blocks stay apart** in every run in which `kmalloc` grows only
while the end block is below the break, and the next call keeps them apart if
and only if it is no other growth. -/
theorem sharing_apart (hdir : pmmDirectoryInit magic kernelEnd mbd mem = some (s, t))
    (hinit : heapInit kernelEnd m (Machine.start s t ram) = some h₀)
    (hrun : Trace ApartStep (Sharing.start h₀) es c) :
    c.Apart ∧ ∀ ev c', ShareStep c ev c' → InWindow c.heap ev →
      (c'.Apart ↔ GrowsAtEnd c.heap ev) := by
  obtain ⟨e, bs, hI⟩ := hrun.invariant (I := fun c => ∃ e bs, c.Inv e bs)
    ⟨_, _, Sharing.start_inv hdir hinit⟩ fun _ _ _ hI hs => hs.inv hI
  refine ⟨hI.apart, fun ev c' hs hw => ?_⟩
  rcases hs.outcome hI hw with ⟨hat, e', bs', hI'⟩ | ⟨hno, hover⟩
  · exact iff_of_true hI'.apart hat
  · exact iff_of_false hover hno

/-! ### A client in front of a growth -/

/-- A client takes ten bytes, and then the whole first block is allocated. -/
theorem exists_filled : ∃ h₀ c bs, BootedHeap 0xC0120000 (entryMap 64) h₀ ∧
    Trace ApartStep (Sharing.start h₀) [.sbrk 10 0xC0400000, .kmalloc 0x2DFFF0 0xC0120008] c ∧
    c.regions = [(0xC0400000, 10)] ∧ c.heap.heapStart = 0xC0120000 ∧
    c.heap.programBreakPoint = 0xC040000A ∧ c.live 0xC0120008 = some 0x2DFFF0 ∧
    c.Inv 0xC0400000 bs := by
  obtain ⟨h₀, h₁, hboot, hgrow, hst₁, hbrk₁, -⟩ := exists_grown (show 0 < 10 by decide) (by decide)
  obtain ⟨-, magic, mem, s, t, ram, m, hdir, hinit⟩ := id hboot
  obtain ⟨hst₀, hbrk₀, -⟩ := heapInit_spec hinit
  have hst₀ : h₀.heapStart = 0xC0120000 := hst₀
  have hI₀ := Sharing.start_inv hdir hinit
  rw [hbrk₀, hst₀] at hI₀
  have hw₁ : h₀.programBreakPoint + 10 ≤ 4290772992 := by omega
  have hs₁ : ApartStep (Sharing.start h₀) (.sbrk 10 0xC0400000)
      ⟨h₁, fun _ => none, [(0xC0400000, 10)]⟩ :=
    ⟨.sbrk (by decide) (by decide) hgrow.call, hw₁, trivial⟩
  have hI₁ : Sharing.Inv ⟨h₁, fun _ => none, [(0xC0400000, 10)]⟩ 0xC0400000 [0xC0120000] :=
    hI₀.sbrk (by decide) (by decide) hw₁ hgrow.call
  -- the first block has just the room that is asked for
  have hfit : ¬ NoFit h₁.mem [0xC0120000] 0x2DFFF0 := by
    intro hno
    have hfree := hI₁.heap.free_of_not_live (List.mem_singleton.mpr rfl) rfl
    have hlt := hno _ (List.mem_singleton.mpr rfl) hfree
    have hnext := (seg_cons.mp hI₁.heap.blocks.seg).2
    rw [seg_nil.mp hnext] at hlt
    exact absurd hlt (by decide)
  have hno : ¬ Grows h₁ 0x2DFFF0 := fun hg => hfit ((reachesEnd_iff hI₁.heap).mp hg.1)
  obtain ⟨h₂, hk, hst₂, hbrk₂⟩ : ∃ h₂, kmalloc ChoOS.sbrk 0x2DFFF0 h₁ = some (0xC0120008, h₂) ∧
      h₂.heapStart = 0xC0120000 ∧ h₂.programBreakPoint = 0xC040000A := by
    rcases kmalloc_paths hI₁.heap ChoOS.sbrk 0x2DFFF0 with ⟨b, hb, -, -, hk⟩ | ⟨hno, -⟩
    · rw [List.mem_singleton.mp hb] at hk
      exact ⟨_, hk, hst₁, hbrk₁⟩
    · exact absurd hno hfit
  have hw₂ : HonestRequest h₁ (align 0x2DFFF0) := by
    refine ⟨by decide, fun _ => .inl ⟨by decide, ?_⟩⟩
    rw [hbrk₁]
    decide
  obtain ⟨-, bs, hI₂⟩ := (hI₁.kmalloc hw₂ hk).resolve_right fun hg => hno hg.1
  exact ⟨h₀, _, bs, hboot, .snoc (.single hs₁) ⟨.kmalloc hk, hw₂, fun hg => absurd hg hno⟩, rfl,
    hst₂, hbrk₂, rfl, hI₂⟩

theorem sharing_apart_ten : ∃ h₀ c, BootedHeap 0xC0120000 (entryMap 64) h₀ ∧
    Trace ApartStep (Sharing.start h₀) [.sbrk 10 0xC0400000, .kmalloc 0x2DFFF0 0xC0120008] c ∧
    c.regions = [(0xC0400000, 10)] ∧ c.Apart := by
  obtain ⟨h₀, c, bs, hboot, hrun, hreg, -⟩ := exists_filled
  obtain ⟨-, magic, mem, s, t, ram, m, hdir, hinit⟩ := id hboot
  exact ⟨h₀, c, hboot, hrun, hreg, (sharing_apart hdir hinit hrun).1⟩

/-- The next `kmalloc(8)` grows, and returns the bytes that `sbrk(10)` gave to the
client. -/
theorem growth_overlaps : ∃ h₀ c c', BootedHeap 0xC0120000 (entryMap 64) h₀ ∧
    Trace ShareStep (Sharing.start h₀) [.sbrk 10 0xC0400000, .kmalloc 0x2DFFF0 0xC0120008] c ∧
    ShareStep c (.kmalloc 8 0xC0400000) c' ∧ (0xC0400000, 10) ∈ c'.regions ∧ ¬ c'.Apart := by
  obtain ⟨h₀, c, bs, hboot, hrun, hreg, hst, hbrk, hlive, hI⟩ := exists_filled
  -- one block takes all of the first heap, and it is in use
  have hno : NoFit c.heap.mem bs 8 := by
    intro b hb hfree
    obtain ⟨d, hd, hd8⟩ := hI.heap.mem_of_live _ _ hlive
    have hroom := hI.heap.room d hd _ (hd8 ▸ hlive)
    have hbd := hI.heap.bounds hb
    have hlo := hI.heap.bounds hd
    by_cases hbd' : b = d
    · have hnone := hI.heap.not_live_of_free hb hfree
      rw [hbd', ← hd8, hlive] at hnone
      exact absurd hnone (by decide)
    · have := hI.heap.blocks.apart hb hd hbd'
      omega
  have hcall : ChoOS.sbrk (u32 (align 8 + 8)) c.heap
      = some (0xC040000A, { c.heap with programBreakPoint := 0xC040001A }) := by
    rw [show u32 (align 8 + 8) = 16 from rfl, ChoOS.sbrk, if_neg (by decide), if_pos (by decide),
      incrementBrk]
    dsimp only
    rw [hbrk, if_neg (by decide)]
    rfl
  have hend : ReachesEnd c.heap 8 := (reachesEnd_iff hI.heap).mpr hno
  have hgrows : Grows c.heap 8 := ⟨hend, _, _, hcall, by decide⟩
  obtain ⟨h', hk⟩ : ∃ h', kmalloc ChoOS.sbrk 8 c.heap = some (0xC0400000, h') := by
    have hk := ((kmalloc_paths hI.heap ChoOS.sbrk 8).resolve_left ?_).2 _ _ hcall
    · rw [kmallocGrow, if_neg (by decide)] at hk
      exact ⟨_, hk⟩
    · rintro ⟨b, hb, hfree, hroom, -⟩
      have := hno b hb hfree
      omega
  have hw : HonestRequest c.heap (align 8) := by
    refine ⟨by decide, fun _ => .inl ⟨by decide, ?_⟩⟩
    rw [hbrk]
    decide
  have hstep : ShareStep c (.kmalloc 8 0xC0400000) _ := .kmalloc hk
  refine ⟨h₀, c, _, hboot, hrun.mono fun _ _ _ hs => hs.1, hstep, by rw [hreg]; simp, ?_⟩
  refine ((hstep.outcome hI hw).resolve_left fun hat => ?_).2
  have heq := hI.endAtBreak_iff.mp (hat.1 hgrows)
  rw [hbrk] at heq
  exact absurd heq (by decide)

end Shared

end ChoOS
