import ChoOS.Heap.Growth
import ChoOS.Paging.MemoryMap

/-!
# The frames that a shrink gives back

`increment_brk` maps whatever frame `pmm_alloc_page` returns.  `decrement_brk`
does not look up which one it was: it frees `V2P` of the page, the frame under
which the page would lie if the heap were mapped like the kernel image.  For the
pages that `pmm_directory_init` mapped this is the frame; for a page that the
heap has grown by it is a frame of somebody else, or of nobody, unless
`pmm_alloc_page` happened to return it.

`UnmapRun` lists the pages that a call unmaps, `freedFrames` the frames that it
frees and `backingFrames` those that it should free.  `DirectHeap` remembers which
pages the heap has mapped, and which of them were given the frame of their address:
those of the first heap, and what a growth has drawn since.  Between the calls of
`sbrk` other code allocates frames, gives its own back and maps pages elsewhere.
`shrink_frees_backing` says that while only direct pages are unmapped the two agree,
and no frame is clear while the heap maps it or it holds a table.
-/

namespace ChoOS

open Tables

/-- The frames that are passed to `pmm_free_page`. -/
def freedFrames (as : List Nat) : Set Nat := {f | ∃ a ∈ as, v2p a / 4096 = f}

/-- The frames that the pages are mapped to. -/
def backingFrames (h : Heap Machine) (as : List Nat) : Set Nat :=
  {f | ∃ a ∈ as, ∃ tr, h.env.tables.walk a = some tr ∧ (tr.frame : Nat) = f}

/-- `sbrk(increment)` maps page `q` to the frame at `p`. -/
def SbrkDraws (h : Heap Machine) (increment q p : Nat) : Prop :=
  increment < 2147483648 ∧
    Drawn (pageRoundUp (u32 (h.programBreakPoint + increment))) (pageRoundUp h.programBreakPoint)
      h.env (q * 4096) p

/-- `sbrk(increment)` unmaps page `q`: one of the whole pages between the breaks, counted
from the page of the old one. -/
def SbrkUnmaps (h : Heap Machine) (increment q : Nat) : Prop :=
  2147483648 ≤ increment ∧
    h.heapStart ≤ sub32 h.programBreakPoint (4294967296 - increment) ∧
    h.programBreakPoint / 4096 - (4294967296 - increment) / 4096 ≤ q ∧
    q < h.programBreakPoint / 4096

/-- The heap, with the pages that it has mapped, those of them that were given the frame
of their address, and the frames that other callers of `pmm_alloc_page` hold. -/
structure DirectHeap where
  heap : Heap Machine
  mapped : Set Nat
  direct : Set Nat
  others : Set Nat

/-- The pages of the first heap. -/
def firstMapped (h : Heap Machine) : Set Nat := {q | h.heapStart / 4096 ≤ q ∧ q < 787456}

/-- At the start the pages of the first heap are direct, but for the two over the directory
and the first table. -/
def firstDirect (h : Heap Machine) : Set Nat :=
  {q | q ∈ firstMapped h ∧ ¬ h.env.tables.InUse (q - 786432)}

def DirectHeap.start (h : Heap Machine) : DirectHeap := ⟨h, firstMapped h, firstDirect h, ∅⟩

/-- The pages of the heap after a call. -/
def mappedAfter (h : Heap Machine) (increment : Nat) (mapped : Set Nat) : Set Nat :=
  {q | (∃ p, SbrkDraws h increment q p) ∨ q ∈ mapped ∧ ¬ SbrkUnmaps h increment q}

/-- The direct pages after a call: those that it draws the frame of their address for, and
those that it leaves alone. -/
def directAfter (h : Heap Machine) (increment : Nat) (direct : Set Nat) : Set Nat :=
  {q | SbrkDraws h increment q (v2p (q * 4096)) ∨
    q ∈ direct ∧ (∀ p, ¬ SbrkDraws h increment q p) ∧ ¬ SbrkUnmaps h increment q}

/-- The call concerns no page of the heap, under neither of its addresses. -/
def FrameCall.Elsewhere (mapped : Set Nat) : FrameCall → Prop
  | .vmmPageMap _ virt _ _ => virt < ptBaseVaddr ∧ ∀ q ∈ mapped, ¬ SamePage (q * 4096) virt
  | .vmmPageUnmap virt _ => virt < ptBaseVaddr ∧ ∀ q ∈ mapped, ¬ SamePage (q * 4096) virt
  | .incrementBrk _ _ _ => False
  | .pmmAllocPage _ => True
  | .pmmFreePage _ => True

inductive DirectCall
  | sbrk (increment result : Nat)
  | other (call : FrameCall)
  | write

/-- A call of `sbrk` that does not grow into the window and unmaps direct pages only, a
call by other code, or a store. -/
inductive DirectStep : DirectHeap → DirectCall → DirectHeap → Prop
  | sbrk {c : DirectHeap} {increment r : Nat} {h' : Heap Machine} :
      SbrkStep c.heap ⟨increment, r⟩ h' →
      (increment < 2147483648 → c.heap.programBreakPoint + increment ≤ ptBaseVaddr) →
      (∀ q, SbrkUnmaps c.heap increment q → q ∈ c.direct) →
      DirectStep c (.sbrk increment r) ⟨h', mappedAfter c.heap increment c.mapped,
        directAfter c.heap increment c.direct, c.others⟩
  | other {c : DirectHeap} {call : FrameCall} {h' : Heap Machine} {others' : Set Nat} :
      FrameCallStep ⟨c.heap, c.others⟩ call ⟨h', others'⟩ → call.Elsewhere c.mapped →
      DirectStep c (.other call) ⟨h', c.mapped, c.direct, others'⟩
  | write {c : DirectHeap} (m : ByteMem) (ram : Nat → UInt8) :
      DirectStep c .write
        { c with heap := { c.heap with mem := m, env := { c.heap.env with ram := ram } } }

/-- Of the frames under the first heap `pmm_frames_init` leaves none free but those that
`pmm_directory_init` takes. -/
def FirstHeapTaken (kernelEnd : Nat) (mbd : Multiboot) (h₀ : Heap Machine) : Prop :=
  ∀ bitmap, pmmFramesInit kernelEnd mbd = some bitmap → ∀ f, h₀.heapStart / 4096 ≤ f + 786432 →
    f < 1024 → bitmap.testBit f = false → h₀.env.tables.InUse f

/-- **No clear frame is mapped by the heap or holds a table.** -/
structure ClearUnmapped (c : DirectHeap) : Prop where
  table : ∀ f ∈ c.heap.env.frames.clear, ¬ c.heap.env.tables.InUse f
  heap : ∀ f ∈ c.heap.env.frames.clear, ∀ v tr, v / 4096 ∈ c.mapped →
    c.heap.env.tables.walk v = some tr → (tr.frame : Nat) ≠ f

section Loop

variable {h h' : Heap Machine} {new n a : Nat} {as : List Nat}

theorem UnmapRun.pages (hrun : UnmapRun new h as h') (hnew : 4096 ≤ new)
    (hle : new ≤ h.programBreakPoint) (hlt : h.programBreakPoint < 4294967296) (ha : a ∈ as) :
    new ≤ a ∧ a < h.programBreakPoint ∧
      h.programBreakPoint / 4096 - (h.programBreakPoint - new) / 4096 ≤ a / 4096 ∧
      a / 4096 < h.programBreakPoint / 4096 := by
  induction hrun with
  | done _ => cases ha
  | @page h h' as res e hpage _ _ ih =>
    have hsub : sub32 h.programBreakPoint pageSize = h.programBreakPoint - 4096 :=
      sub32_of_le (show 4096 ≤ h.programBreakPoint by omega) hlt
    rw [hsub] at hpage ha ih
    rcases List.mem_cons.mp ha with he | ha
    · omega
    · obtain ⟨h1, h2, h3, h4⟩ := ih hpage (by dsimp only; omega) ha
      dsimp only at h2 h3 h4
      omega

/-- **The right frames** are freed when every page is mapped to the frame of its
address. -/
theorem freedFrames_eq (hall : ∀ a ∈ as, ∃ tr, h.env.tables.walk a = some tr ∧
    (tr.frame : Nat) = v2p a / 4096) : freedFrames as = backingFrames h as := by
  ext f
  constructor
  · rintro ⟨a, ha, hf⟩
    obtain ⟨tr, hw, htr⟩ := hall a ha
    exact ⟨a, ha, tr, hw, htr.trans hf⟩
  · rintro ⟨a, ha, tr, hw, hf⟩
    obtain ⟨tr', hw', htr⟩ := hall a ha
    obtain rfl := Option.some.inj (hw.symm.trans hw')
    exact ⟨a, ha, htr.symm.trans hf⟩

end Loop

/-! ### The invariant -/

/-- A page of the heap shows frame `f` at `v`. -/
def Machine.Shows (mapped : Set Nat) (e : Machine) (v f : Nat) : Prop :=
  v / 4096 ∈ mapped ∧ ∃ tr, e.tables.walk v = some tr ∧ (tr.frame : Nat) = f

/-- The pages of the heap show held frames that no other caller holds, none of them twice,
and every direct page lies over the frame of its address, which is no table. -/
structure Machine.Linked (mapped direct held others : Set Nat) (e : Machine) : Prop where
  range : ∀ q ∈ mapped, HeapPage (q * 4096)
  pages : ∀ v f, e.Shows mapped v f → f * 4096 ∈ held ∧ f * 4096 ∉ others
  apart : ∀ u v f, e.Shows mapped u f → e.Shows mapped v f → u / 4096 = v / 4096
  direct : ∀ q ∈ direct, e.Shows mapped (q * 4096) (q - 786432) ∧
    ¬ e.tables.InUse (q - 786432)

namespace Machine

variable {e e' : Machine} {held held' mapped direct others : Set Nat}
  {top vaddr f u v lo hi q : Nat} {ok : Bool}

theorem available_pmmFreePage {a : Nat} {s : Frames}
    (hf : f ∈ (ChoOS.pmmFreePage a s).available) : f = a / 4096 ∨ f ∈ s.available := by
  rcases hf with hc | hw
  · obtain ⟨hlt, hb⟩ := Frames.mem_clear.mp hc
    by_cases he : f = a / 4096
    · exact .inl he
    · have hb : (s.bitmap.clearBit (a / 4096)).testBit f = false := hb
      rw [Bitmap.testBit_clearBit, decide_eq_false (Ne.symm he)] at hb
      exact .inr (.inl (Frames.mem_clear.mpr ⟨hlt, hb⟩))
  · exact .inr (.inr hw)

theorem Ok.not_clear (hO : e.Ok held) (hf : f * 4096 ∈ held) : f ∉ e.frames.clear := by
  obtain ⟨res, hI⟩ := hO.frames
  intro hc
  have hset := (hI.owned.heldTaken _ hf).set
  rw [Nat.mul_div_cancel _ (by decide), (Frames.mem_clear.mp hc).2] at hset
  cases hset

theorem Ok.spare (hO : e.Ok held) (hf : f * 4096 ∈ held) (h0 : 0 < f)
    (hu : ¬ e.tables.InUse f) : e.Spare f := by
  obtain ⟨res, hI⟩ := hO.frames
  exact ⟨hu, fun k hk he => (hI.owned.waiting k hk (by omega)).2 (he ▸ hf)⟩

/-- The frames whose bit is set and that do not wait to be issued. -/
def inHand (e : Machine) : Set Nat :=
  {a | a % 4096 = 0 ∧ 0 < a / 4096 ∧ a / 4096 < 1048576 ∧ e.frames.bitmap.testBit (a / 4096) ∧
    ∀ k ∈ e.frames.unissued, e.frames.preFrames k ≠ a}

theorem Ok.inHand (hO : e.Ok held) : e.Ok e.inHand := by
  obtain ⟨res, hI⟩ := hO.frames
  have hpos : ∀ {a}, Taken e.frames.bitmap res a → 0 < a / 4096 := by
    intro a ha
    by_contra h0
    have hres := ha.notReserved
    rw [show a / 4096 = 0 by omega, hI.owned.null] at hres
    cases hres
  have hnull : ∀ {i}, 0 < i → nullBitmap.testBit i = false := by
    intro i hi
    rw [testBit_nullBitmap, decide_eq_false (by omega)]
  refine ⟨⟨nullBitmap, ⟨⟨fun i hi => ?_, by rw [testBit_nullBitmap]; rfl, fun a ha => ?_,
    fun k hk h0 => ?_, hI.owned.distinct⟩, hI.pframe⟩⟩, hO.tables, fun f hu => ?_⟩
  · rw [testBit_nullBitmap, decide_eq_true_eq] at hi
    exact hi ▸ hO.null
  · obtain ⟨hal, h0, hlt, hset, -⟩ := ha
    exact ⟨hal, hlt, hset, hnull h0⟩
  · have ht := (hI.owned.waiting k hk h0).1
    exact ⟨⟨ht.aligned, ht.lt, ht.set, hnull (hpos ht)⟩, fun hin => hin.2.2.2.2 k hk rfl⟩
  · have hf := hO.inUse f hu
    have ht := hI.owned.heldTaken _ hf
    have hne := hpos ht
    exact ⟨ht.aligned, hne, ht.lt, ht.set, fun k hk he =>
      (hI.owned.waiting k hk (by omega)).2 (he ▸ hf)⟩

theorem Shows.congr (hs : e'.Shows mapped v f) (hw : e'.tables.walk v = e.tables.walk v) :
    e.Shows mapped v f := by
  obtain ⟨hv, tr, hwalk, hf⟩ := hs
  exact ⟨hv, tr, hw ▸ hwalk, hf⟩

theorem Linked.heapPage (hL : e.Linked mapped direct held others) (hv : v / 4096 ∈ mapped) :
    HeapPage v := .of_page (hL.range _ hv)

/-! ### A growth -/

theorem Shows.of_growRun (hG : GrowRun top vaddr e held ok e' held') (hp : HeapPage v)
    (hal : vaddr % 4096 = 0) (hlo : 3221225472 ≤ vaddr)
    (hs : e'.Shows {q | (∃ p, Drawn top vaddr e (q * 4096) p) ∨ q ∈ mapped} v f) :
    Drawn top vaddr e (v / 4096 * 4096) (f * 4096) ∨ e.Shows mapped v f := by
  obtain ⟨hv, tr, hw, hf⟩ := hs
  by_cases hd : ∃ p, Drawn top vaddr e (v / 4096 * 4096) p
  · obtain ⟨p, hd⟩ := hd
    obtain rfl := Option.some.inj (hw.symm.trans (hG.walk_drawn hp hd))
    rw [← hf, (hG.frame _ p hd).1]
    exact .inl hd
  · rw [hG.walk_other hp hal hlo fun p h => hd ⟨p, h⟩] at hw
    exact .inr ⟨hv.resolve_left hd, tr, hw, hf⟩

/-- A page that is drawn the frame of its address. -/
theorem drawn_direct (hG : GrowRun top vaddr e held ok e' held') (hp : HeapPage (q * 4096))
    (hd : Drawn top vaddr e (q * 4096) (v2p (q * 4096))) :
    (∃ tr, e'.tables.walk (q * 4096) = some tr ∧ (tr.frame : Nat) = q - 786432) ∧
      ¬ e'.tables.InUse (q - 786432) := by
  have hge := hp.kernel
  have hwin := hp.window
  obtain ⟨hfr, -, -, hu⟩ := hG.frame _ _ hd
  have hf : (frameOf (v2p (q * 4096)) : Nat) = q - 786432 := by
    simp only [v2p, sub32, u32, kernelVirtOffset] at hfr ⊢
    omega
  rw [hf] at hu
  refine ⟨⟨_, hG.walk_drawn hp ?_, hf⟩, hu⟩
  rw [Nat.mul_div_cancel _ (by decide)]
  exact hd

/-- **A growth** keeps the heap linked. -/
theorem Linked.grow (hL : e.Linked mapped direct held others) (hsub : others ⊆ held)
    (hG : GrowRun top vaddr e held ok e' held') (hal : vaddr % 4096 = 0)
    (hlo : 3221225472 ≤ vaddr) (htop : top ≤ 4290772992) :
    e'.Linked {q | (∃ p, Drawn top vaddr e (q * 4096) p) ∨ q ∈ mapped}
      {q | Drawn top vaddr e (q * 4096) (v2p (q * 4096)) ∨
        q ∈ direct ∧ ∀ p, ¬ Drawn top vaddr e (q * 4096) p} held' others := by
  have hrange : ∀ q ∈ {q | (∃ p, Drawn top vaddr e (q * 4096) p) ∨ q ∈ mapped},
      HeapPage (q * 4096) := by
    rintro q (⟨p, hd⟩ | hq)
    · exact hG.heapPage hlo htop hd
    · exact hL.range q hq
  have hcases : ∀ {v f}, e'.Shows {q | (∃ p, Drawn top vaddr e (q * 4096) p) ∨ q ∈ mapped} v f →
      Drawn top vaddr e (v / 4096 * 4096) (f * 4096) ∨ e.Shows mapped v f :=
    fun hs => hs.of_growRun hG (.of_page (hrange _ hs.1)) hal hlo
  -- a drawn frame is new, so no page that was there shows it
  have hnew : ∀ {w v f}, Drawn top vaddr e w (f * 4096) → ¬ e.Shows mapped v f :=
    fun hd hs => (hG.frame _ _ hd).2.1 (hL.pages _ _ hs).1
  refine ⟨hrange, fun v f hs => ?_, fun u v f hu hv => ?_, fun q hq => ?_⟩
  · rcases hcases hs with hd | hs
    · obtain ⟨-, hno, hin, -⟩ := hG.frame _ _ hd
      exact ⟨hin, fun ho => hno (hsub ho)⟩
    · obtain ⟨hin, hno⟩ := hL.pages v f hs
      exact ⟨hG.kept hin, hno⟩
  · rcases hcases hu with hdu | hu <;> rcases hcases hv with hdv | hv
    · have := hG.distinct _ _ _ hdu hdv
      omega
    · exact absurd hv (hnew hdu)
    · exact absurd hu (hnew hdv)
    · exact hL.apart u v f hu hv
  · have hpage : q * 4096 / 4096 = q := Nat.mul_div_cancel _ (by decide)
    rcases hq with hd | ⟨hq, hno⟩
    · obtain ⟨hw, hu⟩ := drawn_direct hG (hG.heapPage hlo htop hd) hd
      refine ⟨⟨.inl ⟨v2p (q * 4096), ?_⟩, hw⟩, hu⟩
      rw [hpage]
      exact hd
    · obtain ⟨hs, hu⟩ := hL.direct q hq
      refine ⟨⟨.inr hs.1, ?_⟩, fun hu' => hu (hG.tables _ (hL.pages _ _ hs).1 hu')⟩
      rw [hG.walk_other (hL.heapPage hs.1) hal hlo (by rw [hpage]; exact hno)]
      exact hs.2

/-! ### A shrink -/

/-- **A shrink** keeps the heap linked when it unmaps direct pages. -/
theorem Linked.shrink (hL : e.Linked mapped direct held others)
    (ht : PagesUnmapped e.tables e'.tables lo hi) (hdir : ∀ q, lo ≤ q → q < hi → q ∈ direct) :
    e'.Linked {q | q ∈ mapped ∧ ¬ (lo ≤ q ∧ q < hi)} {q | q ∈ direct ∧ ¬ (lo ≤ q ∧ q < hi)}
      (held \ {a | lo ≤ a / 4096 + 786432 ∧ a / 4096 + 786432 < hi}) others := by
  have hkept : ∀ {v f}, e'.Shows {q | q ∈ mapped ∧ ¬ (lo ≤ q ∧ q < hi)} v f →
      e.Shows mapped v f ∧ ¬ (lo ≤ v / 4096 ∧ v / 4096 < hi) := by
    rintro v f ⟨⟨hv, hout⟩, tr, hw, hf⟩
    rw [ht.walk v (hL.heapPage hv), if_neg hout] at hw
    exact ⟨⟨hv, tr, hw, hf⟩, hout⟩
  refine ⟨fun q hq => hL.range q hq.1, fun v f hs => ?_, fun u v f hu hv => ?_, fun q hq => ?_⟩
  · obtain ⟨hs, hout⟩ := hkept hs
    obtain ⟨hin, hno⟩ := hL.pages v f hs
    refine ⟨⟨hin, fun hfreed => hout ?_⟩, hno⟩
    rw [Set.mem_ofPred_eq, Nat.mul_div_cancel _ (by decide)] at hfreed
    -- the frame is that of a direct page, so this is the page
    have hs' := (hL.direct (f + 786432) (hdir _ hfreed.1 hfreed.2)).1
    rw [Nat.add_sub_cancel] at hs'
    have := hL.apart v _ f hs hs'
    omega
  · exact hL.apart u v f (hkept hu).1 (hkept hv).1
  · obtain ⟨hs, hu⟩ := hL.direct q hq.1
    have hout : ¬ (lo ≤ q * 4096 / 4096 ∧ q * 4096 / 4096 < hi) := by
      rw [Nat.mul_div_cancel _ (by decide)]
      exact hq.2
    refine ⟨⟨⟨hs.1, hout⟩, ?_⟩, fun hu' => hu (inUse_of_same ht.cr3 ht.fixed hu')⟩
    rw [ht.walk _ (hL.heapPage hs.1), if_neg hout]
    exact hs.2

end Machine

theorem FrameHolders.Ok.shrink {h h' : Heap Machine} {mapped direct held others : Set Nat}
    {lo hi : Nat} (hO : FrameHolders.Ok ⟨h, others⟩ held)
    (hL : h.env.Linked mapped direct held others)
    (ht : PagesUnmapped h.env.tables h'.env.tables lo hi)
    (hf : FramesFreed h.env.frames h'.env.frames lo hi) (hlo : 786432 < lo)
    (hdir : ∀ q, lo ≤ q → q < hi → q ∈ direct) :
    FrameHolders.Ok ⟨h', others⟩
      (held \ {a | lo ≤ a / 4096 + 786432 ∧ a / 4096 + 786432 < hi}) := by
  obtain ⟨hM, hsub, hap, hS⟩ := hO
  dsimp only at hM hsub hap hS
  have hown : ∀ q, lo ≤ q → q < hi → (q - 786432) * 4096 ∈ held ∧ (q - 786432) * 4096 ∉ others :=
    fun q h1 h2 => hL.pages _ _ (hL.direct q (hdir q h1 h2)).1
  refine ⟨hM.shrink ht hf hlo fun q h1 h2 => ?_, fun a ha => ⟨hsub ha, fun hin => ?_⟩,
    fun f hf hu => hap f hf (inUse_of_same ht.cr3 ht.fixed hu),
    hS.congr (ht.fixed 0 (by decide)) (ht.fixed 768 (by decide))⟩
  · exact hM.spare (hown q h1 h2).1 (by omega) (hL.direct q (hdir q h1 h2)).2
  · -- a frame of another caller is the frame of no direct page
    obtain ⟨res, hI⟩ := hM.frames
    have hal := (hI.owned.heldTaken a (hsub ha)).aligned
    refine (hown (a / 4096 + 786432) hin.1 hin.2).2 ?_
    rw [show (a / 4096 + 786432 - 786432) * 4096 = a by omega]
    exact ha

/-! ### Other code -/

section Other

variable {c c' : FrameHolders} {ev : FrameCall} {mapped direct held : Set Nat}

theorem FrameCall.Elsewhere.below (he : ev.Elsewhere mapped) : ev.Below := by
  cases ev with
  | pmmAllocPage r => trivial
  | pmmFreePage a => trivial
  | vmmPageMap phys virt flags res => exact he.1
  | vmmPageUnmap virt res => exact he.1
  | incrementBrk b n r => exact he.elim

theorem samePage_of_page {u v virt : Nat} (hu : 4194304 ≤ u) (hpage : u / 4096 = v / 4096)
    (hal : v % 4096 = 0) (hs : SamePage u virt) : SamePage v virt := by
  rw [SamePage, ← hs, kernelAddr, kernelAddr, if_neg (by omega), if_neg (by omega)]
  omega

/-- **A call elsewhere** moves no break and leaves the translations of the heap alone. -/
theorem FrameCallStep.elsewhere (hO : c.Ok held) (hs : FrameCallStep c ev c')
    (he : ev.Elsewhere mapped) :
    c'.heap.heapStart = c.heap.heapStart ∧ c'.heap.programBreakPoint = c.heap.programBreakPoint ∧
      ∀ v, v / 4096 ∈ mapped → HeapPage v → c'.heap.env.tables.walk v = c.heap.env.tables.walk v := by
  obtain ⟨hM, -, -, hS⟩ := hO
  have hno : ∀ {virt}, (∀ q ∈ mapped, ¬ SamePage (q * 4096) virt) → ∀ v, v / 4096 ∈ mapped →
      HeapPage v → ¬ SamePage v virt := by
    intro virt hno v hv hp hs
    have hlo := hp.kernel
    exact hno _ hv (samePage_of_page (by omega) (by omega) (by omega) hs)
  cases hs with
  | @pmmAllocPage r e h =>
    obtain ⟨-, ht, -⟩ := hM.pmmAllocPage h
    exact ⟨rfl, rfl, fun v _ _ => by dsimp only; rw [ht]⟩
  | @pmmFreePage a ha => exact ⟨rfl, rfl, fun v _ _ => rfl⟩
  | @vmmPageMap phys virt flags res h' h =>
    obtain ⟨⟨res, e⟩, hm, h⟩ := Option.bind_eq_some_iff.mp h
    obtain ⟨rfl, rfl⟩ := Prod.mk.inj (Option.some.inj h)
    obtain ⟨res', e', held', hm', -, -, -, -, hres⟩ := hM.mapBelow hS he.1 phys flags
    obtain ⟨rfl, rfl⟩ := Prod.mk.inj (Option.some.inj (hm.symm.trans hm'))
    refine ⟨rfl, rfl, fun v hv hp => ?_⟩
    dsimp only
    rcases hres with ⟨-, hmaps⟩ | ⟨-, -, ht⟩
    · exact hmaps.others v hp.window (hno he.2 v hv hp)
    · rw [ht]
  | @vmmPageUnmap virt res e h =>
    obtain ⟨res', e', hm', -, -, -, hothers⟩ := hM.unmapBelow hS he.1
    obtain ⟨-, rfl⟩ := Prod.mk.inj (Option.some.inj (h.symm.trans hm'))
    exact ⟨rfl, rfl, fun v hv hp => hothers v hp.window (hno he.2 v hv hp)⟩
  | incrementBrk _ _ _ _ => exact he.elim

/-- **A call elsewhere** keeps the heap linked. -/
theorem FrameCallStep.linked (hO : c.Ok held) (hL : c.heap.env.Linked mapped direct held c.held)
    (hs : FrameCallStep c ev c') (he : ev.Elsewhere mapped) :
    ∃ held', c'.Ok held' ∧ c'.heap.env.Linked mapped direct held' c'.held := by
  obtain ⟨held', hO', hkept, htables⟩ := BelowStep.ok hO ⟨hs, he.below⟩
  obtain ⟨-, -, hwalk⟩ := hs.elsewhere hO he
  have hshows : ∀ {v f}, c'.heap.env.Shows mapped v f ↔ c.heap.env.Shows mapped v f := by
    refine ⟨fun hs => ?_, fun hs => ?_⟩
    · exact hs.congr (hwalk _ hs.1 (hL.heapPage hs.1))
    · exact hs.congr (hwalk _ hs.1 (hL.heapPage hs.1)).symm
  refine ⟨held', hO', hL.range, fun v f hs => hkept (hL.pages v f (hshows.mp hs)),
    fun u v f hu hv => hL.apart u v f (hshows.mp hu) (hshows.mp hv), fun q hq => ?_⟩
  obtain ⟨hs, hu⟩ := hL.direct q hq
  exact ⟨hshows.mpr hs, fun hu' => hu (htables _ (hL.pages _ _ hs).1 hu')⟩

end Other

/-! ### Whole runs -/

/-- The invariant of a run. -/
structure DirectHeap.Settled (c : DirectHeap) : Prop where
  bounds : InBounds c.heap
  linked : ∃ held, FrameHolders.Ok ⟨c.heap, c.others⟩ held ∧
    c.heap.env.Linked c.mapped c.direct held c.others

section Runs

variable {h h' h₀ : Heap Machine} {c c' : DirectHeap} {e : DirectCall} {increment r : Nat}

theorem BootedHeap.in_hand {kernelEnd : Nat} {mbd : Multiboot} (hb : BootedHeap kernelEnd mbd h₀)
    (hfirst : FirstHeapTaken kernelEnd mbd h₀) {f : Nat}
    (hlo : h₀.heapStart / 4096 ≤ f + 786432) (hlt : f < 1024) : f * 4096 ∈ h₀.env.inHand := by
  have hstart := hb.inBounds.1.kernel
  obtain ⟨-, magic, mem, s, t, ram, m, hdir, hinit⟩ := hb
  obtain ⟨d, c, hd⟩ := pmmDirectoryInit_spec hdir
  have henv := heapInit_env hinit
  obtain ⟨bitmap, hbm, hI⟩ := hd.owned
  have hdiv : f * 4096 / 4096 = f := Nat.mul_div_cancel _ (by decide)
  -- a free frame there is the directory or the first table
  have hfree : bitmap.testBit f = false → Taken s.bitmap bitmap (f * 4096) ∧
      ∀ k ∈ s.unissued, s.preFrames k ≠ f * 4096 := by
    intro hf
    have hu := hfirst bitmap hbm f hlo hlt hf
    rw [henv] at hu
    have hheld := (Machine.start_ok hd ram).inUse f hu
    exact ⟨hI.owned.heldTaken _ hheld, fun k hk he =>
      (hI.owned.waiting k hk (by omega)).2 (by rw [he]; exact hheld)⟩
  rw [henv]
  rw [Machine.inHand, Set.mem_ofPred_eq, hdiv]
  refine ⟨Nat.mul_mod_left _ _, by omega, by omega, ?_, fun k hk he => ?_⟩
  · show s.bitmap.testBit f = true
    by_cases hf : bitmap.testBit f = false
    · have := (hfree hf).1.set
      rwa [hdiv] at this
    · exact hI.owned.reserved f (by simpa using hf)
  · have he : s.preFrames k = f * 4096 := he
    have hf := (hI.owned.waiting k hk (by omega)).1.notReserved
    rw [he, hdiv] at hf
    exact (hfree hf).2 k hk he

theorem BootedHeap.settled {kernelEnd : Nat} {mbd : Multiboot} (hb : BootedHeap kernelEnd mbd h₀)
    (hfirst : FirstHeapTaken kernelEnd mbd h₀) : (DirectHeap.start h₀).Settled := by
  obtain ⟨⟨hbounds, -, held, hO⟩, hwalk⟩ := hb.backed
  have hlo := hbounds.kernel
  have hpage := hbounds.page
  have hshared : h₀.env.tables.SharedTable := by
    obtain ⟨-, magic, mem, s, t, ram, m, hdir, hinit⟩ := hb
    rw [heapInit_env hinit]
    exact pmmDirectoryInit_shared hdir
  have hframe : ∀ v f, h₀.env.Shows (firstMapped h₀) v f →
      h₀.heapStart / 4096 ≤ v / 4096 ∧ v / 4096 < 787456 ∧ f + 786432 = v / 4096 := by
    rintro v f ⟨⟨hge, hlt⟩, tr, hw, rfl⟩
    rw [hwalk v (by omega) (by omega)] at hw
    obtain rfl := Option.some.inj hw
    refine ⟨hge, hlt, ?_⟩
    rw [frameOf, Fin.val_ofNat]
    omega
  refine ⟨hbounds, h₀.env.inHand, ⟨hO.inHand, Set.empty_subset _, fun f hf => hf.elim, hshared⟩,
    fun q hq => ⟨?_, ?_⟩, fun v f hs => ⟨?_, Set.notMem_empty _⟩, fun u v f hu hv => ?_,
    fun q hq => ?_⟩
  · have hge := hq.1
    omega
  · have hlt := hq.2
    omega
  · obtain ⟨hge, hlt, hf⟩ := hframe v f hs
    exact hb.in_hand hfirst (by omega) (by omega)
  · exact (hframe u f hu).2.2.symm.trans (hframe v f hv).2.2
  · obtain ⟨⟨hge, hlt⟩, hu⟩ := hq
    refine ⟨⟨?_, _, hwalk (q * 4096) (by omega) (by omega), ?_⟩, hu⟩
    · rw [Nat.mul_div_cancel _ (by decide)]
      exact ⟨hge, hlt⟩
    · rw [frameOf, Fin.val_ofNat]
      omega

theorem sbrkDraws_iff {q p : Nat} (hpos : increment < 2147483648)
    (hwin : h.programBreakPoint + increment ≤ 4290772992) : SbrkDraws h increment q p ↔
      Drawn (pageRoundUp (h.programBreakPoint + increment)) (pageRoundUp h.programBreakPoint) h.env
        (q * 4096) p := by
  rw [SbrkDraws, u32_of_lt (by omega), and_iff_right hpos]

theorem InBounds.sbrkUnmaps_iff {q : Nat} (hB : InBounds h) (hneg : 2147483648 ≤ increment)
    (hw : increment < 4294967296) : SbrkUnmaps h increment q ↔
      h.heapStart + (4294967296 - increment) ≤ h.programBreakPoint ∧
        h.programBreakPoint / 4096 - (4294967296 - increment) / 4096 ≤ q ∧
        q < h.programBreakPoint / 4096 := by
  obtain ⟨hlo, hpage, hle, hwin⟩ := hB
  have hhi : h.programBreakPoint ≤ 4290772992 := hwin
  rw [SbrkUnmaps, sub32_of_le (by omega) (by omega)]
  omega

theorem directAfter_grow {direct : Set Nat} (hpos : increment < 2147483648)
    (hend : h.programBreakPoint + increment ≤ 4290772992) : directAfter h increment direct = {q |
      Drawn (pageRoundUp (h.programBreakPoint + increment)) (pageRoundUp h.programBreakPoint)
        h.env (q * 4096) (v2p (q * 4096)) ∨
      q ∈ direct ∧ ∀ p, ¬ Drawn (pageRoundUp (h.programBreakPoint + increment))
        (pageRoundUp h.programBreakPoint) h.env (q * 4096) p} := by
  ext q
  have hno : ¬ SbrkUnmaps h increment q := fun hu => absurd hu.1 (by omega)
  simp only [directAfter, Set.mem_ofPred_eq, sbrkDraws_iff hpos hend, hno, not_false_eq_true,
    and_true]

theorem directAfter_shrink {direct : Set Nat} (hneg : 2147483648 ≤ increment) :
    directAfter h increment direct = {q | q ∈ direct ∧ ¬ SbrkUnmaps h increment q} := by
  ext q
  have hno : ∀ p, ¬ SbrkDraws h increment q p := fun p hd => absurd hd.1 (by omega)
  simp only [directAfter, Set.mem_ofPred_eq, hno, not_false_eq_true, implies_true, true_and, false_or]

theorem mappedAfter_grow {mapped : Set Nat} (hpos : increment < 2147483648)
    (hend : h.programBreakPoint + increment ≤ 4290772992) : mappedAfter h increment mapped = {q |
      (∃ p, Drawn (pageRoundUp (h.programBreakPoint + increment)) (pageRoundUp h.programBreakPoint)
        h.env (q * 4096) p) ∨ q ∈ mapped} := by
  ext q
  have hno : ¬ SbrkUnmaps h increment q := fun hu => absurd hu.1 (by omega)
  simp only [mappedAfter, Set.mem_ofPred_eq, sbrkDraws_iff hpos hend, hno, not_false_eq_true,
    and_true]

theorem mappedAfter_shrink {mapped : Set Nat} (hneg : 2147483648 ≤ increment) :
    mappedAfter h increment mapped = {q | q ∈ mapped ∧ ¬ SbrkUnmaps h increment q} := by
  ext q
  have hno : ∀ p, ¬ SbrkDraws h increment q p := fun p hd => absurd hd.1 (by omega)
  simp only [mappedAfter, Set.mem_ofPred_eq, hno, exists_false, false_or]

theorem InBounds.moved (hB : InBounds h) (hst : h'.heapStart = h.heapStart)
    (hle : h.heapStart ≤ h'.programBreakPoint) (hwin : h'.programBreakPoint ≤ ptBaseVaddr) :
    InBounds h' :=
  ⟨hst ▸ hB.kernel, hst ▸ hB.page, hst ▸ hle, hwin⟩

/-- The heap after a growth. -/
theorem DirectHeap.Settled.grow (hS : c.Settled) (hs : SbrkStep c.heap ⟨increment, r⟩ h')
    (hpos : increment < 2147483648) (hwindow : c.heap.programBreakPoint + increment ≤ ptBaseVaddr) :
    Settled ⟨h', mappedAfter c.heap increment c.mapped, directAfter c.heap increment c.direct,
      c.others⟩ := by
  obtain ⟨hB, held, hO, hL⟩ := hS
  obtain ⟨-, hcall⟩ := hs
  have hlo := hB.kernel
  have hpage := hB.page
  have hle := hB.start
  have hhi : c.heap.programBreakPoint ≤ 4290772992 := hB.window
  have hend : c.heap.programBreakPoint + increment ≤ 4290772992 := hwindow
  obtain ⟨hcal, hcle, -, -⟩ := pageRoundUp_bounds hhi
  obtain ⟨-, -, -, htop⟩ := pageRoundUp_bounds hend
  obtain ⟨ok, h₁, held', hk, hst, hbrk, hG, hsame⟩ := incrementBrk_drawn hO.machine hO.shared
    (show 3221225472 ≤ c.heap.programBreakPoint by omega) hend
  dsimp only at hst hbrk hG hsame
  have hlinked := hL.grow hO.held hG hcal (by omega) htop
  have hok : ∀ h₂ : Heap Machine, h₂.env = h₁.env → FrameHolders.Ok ⟨h₂, c.others⟩ held' := by
    intro h₂ he
    refine ⟨?_, hO.held.trans hG.kept, fun f hf hu => hO.apart f hf ?_, ?_⟩ <;> dsimp only at *
    · rw [he]
      exact hG.machine
    · rw [he] at hu
      exact hG.tables f (hO.held hf) hu
    · rw [he]
      exact hG.shared
  have hmoved : c.heap.heapStart ≤ h₁.programBreakPoint ∧ h₁.programBreakPoint ≤ 4290772992 := by
    rw [hbrk]
    cases ok
    · exact ⟨hle, hhi⟩
    · exact ⟨Nat.le_trans hle (Nat.le_add_right _ _), hend⟩
  rw [← directAfter_grow hpos hend, ← mappedAfter_grow hpos hend] at hlinked
  by_cases h0 : increment = 0
  · subst h0
    rw [sbrk, if_pos rfl] at hcall
    obtain ⟨-, rfl⟩ := Prod.mk.inj (Option.some.inj hcall)
    have hsame := hsame rfl
    rw [hsame] at hlinked
    exact ⟨hB, held', hok _ hsame.symm, hlinked⟩
  · rw [sbrk, if_neg h0, if_pos hpos, hk] at hcall
    obtain ⟨-, rfl⟩ := Prod.mk.inj (Option.some.inj hcall)
    exact ⟨hB.moved hst hmoved.1 hmoved.2, held', hok _ rfl, hlinked⟩

/-- The heap after a shrink, or after one that was refused. -/
theorem DirectHeap.Settled.shrink (hS : c.Settled) (hs : SbrkStep c.heap ⟨increment, r⟩ h')
    (hneg : 2147483648 ≤ increment) (hunmaps : ∀ q, SbrkUnmaps c.heap increment q → q ∈ c.direct) :
    Settled ⟨h', mappedAfter c.heap increment c.mapped, directAfter c.heap increment c.direct,
      c.others⟩ := by
  obtain ⟨hB, held, hO, hL⟩ := hS
  have hword := hs.word
  have hlo := hB.kernel
  have hpage := hB.page
  have hle := hB.start
  have hhi : c.heap.programBreakPoint ≤ 4290772992 := hB.window
  have hrun := SbrkStep.run ⟨hB, hO.shared.kernel, held, hO.machine⟩ hs
    fun hlt => absurd hlt (by dsimp only; omega)
  dsimp only at hword hrun
  simp only [hB.sbrkUnmaps_iff hneg hword] at hunmaps
  rw [directAfter_shrink hneg, mappedAfter_shrink hneg]
  simp only [hB.sbrkUnmaps_iff hneg hword]
  cases hrun with
  | zero _ => omega
  | grow _ _ _ _ _ _ _ => omega
  | refused _ hno =>
    simp only [Nat.not_le.mpr hno, false_and, not_false_eq_true, and_true, Set.ofPred_mem_eq]
    exact ⟨hB, held, hO, hL⟩
  | shrink _ hroom ht hf hst hbrk =>
    simp only [hroom, true_and] at hunmaps ⊢
    have hdir := fun q h1 h2 => hunmaps q ⟨h1, h2⟩
    refine ⟨hB.moved hst ?_ ?_, _, hO.shrink hL ht hf (by omega) hdir, hL.shrink ht hdir⟩ <;>
      dsimp only <;> rw [hbrk]
    · omega
    · exact (Nat.sub_le _ _).trans hhi

theorem DirectStep.settled (hS : c.Settled) (hs : DirectStep c e c') : c'.Settled := by
  cases hs with
  | @sbrk increment r h' hs hwindow hunmaps =>
    by_cases hpos : increment < 2147483648
    · exact hS.grow hs hpos (hwindow hpos)
    · exact hS.shrink hs (Nat.le_of_not_lt hpos) hunmaps
  | @other call h' others' hs he =>
    obtain ⟨hB, held, hO, hL⟩ := hS
    obtain ⟨hst, hbrk, -⟩ := hs.elsewhere hO he
    exact ⟨hB.moved hst (hB.start.trans_eq hbrk.symm) (hbrk.trans_le hB.window), hs.linked hO hL he⟩
  | write m ram =>
    -- frames and tables are the same
    obtain ⟨hB, held, ⟨⟨hframes, htables, huse⟩, hsub, hap, hS⟩, hL⟩ := hS
    exact ⟨hB.moved rfl hB.start hB.window, held, ⟨⟨hframes, htables, huse⟩, hsub, hap, hS⟩,
      hL.range, hL.pages, hL.apart, hL.direct⟩

theorem DirectHeap.Settled.clearUnmapped (hS : c.Settled) : ClearUnmapped c := by
  obtain ⟨-, held, hO, hL⟩ := hS
  refine ⟨fun f hf hu => hO.machine.not_clear (hO.machine.inUse f hu) hf, ?_⟩
  rintro f hf v tr hv hw he
  exact hO.machine.not_clear (hL.pages v f ⟨hv, tr, hw, he⟩).1 hf

theorem sbrk_unmapRun (hneg : 2147483648 ≤ increment) (hs : sbrk increment h = some (r, h'))
    (hr : r ≠ sbrkFailed) :
    ∃ as, UnmapRun (sub32 h.programBreakPoint (4294967296 - increment)) h as h' := by
  cases sbrk_done hs with
  | zero _ => omega
  | noPages _ _ _ => omega
  | grown _ _ _ _ => omega
  | failed _ _ _ _ => omega
  | refused _ _ => exact absurd rfl hr
  | shrunk _ _ hrun => exact ⟨_, hrun⟩

theorem DirectStep.frees (hS : c.Settled) (hs : DirectStep c (.sbrk increment r) c')
    (hneg : 2147483648 ≤ increment) (hr : r ≠ sbrkFailed) :
    ∃ as, UnmapRun (sub32 c.heap.programBreakPoint (4294967296 - increment)) c.heap as c'.heap ∧
      freedFrames as = backingFrames c.heap as := by
  obtain ⟨hB, held, hO, hL⟩ := hS
  cases hs with
  | sbrk hs _ hunmaps =>
    have hlo := hB.kernel
    have hhi : c.heap.programBreakPoint ≤ 4290772992 := hB.window
    have hword := hs.word
    obtain ⟨as, hloop⟩ := sbrk_unmapRun hneg hs.call hr
    obtain ⟨hst, hcases⟩ := sbrk_break_cases (by omega) hB.start hB.window hs.word hs.call
    dsimp only at hword hcases
    have hroom : c.heap.heapStart + (4294967296 - increment) ≤ c.heap.programBreakPoint := by
      rcases hcases with ⟨hr', -⟩ | ⟨-, hpos, -⟩ | ⟨-, -, hroom, -⟩
      · exact absurd hr' hr
      · omega
      · exact hroom
    refine ⟨as, hloop, freedFrames_eq fun a ha => ?_⟩
    rw [sub32_of_le (by omega) (by omega)] at hloop
    obtain ⟨h1, h2, h3, h4⟩ := hloop.pages (by omega) (by omega) (by omega) ha
    have hq := hunmaps (a / 4096) ((hB.sbrkUnmaps_iff hneg hword).mpr ⟨hroom, by omega, h4⟩)
    obtain ⟨⟨-, tr, hw, hf⟩, -⟩ := hL.direct _ hq
    refine ⟨tr, ?_, ?_⟩
    · rw [Tables.walk_page (show a / 4096 = a / 4096 * 4096 / 4096 by omega)]
      exact hw
    · simp only [v2p, sub32, u32, kernelVirtOffset]
      omega

/-- **A shrink frees the frames of its pages**, and no clear frame is mapped by the heap or
holds a table, in every state of every run whose shrinks unmap direct pages only, whatever
other code does elsewhere. -/
theorem shrink_frees_backing {kernelEnd : Nat} {mbd : Multiboot} {es : List DirectCall}
    (hb : BootedHeap kernelEnd mbd h₀) (hfirst : FirstHeapTaken kernelEnd mbd h₀)
    (hrun : Trace DirectStep (.start h₀) es c) :
    ClearUnmapped c ∧ ∀ increment r c', DirectStep c (.sbrk increment r) c' →
      2147483648 ≤ increment → r ≠ sbrkFailed →
      ∃ as, UnmapRun (sub32 c.heap.programBreakPoint (4294967296 - increment)) c.heap as c'.heap ∧
        freedFrames as = backingFrames c.heap as := by
  have hS : c.Settled := hrun.invariant (hb.settled hfirst) fun _ _ _ hS hs => hs.settled hS
  exact ⟨hS.clearUnmapped, fun _ _ _ hs => hs.frees hS⟩

/-- Two free frames at 2 MiB, and 21 from 4 MiB on. -/
def splitMap : List MmapEntry := [⟨20, 0x200000, 0, 0x2000, 0, 1⟩, ⟨20, 0x400000, 0, 0x15000, 0, 1⟩]

theorem splitMap_free {bitmap : Bitmap} {f : Nat}
    (hinit : pmmFramesInit 0xC0120000 (mmapMachine splitMap) = some bitmap) (hlt : f < 1024)
    (hf : bitmap.testBit f = false) : f = 512 ∨ f = 513 := by
  have hmap : IsMmap (mmapMachine splitMap).mem
      ((mmapMachine splitMap).mmapAddr + (mmapMachine splitMap).mmapLength)
      (mmapMachine splitMap).mmapAddr splitMap := by
    refine isMmap_layMmap splitMap 0x1000 ?_ (by decide)
    simp only [splitMap, List.forall_mem_cons, List.not_mem_nil, false_imp_iff, implies_true,
      and_true]
    exact ⟨⟨⟨by decide, by decide, by decide, by decide, by decide, by decide⟩, by decide⟩,
      ⟨by decide, by decide, by decide, by decide, by decide, by decide⟩, by decide⟩
  obtain ⟨bitmap', hinit', hbits⟩ := pmmFramesInitAt_spec kernelStart 0xC0120000 (by decide) hmap
  have hsame := pmmFramesInitAt_kernelStart 0xC0120000 (mmapMachine splitMap)
  rw [hinit', hinit] at hsame
  obtain rfl := Option.some.inj hsame
  obtain ⟨⟨e, he, -, hoffers⟩, -⟩ := (hbits f (by omega)).mp hf
  simp only [splitMap, List.mem_cons, List.not_mem_nil, or_false] at he
  rcases he with rfl | rfl
  · have hstart : MmapEntry.start ⟨20, 0x200000, 0, 0x2000, 0, 1⟩ = 0x200000 := by decide
    have hstop : MmapEntry.stop ⟨20, 0x200000, 0, 0x2000, 0, 1⟩ = 0x202000 := by decide
    rw [MmapEntry.Offers, hstart, hstop] at hoffers
    omega
  · have hstart : MmapEntry.start ⟨20, 0x400000, 0, 0x15000, 0, 1⟩ = 0x400000 := by decide
    rw [MmapEntry.Offers, hstart] at hoffers
    omega

theorem splitMap_taken (hb : BootedHeap 0xC0120000 (mmapMachine splitMap) h₀) :
    FirstHeapTaken 0xC0120000 (mmapMachine splitMap) h₀ := by
  obtain ⟨-, magic, mem, s, t, ram, m, hdir, hinit⟩ := hb
  obtain ⟨d, c, hd⟩ := pmmDirectoryInit_spec hdir
  obtain ⟨bitmap, hbm, hI⟩ := hd.owned
  have hfree : ∀ f < 1023, f * 4096 ∈ ({c * 4096, d * 4096} : Set Nat) → f = 512 ∨ f = 513 := by
    intro f hlt hf
    have hbit := (hI.owned.heldTaken _ hf).notReserved
    rw [Nat.mul_div_cancel _ (by decide)] at hbit
    exact splitMap_free hbm (by omega) hbit
  have hc := hfree c hd.e_lt (.inl rfl)
  have hd' := hfree d hd.d_lt (.inr rfl)
  have hne := hd.ne
  intro bitmap' hbm' f _ hlt hf
  obtain rfl := Option.some.inj (hbm.symm.trans hbm')
  have hf := splitMap_free hbm hlt hf
  rw [heapInit_env hinit]
  obtain ⟨hp, hfirst⟩ := hd.first 0 (.inl rfl)
  by_cases hfd : f = d
  · exact .inl (hfd.trans hd.cr3.symm)
  · exact .inr ⟨0, by decide, hp, hfirst.trans (by omega)⟩

theorem splitMap_init : (pmmDirectoryInit multibootBootloaderMagic 0xC0120000 (mmapMachine splitMap)
    (fun _ => .zero)).any (fun x => (pmmAllocPage x.1).1 == 0x400000 &&
      (pmmAllocPage (pmmAllocPage x.1).2).1 != 0) = true := by decide +kernel

/-- `sbrk(4096)` maps the page at 4 MiB to the frame at 4 MiB. -/
theorem exists_directGrown : ∃ h₀ c, BootedHeap 0xC0120000 (mmapMachine splitMap) h₀ ∧
    DirectStep (.start h₀) (.sbrk 4096 0xC0400000) c ∧ c.heap.heapStart = 0xC0120000 ∧
    c.heap.programBreakPoint = 0xC0401000 ∧ 0xC0400 ∈ c.direct := by
  obtain ⟨⟨s, t⟩, hdir, hpages⟩ := (Option.any_eq_true _ _).mp splitMap_init
  simp only [Bool.and_eq_true, beq_iff_eq, bne_iff_ne] at hpages
  obtain ⟨hfirst, hsecond⟩ := hpages
  obtain ⟨h₀, hh⟩ : ∃ h₀, heapInit 0xC0120000 (fun _ => 0) (Machine.start s t fun _ => 0)
      = some h₀ := ⟨_, rfl⟩
  obtain ⟨hstart, hbrk, -⟩ := heapInit_spec hh
  have henv := heapInit_env hh
  have hboot : BootedHeap 0xC0120000 (mmapMachine splitMap) h₀ :=
    ⟨by decide, _, _, s, t, _, _, hdir, hh⟩
  obtain ⟨-, held, hO, -⟩ := hboot.settled (splitMap_taken hboot)
  have hpage : h₀.env.pmmAllocPage.1 = 0x400000 := by
    rw [henv]
    exact hfirst
  have htable : h₀.env.pmmAllocPage.2.pmmAllocPage.1 ≠ 0 := by
    rw [henv]
    exact hsecond
  have hbrk : h₀.programBreakPoint = 0xC0400000 := hbrk
  obtain ⟨ok, h₁, held', hk, hst, hbrk₁, hG, -⟩ := incrementBrk_drawn (n := 4096) hO.machine hO.shared
    (hbrk.symm ▸ by decide) (hbrk.symm ▸ by decide)
  dsimp only [DirectHeap.start] at hk hst hbrk₁ hG
  have hcur : pageRoundUp h₀.programBreakPoint = 0xC0400000 := by
    rw [hbrk]
    decide
  have htop : pageRoundUp (h₀.programBreakPoint + 4096) = 0xC0400000 + 4096 := by
    rw [hbrk]
    decide
  rw [hcur, htop] at hG
  have hok : ok = true := by
    by_contra hno
    exact not_allocFails_page (by rw [hpage]; decide) htable (hG.fails (by simpa using hno))
  subst hok
  rw [if_pos rfl, hbrk] at hk hbrk₁
  refine ⟨h₀, _, hboot, .sbrk ⟨by decide, hk⟩ (fun _ => ?_) fun q hq => absurd hq.1 (by decide),
    hst.trans hstart, hbrk₁, .inl ⟨by decide, ?_⟩⟩ <;> dsimp only [DirectHeap.start]
  · rw [hbrk]
    decide
  · obtain ⟨p, hd⟩ := hG.all rfl 0xC0400000 (by decide) (by decide)
    rw [show 0xC0400000 / 4096 * 4096 = 0xC0400000 from rfl] at hd
    rw [u32_of_lt (by rw [hbrk]; decide), hcur, htop,
      show v2p (0xC0400 * 4096) = h₀.env.pmmAllocPage.1 by rw [hpage]; decide]
    cases hd with
    | here hlt h0 hm => exact .here hlt h0 hm
    | later _ _ _ hd => exact absurd hd.lt (by decide)

/-- `sbrk(4096)`, a `pmm_alloc_page` by other code, and `sbrk(-4096)`. -/
theorem shrink_frees_backing_page : ∃ h₀ r c c' as,
    BootedHeap 0xC0120000 (mmapMachine splitMap) h₀ ∧
    Trace DirectStep (.start h₀) [.sbrk 4096 0xC0400000, .other (.pmmAllocPage r)] c ∧
    DirectStep c (.sbrk 0xFFFFF000 0xC0401000) c' ∧ ClearUnmapped c' ∧
    UnmapRun (sub32 c.heap.programBreakPoint 4096) c.heap as c'.heap ∧
    freedFrames as = backingFrames c.heap as := by
  obtain ⟨h₀, c, hboot, hgrow, hs, hbrk, hdirect⟩ := exists_directGrown
  have hfirst := splitMap_taken hboot
  obtain ⟨⟨r, e⟩, halloc⟩ : ∃ x, c.heap.env.pmmAllocPage = x := ⟨_, rfl⟩
  have hother : DirectStep c (.other (.pmmAllocPage r))
      ⟨{ c.heap with env := e }, c.mapped, c.direct, heldAfter c.others r⟩ :=
    .other (.pmmAllocPage halloc) trivial
  obtain ⟨hB, held, hO, -⟩ := hother.settled (hgrow.settled (hboot.settled hfirst))
  obtain ⟨h₂, hshrink, -⟩ := Backed.exists_shrink ⟨hB, hO.shared.kernel, held, hO.machine⟩
    (show 2147483648 ≤ 0xFFFFF000 by decide) (by decide) (by dsimp only; rw [hs, hbrk]; decide)
  have hcall := hshrink.call.trans (congrArg (fun b => some (b, h₂)) hbrk)
  obtain ⟨c', hstep⟩ : ∃ c', DirectStep ⟨{ c.heap with env := e }, c.mapped, c.direct,
      heldAfter c.others r⟩ (.sbrk 0xFFFFF000 0xC0401000) c' := by
    refine ⟨_, .sbrk ⟨by decide, hcall⟩ (fun h => absurd h (by decide)) fun q hq => ?_⟩
    obtain ⟨-, -, h1, h2⟩ := hq
    dsimp only at h1 h2 ⊢
    rw [hbrk] at h1 h2
    rw [show q = 0xC0400 by omega]
    exact hdirect
  have hrun := (Trace.single hgrow).snoc hother
  obtain ⟨as, hloop, hfreed⟩ := (shrink_frees_backing hboot hfirst hrun).2 _ _ _ hstep (by decide)
    (by decide)
  exact ⟨h₀, r, _, c', as, hboot, hrun, hstep,
    (shrink_frees_backing hboot hfirst (.snoc hrun hstep)).1, hloop, hfreed⟩

/-- `sbrk(4096)`, then `sbrk(-4096)`: the page was mapped to a frame at 2 MiB, and
the frame at 4 MiB is freed. -/
theorem shrink_frees_other : ∃ h₀ h₁ h₂ as, BootedHeap 0xC0120000 (entryMap 64) h₀ ∧
    SbrkStep h₀ ⟨4096, 0xC0400000⟩ h₁ ∧ SbrkStep h₁ ⟨0xFFFFF000, 0xC0401000⟩ h₂ ∧
    UnmapRun (sub32 h₁.programBreakPoint 4096) h₁ as h₂ ∧
    freedFrames as ≠ backingFrames h₁ as := by
  obtain ⟨h₀, h₁, hboot, hgrow, hs, hbrk, hb, f, hlo, hhi, hwalk⟩ :=
    exists_grown (show 0 < 4096 by decide) (by decide)
  obtain ⟨h₂, hshrink, -⟩ := hb.exists_shrink (show 2147483648 ≤ 0xFFFFF000 by decide) (by decide)
    (by rw [hs, hbrk]; decide)
  obtain ⟨as, hloop⟩ := sbrk_unmapRun (show 2147483648 ≤ 0xFFFFF000 by decide) hshrink.call
    hshrink.granted
  rw [show (4294967296 - 0xFFFFF000 : Nat) = 4096 by decide] at hloop
  have hnew : sub32 h₁.programBreakPoint 4096 = 0xC0400000 := by
    rw [hbrk]
    decide
  rw [hbrk] at hshrink
  refine ⟨h₀, h₁, h₂, as, hboot, hgrow.toSbrkStep, hshrink.toSbrkStep, hloop, fun heq => ?_⟩
  have hmem : 1024 ∈ freedFrames as := by
    rw [hnew] at hloop
    cases hloop with
    | done hno => exact absurd (le_of_eq hnew.symm) hno
    | page _ _ _ =>
      refine ⟨_, List.mem_cons_self, ?_⟩
      rw [show pageSize = 4096 from rfl, hnew]
      decide
  rw [heq] at hmem
  obtain ⟨a, ha, tr, hw, hf⟩ := hmem
  have hpage : a / 4096 = 786432 + 1024 := by
    rw [hnew] at hloop
    obtain ⟨h1, h2, -, -⟩ := hloop.pages (by decide) (by rw [hbrk]; decide) (by rw [hbrk]; decide) ha
    rw [hbrk] at h2
    omega
  rw [Tables.walk_page (show a / 4096 = 0xC0400000 / 4096 by omega), hwalk] at hw
  obtain rfl := Option.some.inj hw
  rw [frameOf_mul (by omega)] at hf
  omega

end Runs

end ChoOS
