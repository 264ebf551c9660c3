import Mathlib.Data.Finset.Sort
import ChoOS.Paging.Account
import ChoOS.Paging.MemoryMap

/-!
# How many frames there are

`pmm_alloc_frame_int` takes the lowest clear frame, and `pmm_alloc_page` takes
twenty of them at a time.  So without a `pmm_free_page` in between the results are
known: the clear frames in ascending order, in whole batches, and `NULL` from then
on (`pages_results`).  `total_free_memory` is four KiB for each clear frame, and
`page_capacity` counts the pages that it stands for.

A call that fails takes the last clear frames with it.  `page_famine` is what
comes of that: the next call that does not fail has twenty `pmm_free_page`s
before it.
-/

namespace ChoOS

/-- The results of `k` calls of `pmm_alloc_page`. -/
def allocPages : Nat → Frames → List Nat
  | 0, _ => []
  | k + 1, s =>
    let (r, s) := pmmAllocPage s
    r :: allocPages k s

/-- The clear frames in ascending order. -/
structure Frames.Lists (s : Frames) (l : List Nat) : Prop where
  sorted : l.Pairwise (· < ·)
  mem : ∀ f, f ∈ l ↔ f ∈ s.clear

variable {s s' : Frames} {l b : List Nat} {n i k f : Nat} {ok : Bool}

theorem Frames.lists_sort (s : Frames) : s.Lists (s.clear.sort (· ≤ ·)) :=
  ⟨s.clear.sortedLT_sort.pairwise, fun _ => Finset.mem_sort _⟩

theorem Frames.Lists.length (h : s.Lists l) : l.length = s.clear.card := by
  have hnodup : l.Nodup := h.sorted.imp fun hlt => Nat.ne_of_lt hlt
  have hset : l.toFinset = s.clear := by
    ext f
    rw [List.mem_toFinset, h.mem]
  rw [← hset, List.toFinset_card_of_nodup hnodup]

/-! ### One frame -/

theorem clearBitOfWord_lowest {bitmap : Bitmap} {w r g : Nat}
    (h : clearBitOfWord bitmap w = some r) (hg : g / 32 = w) (hlt : g < r) :
    bitmap.testBit g = true := by
  rw [clearBitOfWord] at h
  split at h
  · obtain ⟨j, -, hj, hr, hfirst⟩ := firstSome_first h
    split at hr
    · simp at hr
    · obtain rfl := Option.some.inj hr
      have hnone := hfirst (g % 32) (Nat.zero_le _) (by omega)
      have haddr : w * 32 + g % 32 = g := by omega
      rw [haddr] at hnone
      by_contra hb
      simp [hb] at hnone
  · simp at h

/-- **`pmm_alloc_frame_int`** takes the lowest clear frame. -/
theorem pmmAllocFrameInt_lists (h : s.Lists (f :: l)) :
    pmmAllocFrameInt s = (f * 4096, { s with bitmap := s.bitmap.setBit f }) := by
  obtain ⟨hlt, hb⟩ := Frames.mem_clear.mp ((h.mem f).mp List.mem_cons_self)
  have hword : f / 32 * 32 + f % 32 = f := by omega
  -- a word without a result has no clear bit
  have hset : clearBitOfWord s.bitmap (f / 32) ≠ none := by
    intro hnone
    have := clearBitOfWord_none hnone (Nat.mod_lt f (by decide))
    rw [hword, hb] at this
    exact absurd this (by decide)
  have hfirst : firstSome (clearBitOfWord s.bitmap) bitmapSize 0 = some f := by
    cases hsome : firstSome (clearBitOfWord s.bitmap) bitmapSize 0 with
    | none =>
      exact absurd (firstSome_none hsome (Nat.zero_le _) (by rw [bitmapSize]; omega)) hset
    | some g =>
      obtain ⟨w, -, hw, hg, hbefore⟩ := firstSome_first hsome
      obtain ⟨hdiv, hgb⟩ := clearBitOfWord_some hg
      have hw : w < 0 + 32768 := hw
      have hmem : g ∈ f :: l := (h.mem g).mpr (Frames.mem_clear.mpr ⟨by omega, hgb⟩)
      rcases List.mem_cons.mp hmem with rfl | hmem
      · rfl
      · have hfg := (List.pairwise_cons.mp h.sorted).1 g hmem
        rcases Nat.lt_or_ge (f / 32) w with hlow | hge
        · exact absurd (hbefore _ (Nat.zero_le _) hlow) hset
        · have := clearBitOfWord_lowest hg (by omega) hfg
          rw [hb] at this
          exact absurd this (by decide)
  have hu : u32 (f * pageSize) = f * 4096 := u32_of_lt (by rw [pageSize]; omega)
  simp only [pmmAllocFrameInt, hfirst, hu]

theorem Frames.Lists.setBit (h : s.Lists (f :: l)) :
    Frames.Lists { s with bitmap := s.bitmap.setBit f } l := by
  obtain ⟨hhead, htail⟩ := List.pairwise_cons.mp h.sorted
  refine ⟨htail, ?_⟩
  intro g
  rw [Frames.clear_setBit, Finset.mem_erase, ← h.mem, List.mem_cons]
  constructor
  · intro hg
    exact ⟨Nat.ne_of_gt (hhead g hg), .inr hg⟩
  · rintro ⟨hne, rfl | hg⟩
    · exact absurd rfl hne
    · exact hg

theorem pmmAllocFrameInt_none (h : s.Lists []) : pmmAllocFrameInt s = (0, s) := by
  rcases pmmAllocFrameInt_clear s with ⟨-, ha⟩ | ⟨f, hf, -⟩
  · exact ha
  · exact absurd ((h.mem f).mpr hf) List.not_mem_nil

/-! ### A batch -/

/-- **The refill loop** fills the batch with the lowest clear frames. -/
theorem refill_lists (h0 : ∀ f ∈ l, f ≠ 0) (h : s.Lists l) : ∀ n i s', refill n i s = (ok, s') →
    (ok = true ↔ n ≤ l.length) ∧ s'.Lists (l.drop n) ∧
      (∀ k < i, s'.preFrames k = s.preFrames k) ∧
      (ok = true → ∀ j f, j < n → l[j]? = some f → s'.preFrames (i + j) = f * 4096) := by
  induction l generalizing s with
  | nil =>
    intro n i s' href
    cases n with
    | zero =>
      obtain ⟨rfl, rfl⟩ := Prod.mk.inj href
      exact ⟨by simp, h, fun _ _ => rfl, fun _ j f hj => by omega⟩
    | succ n =>
      rw [refill, pmmAllocFrameInt_none h] at href
      obtain ⟨rfl, rfl⟩ := Prod.mk.inj href
      exact ⟨by simp, h, fun _ _ => rfl, by simp⟩
  | cons f l ih =>
    intro n i s' href
    cases n with
    | zero =>
      obtain ⟨rfl, rfl⟩ := Prod.mk.inj href
      exact ⟨by simp, h, fun _ _ => rfl, fun _ j f hj => by omega⟩
    | succ n =>
      have hf0 : f * 4096 ≠ 0 := by
        have := h0 f List.mem_cons_self
        omega
      rw [refill, pmmAllocFrameInt_lists h] at href
      dsimp only at href
      rw [if_neg hf0] at href
      obtain ⟨hok, hlists, hkeep, hfill⟩ := ih (fun g hg => h0 g (List.mem_cons_of_mem _ hg))
        (s := { s with
          bitmap := s.bitmap.setBit f
          preFrames := Function.update s.preFrames i (f * 4096) })
        ⟨h.setBit.sorted, h.setBit.mem⟩ n (i + 1) s' href
      refine ⟨by simpa using hok, hlists, ?_, ?_⟩
      · intro k hk
        rw [hkeep k (by omega)]
        exact Function.update_of_ne (by omega) _ _
      · intro ht j g hj hget
        cases j with
        | zero =>
          obtain rfl : f = g := by simpa using hget
          rw [Nat.add_zero, hkeep i (by omega)]
          exact Function.update_self _ _ _
        | succ j =>
          rw [show i + (j + 1) = i + 1 + j by omega]
          exact hfill ht j g (by omega) (by simpa using hget)

/-- The frames of the batch that are still to be issued. -/
def Frames.Issuing (s : Frames) : List Nat → Prop
  | [] => s.Refills
  | f :: b => ¬ s.Refills ∧ s.pframe + (b.length + 1) = 20 ∧
      ∀ j g, (f :: b)[j]? = some g → s.preFrames (s.pframe + j) = g * 4096

theorem Frames.Issuing.of_fields {s₁ : Frames} (hb : ∀ j g, b[j]? = some g →
    s₁.preFrames (s₁.pframe + j) = g * 4096) (hp : s₁.pframe + b.length = 20)
    (ha : s₁.allocate ≠ 1) : s₁.Issuing b := by
  cases b with
  | nil => exact .inl hp
  | cons f b =>
    have hp' : s₁.pframe + (b.length + 1) = 20 := hp
    refine ⟨?_, hp', hb⟩
    rintro (h | h)
    · omega
    · exact ha h

theorem pmmAllocPage_batch (hb : s.Issuing (f :: b)) (hl : s.Lists l) :
    ∃ s', pmmAllocPage s = (f * 4096, s') ∧ s'.Issuing b ∧ s'.Lists l := by
  obtain ⟨hr, hp, hpre⟩ := hb
  have hframe : s.preFrames s.pframe = f * 4096 := hpre 0 f rfl
  have hmod : (s.pframe + 1) % 256 = s.pframe + 1 := Nat.mod_eq_of_lt (by omega)
  refine ⟨{ s with pframe := s.pframe + 1 }, ?_, .of_fields ?_ ?_ ?_, ⟨hl.sorted, hl.mem⟩⟩
  · rw [pmmAllocPage_of_not_refills hr, issue, hframe, hmod]
  · intro j g hj
    rw [show s.pframe + 1 + j = s.pframe + (j + 1) by omega]
    exact hpre (j + 1) g (by simpa using hj)
  · show s.pframe + 1 + b.length = 20
    omega
  · exact fun ha => hr (.inr ha)

theorem pmmAllocPage_refilled (h0 : ∀ f ∈ l, f ≠ 0) (hbit : s.bitmap.testBit 0)
    (hb : s.Issuing []) (hl : s.Lists l) (hlen : 20 ≤ l.length) :
    ∃ f b s', l.take 20 = f :: b ∧ pmmAllocPage s = (f * 4096, s') ∧ s'.Issuing b ∧
      s'.Lists (l.drop 20) := by
  have hcard : 20 ≤ s.clear.card := hl.length ▸ hlen
  rcases pmmAllocPage_cases hbit with ⟨hr, -⟩ | ⟨s₁, -, -, href, ha⟩ | ⟨s₁, -, hlt, -⟩
  · exact absurd hb hr
  · obtain ⟨-, hlists, -, hfill⟩ := refill_lists h0 (s := { s with allocate := 1 })
      ⟨hl.sorted, hl.mem⟩ 20 0 s₁ href
    obtain ⟨f, b, htake⟩ : ∃ f b, l.take 20 = f :: b := by
      cases htake : l.take 20 with
      | nil =>
        have hlen' := congrArg List.length htake
        rw [List.length_take, List.length_nil] at hlen'
        omega
      | cons f b => exact ⟨f, b, rfl⟩
    have hbatch : Frames.Issuing { s₁ with pframe := 0, allocate := 0 } (f :: b) := by
      rw [← htake]
      refine .of_fields ?_ ?_ Nat.zero_ne_one
      · intro j g hj
        rw [List.getElem?_take] at hj
        split at hj
        · exact hfill rfl j g ‹_› hj
        · simp at hj
      · simp [hlen]
    obtain ⟨s', hs', hb', hl'⟩ := pmmAllocPage_batch hbatch (l := l.drop 20)
      ⟨hlists.sorted, hlists.mem⟩
    refine ⟨f, b, s', htake, ?_, hb', hl'⟩
    rw [ha, ← hs', pmmAllocPage_of_not_refills hbatch.1]
  · omega

/-- A refill that fails takes the rest. -/
theorem pmmAllocPage_failed (hbit : s.bitmap.testBit 0) (hb : s.Issuing []) (hl : s.Lists l)
    (hlen : l.length < 20) : ∃ s', pmmAllocPage s = (0, s') ∧ s'.Issuing [] ∧ s'.Lists [] := by
  obtain ⟨s', ha, hr, -, -, hempty⟩ := pmmAllocPage_null hbit hb (hl.length ▸ hlen)
  exact ⟨s', ha, hr, .nil, by simp [hempty]⟩

/-! ### The results of many calls -/

/-- The frames that `pmm_alloc_page` comes to: the batch, and whole batches. -/
def pages (b l : List Nat) : List Nat := b ++ l.take (20 * (l.length / 20))

theorem pages_refill (hlen : 20 ≤ l.length) : pages [] l = l.take 20 ++ pages [] (l.drop 20) := by
  have hdiv : 20 * (l.length / 20) = 20 + 20 * ((l.length - 20) / 20) := by omega
  simp only [pages, List.nil_append, List.length_drop, hdiv, List.take_add]

theorem testBit_of_lists (h0 : ∀ f ∈ l, f ≠ 0) (hl : s.Lists l) : s.bitmap.testBit 0 := by
  by_contra hb
  have hmem : 0 ∈ s.clear := Frames.mem_clear.mpr ⟨by decide, by simpa using hb⟩
  exact h0 0 ((hl.mem 0).mpr hmem) rfl

theorem allocPages_succ {r : Nat} (h : pmmAllocPage s = (r, s')) (k : Nat) :
    allocPages (k + 1) s = r :: allocPages k s' := by
  rw [allocPages, h]

theorem pages_results : ∀ (k : Nat) (s : Frames) (b l : List Nat), s.Issuing b → s.Lists l →
    (∀ f ∈ l, f ≠ 0) → allocPages k s = (List.range k).map fun i => (pages b l).getD i 0 * 4096 := by
  intro k
  induction k with
  | zero =>
    intro s b l _ _ _
    rfl
  | succ k ih =>
    intro s b l hb hl h0
    rw [List.range_succ_eq_map, List.map_cons, List.map_map]
    cases b with
    | cons f b =>
      obtain ⟨s', ha, hb', hl'⟩ := pmmAllocPage_batch hb hl
      rw [allocPages_succ ha, ih s' b l hb' hl' h0]
      rfl
    | nil =>
      have hbit := testBit_of_lists h0 hl
      rcases Nat.lt_or_ge l.length 20 with hlen | hlen
      · obtain ⟨s', ha, hb', hl'⟩ := pmmAllocPage_failed hbit hb hl hlen
        have hnone : pages [] l = [] := by
          simp [pages, Nat.div_eq_of_lt hlen]
        rw [allocPages_succ ha, ih s' [] [] hb' hl' (by simp), hnone]
        rfl
      · obtain ⟨f, b, s', htake, ha, hb', hl'⟩ := pmmAllocPage_refilled h0 hbit hb hl hlen
        have h0' : ∀ f ∈ l.drop 20, f ≠ 0 := fun g hg => h0 g (List.mem_of_mem_drop hg)
        have hpages : pages [] l = f :: pages b (l.drop 20) := by
          rw [pages_refill hlen, htake]
          rfl
        rw [allocPages_succ ha, ih s' b (l.drop 20) hb' hl' h0', hpages]
        rfl

section Boot

variable {kernelEnd : Nat} {mbd : Multiboot} {bitmap : Bitmap} {totalFreeMemory : Nat}

theorem pmmFramesInitAt_total
    (hinit : pmmFramesInitAt kernelStart kernelEnd mbd = some (bitmap, totalFreeMemory)) :
    pmmFramesInit kernelEnd mbd = some bitmap ∧
      totalFreeMemory = (Frames.start bitmap).clear.card * 4096 := by
  refine ⟨?_, ?_⟩
  · rw [← pmmFramesInitAt_kernelStart, hinit]
    rfl
  · obtain ⟨b, -, hb⟩ := Option.bind_eq_some_iff.mp hinit
    obtain ⟨rfl, rfl⟩ := Prod.mk.inj (Option.some.inj hb)
    rw [freePageCount_eq, Frames.clear, Frames.start_bitmap, pageSize]

/-- No frame of the first MiB is ever clear. -/
theorem clear_start_ne_zero (hinit : pmmFramesInit kernelEnd mbd = some bitmap) :
    ∀ f ∈ (Frames.start bitmap).clear.sort (· ≤ ·), f ≠ 0 := by
  rintro f hf rfl
  have hb := (Frames.mem_clear.mp ((Finset.mem_sort _).mp hf)).2
  rw [Frames.start_bitmap, pmmFramesInit_protected hinit (.inl (by decide))] at hb
  exact absurd hb (by decide)

/-- **What `total_free_memory` stands for.**  The calls of `pmm_alloc_page` after
`pmm_frames_init` return the clear frames in ascending order, as many whole
batches as there are in `total_free_memory`, and then `NULL`. -/
theorem page_capacity
    (hinit : pmmFramesInitAt kernelStart kernelEnd mbd = some (bitmap, totalFreeMemory)) (k : Nat) :
    let free := ((Frames.start bitmap).clear.sort (· ≤ ·)).take (20 * (totalFreeMemory / 81920))
    allocPages k (Frames.start bitmap) = (List.range k).map (fun i => free.getD i 0 * 4096) ∧
      ∀ i r, (allocPages k (Frames.start bitmap))[i]? = some r →
        (r ≠ 0 ↔ i < 20 * (totalFreeMemory / 81920)) := by
  intro free
  obtain ⟨hinit, htotal⟩ := pmmFramesInitAt_total hinit
  have h0 := clear_start_ne_zero hinit
  have hl := (Frames.start bitmap).lists_sort
  have hdiv : totalFreeMemory / 81920 = ((Frames.start bitmap).clear.sort (· ≤ ·)).length / 20 := by
    rw [hl.length]
    omega
  have hres := pages_results k (Frames.start bitmap) [] _ (refills_start bitmap) hl h0
  have hpages : pages [] ((Frames.start bitmap).clear.sort (· ≤ ·)) = free := by
    rw [pages, List.nil_append, ← hdiv]
  rw [hpages] at hres
  refine ⟨hres, ?_⟩
  intro i r hr
  have hlen : free.length = 20 * (totalFreeMemory / 81920) := by
    rw [List.length_take]
    omega
  rw [hres, List.getElem?_map, Option.map_eq_some_iff] at hr
  obtain ⟨j, hj, rfl⟩ := hr
  obtain ⟨hik, rfl⟩ : i < k ∧ i = j := by
    obtain ⟨hlt, hget⟩ := List.getElem?_eq_some_iff.mp hj
    simp only [List.length_range, List.getElem_range] at hlt hget
    exact ⟨hlt, hget⟩
  rw [← hlen]
  constructor
  · intro hne
    by_contra hge
    rw [List.getD_eq_getElem?_getD, List.getElem?_eq_none (by omega)] at hne
    exact hne rfl
  · intro hlt
    rw [List.getD_eq_getElem?_getD, List.getElem?_eq_getElem hlt, Option.getD_some]
    have hmem : free[i] ∈ free := List.getElem_mem hlt
    have := h0 _ (List.mem_of_mem_take hmem)
    omega

end Boot

/-- Of 41 frames forty are handed out. -/
theorem page_capacity_entryMap : ∃ bitmap totalFreeMemory,
    pmmFramesInitAt kernelStart 0xC0120000 (entryMap 41) = some (bitmap, totalFreeMemory) ∧
    (∃ r, (allocPages 41 (Frames.start bitmap))[39]? = some r ∧ r ≠ 0) ∧
    (allocPages 41 (Frames.start bitmap))[40]? = some 0 := by
  have hfst := pmmFramesInitAt_kernelStart 0xC0120000 (entryMap 41)
  rw [pmmFramesInit_entryMap (by decide), Option.map_eq_some_iff] at hfst
  obtain ⟨⟨bitmap, total⟩, hinit, rfl⟩ := hfst
  have htotal := (pmmFramesInitAt_total hinit).2
  have hcard : (Frames.start (entryBitmap 41)).clear.card = 41 := by
    rw [clear_entryMap (by decide), Nat.card_Ico]
  obtain ⟨hres, hnull⟩ := page_capacity hinit 41
  have hdiv : total / 81920 = 2 := by
    rw [htotal]
    show (Frames.start (entryBitmap 41)).clear.card * 4096 / 81920 = 2
    rw [hcard]
  have hget : ∀ i < 41, ∃ r, (allocPages 41 (Frames.start (entryBitmap 41)))[i]? = some r := by
    intro i hi
    have hlen : (allocPages 41 (Frames.start (entryBitmap 41))).length = 41 := by
      rw [hres, List.length_map, List.length_range]
    exact ⟨_, List.getElem?_eq_getElem (by omega)⟩
  obtain ⟨r, hr⟩ := hget 39 (by decide)
  obtain ⟨r', hr'⟩ := hget 40 (by decide)
  have hne := (hnull 39 r hr).mpr (by omega)
  have hzero : r' = 0 := by
    by_contra h
    have := (hnull 40 r' hr').mp h
    omega
  exact ⟨_, total, hinit, ⟨r, hr, hne⟩, hzero ▸ hr'⟩

/-! ### After a call that failed -/

/-- The batch has a frame in every entry that is still to be issued. -/
def Frames.Whole (s : Frames) : Prop := ¬ s.Refills → ∀ k ∈ s.unissued, s.preFrames k ≠ 0

def FrameEvent.isFree : FrameEvent → Bool
  | .pmmFreePage _ => true
  | _ => false

/-- How many frames were given back. -/
def frees (es : List FrameEvent) : Nat := es.countP (·.isFree)

section Famine

variable {c c' : FrameClient} {e : FrameEvent} {es : List FrameEvent} {res : Bitmap}

theorem Frames.Inv.null {held : Set Nat} (h : s.Inv res held) : s.bitmap.testBit 0 :=
  h.owned.reserved 0 h.owned.null

theorem issue_whole (h : s.Whole) (hr : ¬ s.Refills) (hp : s.pframe ≤ 20) :
    (issue s).1 ≠ 0 ∧ (issue s).2.Whole := by
  have hlt : s.pframe < 20 := by
    rcases Nat.lt_or_eq_of_le hp with hlt | he
    · exact hlt
    · exact absurd (.inl he) hr
  have hmod : (s.pframe + 1) % 256 = s.pframe + 1 := Nat.mod_eq_of_lt (by omega)
  refine ⟨h hr _ ⟨Nat.le_refl _, hlt⟩, ?_⟩
  intro hr' k hk
  refine h hr k ⟨?_, hk.2⟩
  have hk1 : (s.pframe + 1) % 256 ≤ k := hk.1
  omega

theorem pmmAllocPage_whole (hI : s.Inv res held) (h : s.Whole) {r : Nat}
    (ha : pmmAllocPage s = (r, s')) :
    s'.Whole ∧ (r = 0 → s'.Refills ∧ s'.clear = ∅) := by
  rcases pmmAllocPage_cases hI.null with ⟨hr, hi⟩ | ⟨s₁, hr, -, href, hi⟩ | ⟨s₁, hr, hc, -, hi⟩
  · obtain ⟨hne, hw⟩ := issue_whole h hr hI.pframe
    rw [hi] at ha
    rw [ha] at hne hw
    exact ⟨hw, fun h0 => absurd h0 hne⟩
  · obtain ⟨-, -, -, -, hfill⟩ := refill_account (s := { s with allocate := 1 }) hI.null href
    have hr₁ : ¬ Frames.Refills { s₁ with pframe := 0, allocate := 0 } := by
      have hstatics : ¬ (0 = 20 ∨ 0 = 1) := by decide
      exact hstatics
    have hw₁ : Frames.Whole { s₁ with pframe := 0, allocate := 0 } :=
      fun _ k hk => (hfill rfl).1 k (Nat.zero_le _) (by have := hk.2; omega)
    obtain ⟨hne, hw⟩ := issue_whole hw₁ hr₁ (Nat.zero_le _)
    rw [hi] at ha
    rw [ha] at hne hw
    exact ⟨hw, fun h0 => absurd h0 hne⟩
  · obtain ⟨s₂, ha', hr', -, -, hempty⟩ := pmmAllocPage_null hI.null hr hc
    obtain ⟨rfl, rfl⟩ := Prod.mk.inj (ha.symm.trans ha')
    exact ⟨fun h => absurd hr' h, fun _ => ⟨hr', hempty⟩⟩

theorem FrameStep.whole (hs : FrameStep c e c') (hI : c.frames.Inv res c.held)
    (h : c.frames.Whole) : c'.frames.Whole := by
  cases hs with
  | pmmAllocPage ha => exact (pmmAllocPage_whole hI h ha).1
  | pmmAllocFrameInt ha =>
    obtain ⟨hs', -⟩ := pmmAllocFrameInt_spec hI.owned ha
    rw [hs']
    exact h
  | pmmFreePage _ => exact h

/-- The batch is empty, and what is clear was given back since. -/
structure Starved (es : List FrameEvent) (c : FrameClient) : Prop where
  refills : c.frames.Refills
  clear : c.frames.clear.card ≤ frees es
  null : ∀ r, .pmmAllocPage r ∈ es → r = 0

theorem frees_concat (es : List FrameEvent) (e : FrameEvent) :
    frees (es ++ [e]) = frees es + if e.isFree then 1 else 0 := by
  simp [frees, List.countP_cons]

theorem Frames.clear_free (s : Frames) (a : Nat) :
    (pmmFreePage a s).clear.card ≤ s.clear.card + 1 := by
  have hsub : (pmmFreePage a s).clear ⊆ insert (a / 4096) s.clear := by
    intro f hf
    obtain ⟨hlt, hb⟩ := mem_clear.mp hf
    rw [Finset.mem_insert]
    by_cases hfa : f = a / 4096
    · exact .inl hfa
    · have hb' : (s.bitmap.clearBit (a / 4096)).testBit f = false := hb
      rw [Bitmap.testBit_clearBit_of_ne (Ne.symm hfa)] at hb'
      exact .inr (mem_clear.mpr ⟨hlt, hb'⟩)
  exact (Finset.card_le_card hsub).trans (Finset.card_insert_le _ _)

/-- **One step of a famine.** -/
theorem FrameStep.starved (hs : FrameStep c e c') (hI : c.frames.Inv res c.held)
    (hS : Starved es c) (hfew : frees es < 20) : Starved (es ++ [e]) c' := by
  obtain ⟨hr, hclear, hnull⟩ := hS
  have hfrees := frees_concat es e
  cases hs with
  | @pmmAllocPage r s' ha =>
    obtain ⟨s₁, ha', hr', -, -, hempty⟩ := pmmAllocPage_null hI.null hr (by omega)
    obtain ⟨rfl, rfl⟩ := Prod.mk.inj (ha.symm.trans ha')
    refine ⟨hr', by simp [hempty], ?_⟩
    intro r hm
    rcases List.mem_append.mp hm with hm | hm
    · exact hnull r hm
    · simpa using hm
  | @pmmAllocFrameInt r s' ha =>
    obtain ⟨hs', -⟩ := pmmAllocFrameInt_spec hI.owned ha
    have hsub : s'.clear.card ≤ c.frames.clear.card := by
      rcases pmmAllocFrameInt_clear c.frames with ⟨-, ha'⟩ | ⟨f, -, ha'⟩
      · obtain ⟨-, rfl⟩ := Prod.mk.inj (ha.symm.trans ha')
        exact le_rfl
      · obtain ⟨-, rfl⟩ := Prod.mk.inj (ha.symm.trans ha')
        rw [Frames.clear_setBit]
        exact Finset.card_erase_le
    refine ⟨?_, by simp [hfrees, FrameEvent.isFree]; omega, by simpa using hnull⟩
    rw [hs']
    exact hr
  | @pmmFreePage a _ =>
    have hcard := Frames.clear_free c.frames a
    have hone : frees (es ++ [.pmmFreePage a]) = frees es + 1 := hfrees
    exact ⟨hr, hone ▸ hcard.trans (Nat.add_le_add_right hclear 1), by simpa using hnull⟩

/-- **A page famine.**  After a call of `pmm_alloc_page` that failed, every call
fails until twenty frames were given back. -/
theorem page_famine {kernelEnd : Nat} {mbd : Multiboot} {bitmap : Bitmap} {c₁ c₂ : FrameClient}
    {es' : List FrameEvent} (hinit : pmmFramesInit kernelEnd mbd = some bitmap)
    (hrun : Trace FrameStep ⟨Frames.start bitmap, ∅⟩ es c)
    (hfail : FrameStep c (.pmmAllocPage 0) c₁) (hrun' : Trace FrameStep c₁ es' c₂)
    (hfew : frees es' < 20) (r : Nat) (hr : .pmmAllocPage r ∈ es') : r = 0 := by
  obtain ⟨hI, hw⟩ : c.frames.Inv bitmap c.held ∧ c.frames.Whole :=
    hrun.invariant (I := fun c => c.frames.Inv bitmap c.held ∧ c.frames.Whole)
      ⟨.start hinit, fun h => absurd (refills_start bitmap) h⟩
      fun _ _ _ hI hs => ⟨(hs.inv hI.1).1, hs.whole hI.1 hI.2⟩
  have hI₁ := (hfail.inv hI).1
  have hS₁ : Starved [] c₁ := by
    cases hfail with
    | pmmAllocPage ha =>
      obtain ⟨hr', hempty⟩ := (pmmAllocPage_whole hI hw ha).2 rfl
      exact ⟨hr', by simp [hempty], by simp⟩
  -- few frames were given back in every part of the run
  have hS : c₂.frames.Inv bitmap c₂.held ∧ (frees es' < 20 → Starved es' c₂) := by
    refine hrun'.history (I := fun es c => c.frames.Inv bitmap c.held ∧
      (frees es < 20 → Starved es c)) ⟨hI₁, fun _ => hS₁⟩ ?_
    rintro es c e c' ⟨hI, hS⟩ hs
    refine ⟨(hs.inv hI).1, ?_⟩
    intro hlt
    have hle : frees es < 20 := by
      have := frees_concat es e
      omega
    exact hs.starved hI (hS hle) hle
  exact (hS.2 hfew).null r hr

/-- Five frames are no batch: the first call fails, and so does the second. -/
theorem page_famine_five : ∃ bitmap c₁ c₂ r,
    pmmFramesInit 0xC0120000 (entryMap 5) = some bitmap ∧
    FrameStep ⟨Frames.start bitmap, ∅⟩ (.pmmAllocPage 0) c₁ ∧
    Trace FrameStep c₁ [.pmmAllocPage r] c₂ ∧ r = 0 := by
  have hinit := pmmFramesInit_entryMap (n := 5) (by decide)
  obtain ⟨s', ha, -⟩ := pmmAllocPage_start_of_few hinit
    (by rw [clear_entryMap (by decide), Nat.card_Ico]; decide)
  have hfail : FrameStep ⟨Frames.start (entryBitmap 5), ∅⟩ (.pmmAllocPage 0) ⟨s', heldAfter ∅ 0⟩ :=
    .pmmAllocPage ha
  have hnext : FrameStep ⟨s', heldAfter ∅ 0⟩ (.pmmAllocPage (pmmAllocPage s').1)
    ⟨(pmmAllocPage s').2, heldAfter (heldAfter ∅ 0) (pmmAllocPage s').1⟩ := .pmmAllocPage rfl
  exact ⟨_, _, _, _, hinit, hfail, .single hnext,
    page_famine hinit .nil hfail (.single hnext) (show 0 < 20 by decide) _ List.mem_cons_self⟩

end Famine

end ChoOS
