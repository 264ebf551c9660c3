import ChoOS.Paging.Account

/-!
# The memory map of the bootloader

`pmm_frames_init` walks over the entries of the memory map, clears the bits of
their pages, sets those of the kernel and of the first MiB again, and counts
what is left.  `IsMmap` is a memory map in the bytes of the machine, with the
entries in a list; `pmmFramesInitAt_spec` says which bits are clear then, for
any map.

An entry is read as 32-bit words: its high length is ignored, `start + length`
wraps, and so does the rounding of `start`.  `MmapEntry.offers_iff` is what the
loop over its pages makes of this.  A range that crosses 4 GiB frees nothing,
but one that starts in the last page of the 4 GiB is rounded up to `0`.

`frame_bitmap_exact` is the bitmap of a map without such ranges.
`frame_bitmap_safe` says for which maps no clear bit is a frame outside of the
available memory: entries of another type never set a bit.
-/

namespace ChoOS

/-! ### The code -/

/-- `free_page_count` of `pmm_frames_init`. -/
def freePageCount (bitmap : Bitmap) : Nat :=
  (List.range bitmapSize).foldl (fun n i =>
    if bitmap i ≠ 0xFFFFFFFF#32 then
      (List.range 32).foldl (fun n j => if bitmap i &&& (1#32 <<< j) = 0#32 then n + 1 else n) n
    else n) 0

/-- `pmm_frames_init` for a kernel anywhere, with `total_free_memory`. -/
def pmmFramesInitAt (kStart kernelEnd : Nat) (mbd : Multiboot) : Option (Bitmap × Nat) := do
  let bitmap ← walkMmap mbd.mem (u32 (mbd.mmapAddr + mbd.mmapLength)) 4294967296 mbd.mmapAddr
    (fun _ => 0xFFFFFFFF#32)
  let bitmap := setBits (kStart / pageSize) (kernelEndIdx kernelEnd) bitmap
  let bitmap := setBits 0 256 bitmap
  return (bitmap, freePageCount bitmap * pageSize)

theorem pmmFramesInitAt_kernelStart (kernelEnd : Nat) (mbd : Multiboot) :
    (pmmFramesInitAt kernelStart kernelEnd mbd).map Prod.fst = pmmFramesInit kernelEnd mbd := by
  unfold pmmFramesInitAt pmmFramesInit
  generalize walkMmap mbd.mem (u32 (mbd.mmapAddr + mbd.mmapLength)) 4294967296 mbd.mmapAddr
    (fun _ => 0xFFFFFFFF#32) = walked
  cases walked with
  | none => rfl
  | some bitmap => simp

/-! ### Memory maps -/

/-- The entries from `a` to `stop`, each `size + 4` bytes after the one before. -/
inductive IsMmap (m : ByteMem) (stop : Nat) : Nat → List MmapEntry → Prop
  | nil : IsMmap m stop stop []
  | cons {a : Nat} {es : List MmapEntry} : 20 ≤ (readMmapEntry m a).size →
      IsMmap m stop (a + (readMmapEntry m a).size + 4) es →
      IsMmap m stop a (readMmapEntry m a :: es)

namespace MmapEntry

/-- An entry for memory that the kernel may use. -/
def Available (e : MmapEntry) : Prop := e.type = multibootMemoryAvailable

instance (e : MmapEntry) : Decidable e.Available :=
  inferInstanceAs (Decidable (e.type = multibootMemoryAvailable))

def base (e : MmapEntry) : Nat := e.addrHigh * 4294967296 + e.addrLow

def length (e : MmapEntry) : Nat := e.lenHigh * 4294967296 + e.lenLow

/-- Frame `i` lies in the range of the entry. -/
def Contains (e : MmapEntry) (i : Nat) : Prop :=
  e.base ≤ 4096 * i ∧ 4096 * i + 4096 ≤ e.base + e.length

/-- Frame `i` and the range of the entry have a byte in common. -/
def Touches (e : MmapEntry) (i : Nat) : Prop :=
  ∃ b, e.base ≤ b ∧ b < e.base + e.length ∧ 4096 * i ≤ b ∧ b < 4096 * i + 4096

/-- Frame `i` lies in the low words of the range, which ends below 4 GiB. -/
def ContainsLow (e : MmapEntry) (i : Nat) : Prop :=
  e.addrLow ≤ 4096 * i ∧ 4096 * i + 4096 ≤ e.addrLow + e.lenLow ∧
    e.addrLow + e.lenLow < 4294967296

/-- The range starts in the last page below 4 GiB, and frame `i` lies below the
end of it as a 32-bit word. -/
def WrapsOver (e : MmapEntry) (i : Nat) : Prop :=
  4294963200 < e.addrLow ∧ 4096 * i + 4096 ≤ u32 (e.addrLow + e.lenLow)

/-- The loop over the pages of the entry comes to frame `i`. -/
def Offers (e : MmapEntry) (i : Nat) : Prop :=
  e.start / 4096 ≤ i ∧ i < e.start / 4096 + (e.stop - e.start) / 4096

/-- The fields are words. -/
structure Words (e : MmapEntry) : Prop where
  size : e.size < 4294967296
  addrLow : e.addrLow < 4294967296
  addrHigh : e.addrHigh < 4294967296
  lenLow : e.lenLow < 4294967296
  lenHigh : e.lenHigh < 4294967296
  type : e.type < 4294967296

variable {e : MmapEntry} {i : Nat}

/-- **What the loop over the pages of an entry clears.** -/
theorem offers_iff (h : e.Words) : e.Offers i ↔ e.ContainsLow i ∨ e.WrapsOver i := by
  have h₁ := h.addrLow
  have h₂ := h.lenLow
  simp only [Offers, ContainsLow, WrapsOver, start, stop, pageRoundUp, pageRoundDown, u32]
  omega

theorem ContainsLow.contains (h : e.ContainsLow i) (hhigh : e.addrHigh = 0) : e.Contains i := by
  obtain ⟨h₁, h₂, -⟩ := h
  simp only [Contains, base, length, hhigh]
  omega

theorem usable_iff : e.usable = true ↔ e.Available ∧ e.addrHigh = 0 := by
  simp [usable, Available]

end MmapEntry

theorem readMmapEntry_words (m : ByteMem) (a : Nat) : (readMmapEntry m a).Words :=
  ⟨m.read32_lt _, m.read32_lt _, m.read32_lt _, m.read32_lt _, m.read32_lt _, m.read32_lt _⟩

namespace IsMmap

variable {m : ByteMem} {stop a : Nat} {e : MmapEntry} {es : List MmapEntry}

theorem of_read (hread : readMmapEntry m a = e) (hsize : 20 ≤ e.size)
    (h : IsMmap m stop (a + e.size + 4) es) : IsMmap m stop a (e :: es) := by
  subst hread
  exact .cons hsize h

theorem words (h : IsMmap m stop a es) : ∀ e ∈ es, e.Words := by
  induction h with
  | nil => simp
  | @cons a es _ _ ih =>
    intro e he
    rcases List.mem_cons.mp he with rfl | he
    · exact readMmapEntry_words m a
    · exact ih e he

theorem length_le (h : IsMmap m stop a es) : a + 24 * es.length ≤ stop := by
  induction h with
  | nil => simp
  | cons hsize _ ih =>
    rw [List.length_cons]
    omega

end IsMmap

/-! ### A map in memory

Any list of entries is the memory map of some machine, so the results below are
about every list. -/

/-- An entry, as the bootloader writes it. -/
def layEntry (e : MmapEntry) (a : Nat) (m : ByteMem) : ByteMem :=
  (((((m.write32 a e.size).write32 (a + 4) e.addrLow).write32 (a + 8) e.addrHigh).write32
    (a + 12) e.lenLow).write32 (a + 16) e.lenHigh).write32 (a + 20) e.type

/-- A memory map from `a` on. -/
def layMmap : Nat → List MmapEntry → ByteMem
  | _, [] => fun _ => 0
  | a, e :: es => layEntry e a (layMmap (a + e.size + 4) es)

/-- The bytes of a memory map. -/
def mmapBytes : List MmapEntry → Nat
  | [] => 0
  | e :: es => e.size + 4 + mmapBytes es

theorem layEntry_of_ge {e : MmapEntry} {a x : Nat} {m : ByteMem} (ha : a + 24 ≤ 4294967296)
    (hx : a + 24 ≤ x) : layEntry e a m x = m x := by
  unfold layEntry
  rw [ByteMem.write32_of_disjoint (by omega) (by omega),
    ByteMem.write32_of_disjoint (by omega) (by omega),
    ByteMem.write32_of_disjoint (by omega) (by omega),
    ByteMem.write32_of_disjoint (by omega) (by omega),
    ByteMem.write32_of_disjoint (by omega) (by omega),
    ByteMem.write32_of_disjoint (by omega) (by omega)]

theorem readMmapEntry_layEntry {e : MmapEntry} {a : Nat} {m : ByteMem} (he : e.Words)
    (ha : a + 24 ≤ 4294967296) : readMmapEntry (layEntry e a m) a = e := by
  obtain ⟨size, addrLow, addrHigh, lenLow, lenHigh, type⟩ := e
  obtain ⟨h₀, h₁, h₂, h₃, h₄, h₅⟩ := he
  rw [readMmapEntry, u32_of_lt (by omega), u32_of_lt (by omega), u32_of_lt (by omega),
    u32_of_lt (by omega), u32_of_lt (by omega), MmapEntry.mk.injEq]
  unfold layEntry
  simp only at h₀ h₁ h₂ h₃ h₄ h₅ ⊢
  simp (disch := omega) only [ByteMem.read32_write32, ByteMem.read32_write32_of_disjoint, and_self]

theorem readMmapEntry_congr {m m' : ByteMem} {a : Nat} (ha : a + 24 ≤ 4294967296)
    (h : ∀ x, a ≤ x → m' x = m x) : readMmapEntry m' a = readMmapEntry m a := by
  have hword : ∀ k, k + 4 ≤ 24 → m'.read32 (a + k) = m.read32 (a + k) :=
    fun k hk => ByteMem.read32_congr (by omega) fun i _ => h _ (by omega)
  rw [readMmapEntry, readMmapEntry, u32_of_lt (by omega), u32_of_lt (by omega),
    u32_of_lt (by omega), u32_of_lt (by omega), u32_of_lt (by omega), hword 4 (by omega),
    hword 8 (by omega), hword 12 (by omega), hword 16 (by omega), hword 20 (by omega),
    show m'.read32 a = m.read32 a from hword 0 (by omega)]

theorem IsMmap.congr {m m' : ByteMem} {stop a : Nat} {es : List MmapEntry}
    (h : IsMmap m stop a es) (hstop : stop < 4294967296) (hm : ∀ x, a ≤ x → m' x = m x) :
    IsMmap m' stop a es := by
  induction h with
  | nil => exact .nil
  | @cons a es hsize hes ih =>
    have hlen := hes.length_le
    exact .of_read (readMmapEntry_congr (by omega) hm) hsize (ih fun x hx => hm x (by omega))

/-- **Every list of entries is a memory map.** -/
theorem isMmap_layMmap : ∀ (es : List MmapEntry) (a : Nat), (∀ e ∈ es, e.Words ∧ 20 ≤ e.size) →
    a + mmapBytes es < 4294967296 → IsMmap (layMmap a es) (a + mmapBytes es) a es := by
  intro es
  induction es with
  | nil =>
    intro a _ _
    exact .nil
  | cons e es ih =>
    intro a hes hend
    obtain ⟨he, hsize⟩ := hes e (List.mem_cons_self ..)
    have hbytes : mmapBytes (e :: es) = e.size + 4 + mmapBytes es := rfl
    have hread : readMmapEntry (layMmap a (e :: es)) a = e :=
      readMmapEntry_layEntry he (by omega)
    have htail := ih (a + e.size + 4) (fun e' he' => hes e' (List.mem_cons_of_mem _ he')) (by omega)
    have hsum : a + e.size + 4 + mmapBytes es = a + mmapBytes (e :: es) := by omega
    rw [hsum] at htail
    refine .of_read hread hsize ?_
    exact htail.congr hend fun x hx => layEntry_of_ge (by omega) (by omega)

/-- The machine with a memory map at 4096. -/
def mmapMachine (es : List MmapEntry) : Multiboot :=
  ⟨layMmap 0x1000 es, 64, 0x1000, mmapBytes es⟩

/-! ### The walk -/

/-- The pages of one entry. -/
def clearEntry (bitmap : Bitmap) (e : MmapEntry) : Bitmap :=
  if e.usable then unsetPages e.start e.stop bitmap else bitmap

theorem walkMmap_eq {m : ByteMem} {stop a : Nat} {es : List MmapEntry} (h : IsMmap m stop a es)
    (hstop : stop < 4294967296) : ∀ (fuel : Nat) (bitmap : Bitmap), es.length < fuel →
      walkMmap m stop fuel a bitmap = some (es.foldl clearEntry bitmap) := by
  induction h with
  | nil =>
    intro fuel bitmap hf
    obtain ⟨n, rfl⟩ := Nat.exists_eq_add_of_lt hf
    rw [walkMmap, if_neg (lt_irrefl _)]
    rfl
  | @cons a es hsize hes ih =>
    intro fuel bitmap hf
    have hlen := hes.length_le
    obtain ⟨n, rfl⟩ := Nat.exists_eq_add_of_lt hf
    rw [walkMmap, if_pos (by omega)]
    dsimp only
    rw [u32_of_lt (by omega), ih _ _ (by simp only [List.length_cons]; omega)]
    rfl

theorem testBit_clearEntries {i : Nat} (hi : i < 1048576) : ∀ (es : List MmapEntry)
    (bitmap : Bitmap), (es.foldl clearEntry bitmap).testBit i = false ↔
      bitmap.testBit i = false ∨ ∃ e ∈ es, e.usable ∧ e.Offers i := by
  intro es
  induction es with
  | nil =>
    intro bitmap
    simp
  | cons e es ih =>
    intro bitmap
    have hone : (clearEntry bitmap e).testBit i = false ↔
        bitmap.testBit i = false ∨ (e.usable ∧ e.Offers i) := by
      unfold clearEntry
      by_cases hu : e.usable = true
      · rw [if_pos hu, testBit_unsetPages]
        simp only [Bool.and_eq_false_iff, Bool.not_eq_false', decide_eq_true_eq, hu,
          MmapEntry.Offers, hi, and_true, true_and]
        exact or_comm
      · rw [if_neg hu]
        simp [hu]
    rw [List.foldl_cons, ih, hone, or_assoc]
    simp only [List.mem_cons, exists_eq_or_imp]

/-! ### The count -/

/-- **The loop counts the clear bits.** -/
theorem freePageCount_eq (bitmap : Bitmap) : freePageCount bitmap
    = ((Finset.range 1048576).filter fun i => bitmap.testBit i = false).card := by
  rw [freePageCount, ← Nat.count_eq_card_filter_range]
  refine foldl_count_blocks (p := fun i => bitmap.testBit i = false) ?_ bitmapSize
  intro i n
  by_cases hi : bitmap i = 0xFFFFFFFF#32
  · have hnone : Nat.count (fun j => bitmap.testBit (i * 32 + j) = false) 32 = 0 := by
      refine Nat.count_of_forall_not ?_
      intro j hj hclear
      have hset : bitmap.testBit (i * 32 + j) :=
        Bitmap.testBit_of_ones (by rwa [show (i * 32 + j) / 32 = i by omega])
      exact absurd (hset.symm.trans hclear) (by decide)
    rw [if_neg (not_not.mpr hi), hnone, Nat.add_zero]
  · rw [if_pos hi]
    exact foldl_count (fun j hj => Bitmap.and_shift_eq_zero hj) n

/-! ### The bitmap -/

/-- The frames that may stay clear: not in the first MiB and not of the kernel. -/
def Unprotected (kStart kernelEnd i : Nat) : Prop :=
  256 ≤ i ∧ ¬ (kStart / 4096 ≤ i ∧ i ≤ sub32 kernelEnd kernelVirtOffset / 4096)

variable {mbd : Multiboot} {es : List MmapEntry} {kStart kernelEnd : Nat}

/-- **What `pmm_frames_init` computes**, for any memory map. -/
theorem pmmFramesInitAt_spec (kStart kernelEnd : Nat)
    (hend : mbd.mmapAddr + mbd.mmapLength < 4294967296)
    (hmap : IsMmap mbd.mem (mbd.mmapAddr + mbd.mmapLength) mbd.mmapAddr es) :
    ∃ bitmap, pmmFramesInitAt kStart kernelEnd mbd = some (bitmap, freePageCount bitmap * 4096) ∧
      ∀ i < 1048576, bitmap.testBit i = false ↔
        (∃ e ∈ es, e.usable ∧ e.Offers i) ∧ Unprotected kStart kernelEnd i := by
  have hlen := hmap.length_le
  have hwalk := walkMmap_eq hmap hend 4294967296 (fun _ => 0xFFFFFFFF#32) (by omega)
  refine ⟨setBits 0 256 (setBits (kStart / pageSize) (kernelEndIdx kernelEnd)
    (es.foldl clearEntry fun _ => 0xFFFFFFFF#32)), ?_, ?_⟩
  · rw [pmmFramesInitAt, u32_of_lt hend, hwalk]
    rfl
  · intro i hi
    have hkend : kernelEndIdx kernelEnd = sub32 kernelEnd kernelVirtOffset / 4096 + 1 := by
      have : sub32 kernelEnd kernelVirtOffset < 4294967296 := Nat.mod_lt _ (by decide)
      exact u32_of_lt (by simp only [pageSize]; omega)
    have hones : Bitmap.testBit (fun _ => 0xFFFFFFFF#32) i = true := Bitmap.testBit_of_ones rfl
    rw [testBit_setBits, testBit_setBits, Bool.or_eq_false_iff, Bool.or_eq_false_iff,
      decide_eq_false_iff_not, decide_eq_false_iff_not, testBit_clearEntries hi, hones, hkend]
    simp only [Bool.true_eq_false, false_or, Unprotected, pageSize]
    constructor
    · rintro ⟨hlow, hkernel, hfree⟩
      exact ⟨hfree, by omega, by omega⟩
    · rintro ⟨hfree, hlow, hkernel⟩
      exact ⟨by omega, by omega, hfree⟩

/-- **The frame bitmap is the usable memory**, when no usable range comes near the
end of the 32-bit addresses. -/
theorem frame_bitmap_exact (hend : mbd.mmapAddr + mbd.mmapLength < 4294967296)
    (hmap : IsMmap mbd.mem (mbd.mmapAddr + mbd.mmapLength) mbd.mmapAddr es)
    (hlow : ∀ e ∈ es, e.Available → e.addrHigh = 0 →
      e.lenHigh = 0 ∧ e.addrLow + e.lenLow + 4095 < 4294967296) :
    ∃ bitmap totalFreeMemory,
      pmmFramesInitAt kStart kernelEnd mbd = some (bitmap, totalFreeMemory) ∧
      (∀ i < 1048576, bitmap.testBit i = false ↔
        (∃ e ∈ es, e.Available ∧ e.addrHigh = 0 ∧ e.Contains i) ∧ 256 ≤ i ∧
          ¬ (kStart / 4096 ≤ i ∧ i ≤ sub32 kernelEnd kernelVirtOffset / 4096)) ∧
      totalFreeMemory
        = 4096 * ((Finset.range 1048576).filter fun i => bitmap.testBit i = false).card := by
  obtain ⟨bitmap, hinit, hbits⟩ := pmmFramesInitAt_spec kStart kernelEnd hend hmap
  refine ⟨bitmap, _, hinit, ?_, by rw [freePageCount_eq, Nat.mul_comm]⟩
  intro i hi
  have hoffers : ∀ e ∈ es, e.Available → e.addrHigh = 0 → (e.Offers i ↔ e.Contains i) := by
    intro e he hav hhigh
    obtain ⟨hlen, hsum⟩ := hlow e he hav hhigh
    rw [MmapEntry.offers_iff (hmap.words e he)]
    simp only [MmapEntry.ContainsLow, MmapEntry.WrapsOver, MmapEntry.Contains, MmapEntry.base,
      MmapEntry.length, hhigh, hlen]
    omega
  rw [hbits i hi, Unprotected]
  refine and_congr_left fun _ => exists_congr fun e => and_congr_right fun he => ?_
  rw [MmapEntry.usable_iff, and_assoc]
  exact and_congr_right fun hav => and_congr_right fun hhigh => hoffers e he hav hhigh

/-- 64 frames from 2 MiB on, and one that is reserved behind them. -/
def plainMap : List MmapEntry := [⟨20, 0x200000, 0, 0x40000, 0, 1⟩, ⟨20, 0x240000, 0, 0x1000, 0, 2⟩]

theorem plainMap_isMmap : IsMmap (mmapMachine plainMap).mem
    ((mmapMachine plainMap).mmapAddr + (mmapMachine plainMap).mmapLength)
    (mmapMachine plainMap).mmapAddr plainMap := by
  refine isMmap_layMmap plainMap 0x1000 ?_ (by decide)
  simp only [plainMap, List.forall_mem_cons, List.not_mem_nil, false_imp_iff, implies_true, and_true]
  exact ⟨⟨⟨by decide, by decide, by decide, by decide, by decide, by decide⟩, by decide⟩,
    ⟨by decide, by decide, by decide, by decide, by decide, by decide⟩, by decide⟩

theorem frame_bitmap_exact_plain : ∃ bitmap totalFreeMemory,
    pmmFramesInitAt kernelStart 0xC0120000 (mmapMachine plainMap) = some (bitmap, totalFreeMemory) ∧
    bitmap.testBit 575 = false ∧ bitmap.testBit 576 ≠ false ∧
    totalFreeMemory
      = 4096 * ((Finset.range 1048576).filter fun i => bitmap.testBit i = false).card := by
  have hlow : ∀ e ∈ plainMap, e.Available → e.addrHigh = 0 →
      e.lenHigh = 0 ∧ e.addrLow + e.lenLow + 4095 < 4294967296 := by
    simp [plainMap]
  obtain ⟨bitmap, total, hinit, hbits, htotal⟩ := frame_bitmap_exact (by decide) plainMap_isMmap hlow
  refine ⟨bitmap, total, hinit, ?_, ?_, htotal⟩
  · rw [hbits 575 (by decide)]
    refine ⟨⟨⟨20, 0x200000, 0, 0x40000, 0, 1⟩, List.mem_cons_self .., rfl, rfl, ?_⟩, ?_, ?_⟩
    · simp [MmapEntry.Contains, MmapEntry.base, MmapEntry.length]
    · decide
    · decide
  · rw [ne_eq, hbits 576 (by decide)]
    simp [plainMap, MmapEntry.Contains, MmapEntry.base, MmapEntry.length, MmapEntry.Available,
      multibootMemoryAvailable]

/-! ### Maps of any kind -/

/-- No frame of a usable range is a part of a range of another type. -/
def NoHole (es : List MmapEntry) (kStart kernelEnd : Nat) : Prop :=
  ∀ e ∈ es, e.Available → e.addrHigh = 0 → ∀ i, Unprotected kStart kernelEnd i →
    e.ContainsLow i → ∀ e' ∈ es, ¬ e'.Available → ¬ e'.Touches i

/-- What a usable range in the last page below 4 GiB frees is available. -/
def NoWrap (es : List MmapEntry) (kStart kernelEnd : Nat) : Prop :=
  ∀ e ∈ es, e.Available → e.addrHigh = 0 → ∀ i, Unprotected kStart kernelEnd i →
    e.WrapsOver i →
      (∃ e' ∈ es, e'.Available ∧ e'.Contains i) ∧ ∀ e' ∈ es, ¬ e'.Available → ¬ e'.Touches i

/-- Only available memory is free. -/
def OnlyAvailable (es : List MmapEntry) (bitmap : Bitmap) : Prop :=
  ∀ i < 1048576, bitmap.testBit i = false →
    (∃ e ∈ es, e.Available ∧ e.Contains i) ∧ ∀ e ∈ es, ¬ e.Available → ¬ e.Touches i

/-- **No clear bit is a frame outside of the available memory** exactly when the
usable ranges have no holes and none of them wraps. -/
theorem frame_bitmap_safe (hend : mbd.mmapAddr + mbd.mmapLength < 4294967296)
    (hmap : IsMmap mbd.mem (mbd.mmapAddr + mbd.mmapLength) mbd.mmapAddr es) :
    ∃ bitmap totalFreeMemory,
      pmmFramesInitAt kStart kernelEnd mbd = some (bitmap, totalFreeMemory) ∧
      (OnlyAvailable es bitmap ↔ NoHole es kStart kernelEnd ∧ NoWrap es kStart kernelEnd) := by
  obtain ⟨bitmap, hinit, hbits⟩ := pmmFramesInitAt_spec kStart kernelEnd hend hmap
  refine ⟨bitmap, _, hinit, ?_, ?_⟩
  · intro hsafe
    refine ⟨?_, ?_⟩
    · intro e he hav hhigh i hfree hin
      have hi : i < 1048576 := by
        obtain ⟨-, h₁, h₂⟩ := hin
        omega
      refine (hsafe i hi ?_).2
      rw [hbits i hi]
      exact ⟨⟨e, he, MmapEntry.usable_iff.mpr ⟨hav, hhigh⟩,
        (MmapEntry.offers_iff (hmap.words e he)).mpr (.inl hin)⟩, hfree⟩
    · intro e he hav hhigh i hfree hwrap
      have hi : i < 1048576 := by
        have hlt : u32 (e.addrLow + e.lenLow) < 4294967296 := Nat.mod_lt _ (by decide)
        have := hwrap.2
        omega
      refine hsafe i hi ?_
      rw [hbits i hi]
      exact ⟨⟨e, he, MmapEntry.usable_iff.mpr ⟨hav, hhigh⟩,
        (MmapEntry.offers_iff (hmap.words e he)).mpr (.inr hwrap)⟩, hfree⟩
  · rintro ⟨hhole, hwrap⟩ i hi hclear
    obtain ⟨⟨e, he, hu, ho⟩, hfree⟩ := (hbits i hi).mp hclear
    obtain ⟨hav, hhigh⟩ := MmapEntry.usable_iff.mp hu
    rcases (MmapEntry.offers_iff (hmap.words e he)).mp ho with hin | hover
    · exact ⟨⟨e, he, hav, hin.contains hhigh⟩, hhole e he hav hhigh i hfree hin⟩
    · exact hwrap e he hav hhigh i hfree hover

theorem frame_bitmap_safe_plain : ∃ bitmap totalFreeMemory,
    pmmFramesInitAt kernelStart 0xC0120000 (mmapMachine plainMap) = some (bitmap, totalFreeMemory) ∧
    OnlyAvailable plainMap bitmap := by
  obtain ⟨bitmap, total, hinit, hsafe⟩ := frame_bitmap_safe (by decide) plainMap_isMmap
  refine ⟨bitmap, total, hinit, hsafe.mpr ⟨?_, ?_⟩⟩
  · intro e he hav _ i _ hin e' he' hres
    simp only [plainMap, List.mem_cons, List.not_mem_nil, or_false] at he he'
    rcases he with rfl | rfl
    · rcases he' with rfl | rfl
      · exact absurd hav hres
      · rintro ⟨b, h₁, -, -, h₂⟩
        simp only [MmapEntry.ContainsLow, MmapEntry.base] at hin h₁
        omega
    · exact absurd hav (by decide)
  · intro e he _ _ i _ hwrap
    simp only [plainMap, List.mem_cons, List.not_mem_nil, or_false] at he
    have := hwrap.1
    rcases he with rfl | rfl <;> simp at this

/-- The second frame of the available range is reserved. -/
def holeMap : List MmapEntry := [⟨20, 0x200000, 0, 0x40000, 0, 1⟩, ⟨20, 0x201000, 0, 0x1000, 0, 2⟩]

/-- **A reserved frame is handed out.** -/
theorem reserved_frame_free : ∃ bitmap totalFreeMemory,
    IsMmap (mmapMachine holeMap).mem
      ((mmapMachine holeMap).mmapAddr + (mmapMachine holeMap).mmapLength)
      (mmapMachine holeMap).mmapAddr holeMap ∧
    pmmFramesInitAt kernelStart 0xC0120000 (mmapMachine holeMap) = some (bitmap, totalFreeMemory) ∧
    bitmap.testBit 513 = false ∧ ¬ OnlyAvailable holeMap bitmap := by
  have hmap : IsMmap (mmapMachine holeMap).mem
      ((mmapMachine holeMap).mmapAddr + (mmapMachine holeMap).mmapLength)
      (mmapMachine holeMap).mmapAddr holeMap := by
    refine isMmap_layMmap holeMap 0x1000 ?_ (by decide)
    simp only [holeMap, List.forall_mem_cons, List.not_mem_nil, false_imp_iff, implies_true,
      and_true]
    exact ⟨⟨⟨by decide, by decide, by decide, by decide, by decide, by decide⟩, by decide⟩,
      ⟨by decide, by decide, by decide, by decide, by decide, by decide⟩, by decide⟩
  obtain ⟨bitmap, hinit, hbits⟩ := pmmFramesInitAt_spec kernelStart 0xC0120000 (by decide) hmap
  have hclear : bitmap.testBit 513 = false := by
    rw [hbits 513 (by decide)]
    refine ⟨⟨⟨20, 0x200000, 0, 0x40000, 0, 1⟩, List.mem_cons_self .., rfl, ?_⟩, by decide, by decide⟩
    exact ⟨by decide, by decide⟩
  refine ⟨bitmap, _, hmap, hinit, hclear, ?_⟩
  intro h
  refine (h 513 (by decide) hclear).2 ⟨20, 0x201000, 0, 0x1000, 0, 2⟩ (by simp [holeMap])
    (by decide) ⟨0x201000, ?_⟩
  decide

end ChoOS
