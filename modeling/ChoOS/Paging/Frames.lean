import ChoOS.Basic
import ChoOS.Lib.Bitmap

/-!
# The frame allocator

The code of `paging/allocators.c` and `paging/internal.c`, and
`pmm_frames_init` of `paging/paging.c`.  A set bit of the bitmap is a frame in
use.  `pmm_alloc_page` hands out frames from the batch `pre_frames`, which it
refills from the bitmap; the two statics of that function and the batch are
fields of `Frames`.

`pmm_frames_init` reads the memory map of the bootloader from the bytes of the
machine.  Its walk over the entries only reads them, so a walk longer than the
address space comes back to an entry and never ends; `none` is that.
-/

namespace ChoOS

/-- `MAX_PAGE_FRAME_COUNT` -/
def maxPageFrameCount : Nat := 1048576

/-- `BITMAP_SIZE` -/
def bitmapSize : Nat := 32768

/-- `BATCH_PAGES_ALLOCED_MAX` -/
def batchPagesAllocedMax : Nat := 20

/-- The bitmap, the statics of `pmm_alloc_page` and `pre_frames`. -/
structure Frames where
  bitmap : Bitmap
  allocate : Nat
  pframe : Nat
  preFrames : Nat → Nat

/-- The statics as the program starts with them. -/
def Frames.start (bitmap : Bitmap) : Frames := ⟨bitmap, 1, 0, fun _ => 0⟩

/-! ### `allocators.c` -/

/-- The inner loop of `pmm_alloc_frame_int`: the first clear bit of word `i`. -/
def clearBitOfWord (bitmap : Bitmap) (i : Nat) : Option Nat :=
  if bitmap i ≠ 0xFFFFFFFF#32 then
    firstSome (fun j => if bitmap.testBit (i * 32 + j) then none else some (i * 32 + j)) 32 0
  else none

def pmmAllocFrameInt (s : Frames) : Nat × Frames :=
  match firstSome (clearBitOfWord s.bitmap) bitmapSize 0 with
  | some bitIdx => (u32 (bitIdx * pageSize), { s with bitmap := s.bitmap.setBit bitIdx })
  | none => (0, s)

def pmmFreePage (a : Nat) (s : Frames) : Frames :=
  { s with bitmap := s.bitmap.clearBit (a / pageSize) }

/-- The refill loop of `pmm_alloc_page`, from entry `i` on; it leaves the batch
half filled when the frames run out. -/
def refill : Nat → Nat → Frames → Bool × Frames
  | 0, _, s => (true, s)
  | n + 1, i, s =>
    let (frame, s) := pmmAllocFrameInt s
    if frame = 0 then (false, s)
    else refill n (i + 1) { s with preFrames := Function.update s.preFrames i frame }

/-- The end of `pmm_alloc_page`. -/
def issue (s : Frames) : Nat × Frames :=
  (s.preFrames s.pframe, { s with pframe := (s.pframe + 1) % 256 })

def pmmAllocPage (s : Frames) : Nat × Frames :=
  let s := if s.pframe = batchPagesAllocedMax then { s with allocate := 1 } else s
  if s.allocate = 1 then
    match refill batchPagesAllocedMax 0 s with
    | (true, s) => issue { s with pframe := 0, allocate := 0 }
    | (false, s) => (0, s)
  else issue s

/-! ### `pmm_frames_init` -/

/-- `struct multiboot_mmap_entry` -/
structure MmapEntry where
  size : Nat
  addrLow : Nat
  addrHigh : Nat
  lenLow : Nat
  lenHigh : Nat
  type : Nat

def readMmapEntry (m : ByteMem) (a : Nat) : MmapEntry :=
  ⟨m.read32 a, m.read32 (u32 (a + 4)), m.read32 (u32 (a + 8)), m.read32 (u32 (a + 12)),
    m.read32 (u32 (a + 16)), m.read32 (u32 (a + 20))⟩

/-- `MULTIBOOT_MEMORY_AVAILABLE` -/
def multibootMemoryAvailable : Nat := 1

def MmapEntry.usable (e : MmapEntry) : Bool :=
  e.type = multibootMemoryAvailable && e.addrHigh = 0

/-- `start`, rounded up to a page. -/
def MmapEntry.start (e : MmapEntry) : Nat := pageRoundUp e.addrLow

/-- `end`, rounded down to a page. -/
def MmapEntry.stop (e : MmapEntry) : Nat := pageRoundDown (u32 (e.addrLow + e.lenLow))

/-- The loop over the pages of one entry. -/
def unsetPages (start stop : Nat) (bitmap : Bitmap) : Bitmap :=
  (List.range ((stop - start) / pageSize)).foldl (fun b k =>
    let pageIdx := (start + k * pageSize) / pageSize
    if pageIdx < maxPageFrameCount then b.clearBit pageIdx else b) bitmap

/-- The loop over the entries of the memory map. -/
def walkMmap (m : ByteMem) (mmapEnd : Nat) : Nat → Nat → Bitmap → Option Bitmap
  | 0, _, _ => none
  | fuel + 1, entry, bitmap =>
    if entry < mmapEnd then
      let e := readMmapEntry m entry
      walkMmap m mmapEnd fuel (u32 (entry + e.size + 4))
        (if e.usable then unsetPages e.start e.stop bitmap else bitmap)
    else some bitmap

/-- `for (i = lo; i < hi; i++) if (i < MAX_PAGE_FRAME_COUNT) set(i)` -/
def setBits (lo hi : Nat) (bitmap : Bitmap) : Bitmap :=
  (List.range (hi - lo)).foldl (fun b k =>
    if lo + k < maxPageFrameCount then b.setBit (lo + k) else b) bitmap

/-- `_kernel_start`, from the linker script. -/
def kernelStart : Nat := 0x100000

/-- `end_idx`: the frame after the last one of the kernel. -/
def kernelEndIdx (kernelEnd : Nat) : Nat := u32 (sub32 kernelEnd kernelVirtOffset / pageSize + 1)

/-- What the bootloader leaves: its bytes, and `flags`, `mmap_addr` and `mmap_length`. -/
structure Multiboot where
  mem : ByteMem
  flags : Nat
  mmapAddr : Nat
  mmapLength : Nat

def pmmFramesInit (kernelEnd : Nat) (mbd : Multiboot) : Option Bitmap := do
  let bitmap ← walkMmap mbd.mem (u32 (mbd.mmapAddr + mbd.mmapLength)) 4294967296 mbd.mmapAddr
    (fun _ => 0xFFFFFFFF#32)
  let bitmap := setBits (kernelStart / pageSize) (kernelEndIdx kernelEnd) bitmap
  return setBits 0 256 bitmap

end ChoOS
