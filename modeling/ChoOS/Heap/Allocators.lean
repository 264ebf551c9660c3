import ChoOS.Basic
import ChoOS.Lib.Seg
import ChoOS.Libc.String

/-!
# The kernel heap

The code of `memory_manager/internal.c`, `allocators.c` and `heap.c` on the
bytes of the kernel's address space.  A `HeapBlock` is eight bytes in front of
its payload: the word `next` at offset `0`, the byte `EOM` at `4` and the byte
`free` at `5`; a pointer handed to a client is the block plus `8`.

`sbrk` is a parameter here: it takes the heap and may change the break, the
memory and whatever stands behind it (`env`, the frames and page tables), and
`none` says that it did not return.  `Brk.lean` supplies the one of `brk.c`.

Every call runs between `lock_scheduler` and `unlock_scheduler`, so a call is
one function from heap to heap.  The two loops walk the list with `follow`;
they write nothing, so a walk longer than the address space visits a node twice
and never ends, and `none` is that.
-/

namespace ChoOS

/-- The state the allocator works on. -/
structure Heap (ε : Type) where
  mem : ByteMem
  heapStart : Nat
  programBreakPoint : Nat
  env : ε

/-- `sbrk`: the argument is the machine word that is passed. -/
abbrev Sbrk (ε : Type) := Nat → Heap ε → Option (Nat × Heap ε)

/-- `(void *)-1` -/
def sbrkFailed : Nat := 0xFFFFFFFF

/-- `MINIMUM_ALLOCATION_BYTES` -/
def minimumAllocationBytes : Nat := 16

/-- `sizeof(struct HeapBlock)` -/
def sizeofHeapBlock : Nat := 8

/-- A list walk of the kernel visits at most this many nodes, or does not end. -/
def walkFuel : Nat := 4294967296

/-! ### `struct HeapBlock` -/

def blockNext (m : ByteMem) (block : Nat) : Nat := m.read32 block

def blockEOM (m : ByteMem) (block : Nat) : UInt8 := m.read8 (block + 4)

def blockFree (m : ByteMem) (block : Nat) : UInt8 := m.read8 (block + 5)

/-! ### `internal.c` -/

def internalHeapBlockSetMetadata (m : ByteMem) (dst : Nat) (EOM free : UInt8) (next : Nat) :
    ByteMem :=
  ((m.write8 (dst + 4) EOM).write8 (dst + 5) free).write32 dst next

def internalHeapBlockGetAvailableSpace (m : ByteMem) (block : Nat) : Nat :=
  if blockEOM m block ≠ 0 then 0
  else sub32 (sub32 (blockNext m block) block) sizeofHeapBlock

/-! ### `allocators.c` -/

/-- `ALIGN`: the mask clears the low three bits of the 32-bit sum. -/
def align (size : Nat) : Nat := u32 (size + 7) / 8 * 8

def heapBlockMergeDown (m : ByteMem) (block : Nat) : ByteMem :=
  m.write32 block (blockNext m (blockNext m block))

def heapBlockSplit (m : ByteMem) (block size : Nat) : ByteMem :=
  let alignedSize := align size
  let availableSpace := internalHeapBlockGetAvailableSpace m block
  if availableSpace < u32 (alignedSize + sizeofHeapBlock + minimumAllocationBytes) then m
  else
    let newBlockAddr := u32 (block + sizeofHeapBlock + size)
    (internalHeapBlockSetMetadata m newBlockAddr 0 1 (blockNext m block)).write32 block newBlockAddr

/-- The test that ends the search loop of `kmalloc`: the end block, or a free
block with room. -/
def kmallocStop (m : ByteMem) (alignedSize node : Nat) : Bool :=
  blockEOM m node ≠ 0 ||
    (blockFree m node ≠ 0 && alignedSize ≤ internalHeapBlockGetAvailableSpace m node)

variable {ε : Type}

/-- The growth path of `kmalloc`, from the result of `sbrk` on.  `node` is the
old end block, and becomes the start of the new one. -/
def kmallocGrow (node newBlock : Nat) (h : Heap ε) : Nat × Heap ε :=
  if newBlock = sbrkFailed then (0, h)
  else
    let newHeapEnd := sub32 h.programBreakPoint sizeofHeapBlock
    let m := internalHeapBlockSetMetadata h.mem node 0 0 newHeapEnd
    let m := internalHeapBlockSetMetadata m newHeapEnd 1 0 0
    let m := m.write32 node newHeapEnd
    (u32 (node + sizeofHeapBlock), { h with mem := m })

def kmalloc (sbrk : Sbrk ε) (size : Nat) (h : Heap ε) : Option (Nat × Heap ε) := do
  let alignedSize := align size
  let node ← follow (blockNext h.mem) (kmallocStop h.mem alignedSize) walkFuel h.heapStart
  if blockEOM h.mem node ≠ 0 then
    let (newBlock, h') ← sbrk (u32 (alignedSize + sizeofHeapBlock)) h
    return kmallocGrow node newBlock h'
  else
    let m := (heapBlockSplit h.mem node alignedSize).write8 (node + 5) 0
    return (u32 (node + sizeofHeapBlock), { h with mem := m })

def kcalloc (sbrk : Sbrk ε) (nmemb size : Nat) (h : Heap ε) : Option (Nat × Heap ε) := do
  let bytes := u32 (nmemb * size)
  let (newBlock, h) ← kmalloc sbrk bytes h
  if newBlock = 0 then return (0, h)
  else return (newBlock, { h with mem := memset h.mem newBlock 0 bytes })

def kfree (ptr : Nat) (h : Heap ε) : Option (Heap ε) := do
  let heapBlock := sub32 ptr sizeofHeapBlock
  let m := h.mem.write8 (heapBlock + 5) 1
  let m := if blockFree m (blockNext m heapBlock) ≠ 0 then heapBlockMergeDown m heapBlock else m
  if heapBlock = h.heapStart then return { h with mem := m }
  else
    let parentBlock ← follow (blockNext m) (fun p => blockNext m p == heapBlock) walkFuel h.heapStart
    let m := if blockFree m parentBlock ≠ 0 then heapBlockMergeDown m parentBlock else m
    return { h with mem := m }

def krealloc (sbrk : Sbrk ε) (ptr size : Nat) (h : Heap ε) : Option (Nat × Heap ε) := do
  if ptr = 0 then kmalloc sbrk size h
  else if size = 0 then
    let h ← kfree ptr h
    return (0, h)
  else
    let originalBlock := sub32 ptr sizeofHeapBlock
    let availableSpace := internalHeapBlockGetAvailableSpace h.mem originalBlock
    if size ≤ availableSpace then
      return (ptr, { h with mem := heapBlockSplit h.mem originalBlock size })
    else
      let (newBlock, h) ← kmalloc sbrk size h
      if newBlock = 0 then return (0, h)
      else
        let h ← kfree ptr { h with mem := memmove h.mem newBlock ptr availableSpace }
        return (newBlock, h)

/-! ### `heap.c` -/

/-- `_kernel_end` rounded up to a page. -/
def heapStartAddr (kernelEnd : Nat) : Nat :=
  if kernelEnd % pageSize ≠ 0 then pageRoundDown (u32 (kernelEnd + pageSize)) else kernelEnd

/-- `P2V(0)` plus what the first page table maps, 4 MiB. -/
def hardLimitAddr : Nat := u32 (p2v 0 + pageSize * 1024)

/-- `heap_init`; `none` is its `abort`. -/
def heapInit (kernelEnd : Nat) (m : ByteMem) (env : ε) : Option (Heap ε) :=
  if hardLimitAddr ≤ heapStartAddr kernelEnd then none
  else
    let heapEnd := sub32 hardLimitAddr sizeofHeapBlock
    let m := internalHeapBlockSetMetadata m heapEnd 1 0 0
    let m := internalHeapBlockSetMetadata m (heapStartAddr kernelEnd) 0 1 heapEnd
    some { mem := m, heapStart := heapStartAddr kernelEnd, programBreakPoint := hardLimitAddr,
           env := env }

end ChoOS
