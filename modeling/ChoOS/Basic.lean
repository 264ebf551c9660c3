import ChoOS.Lib.Memory

/-!
# Machine constants

The constants of `paging.h`, `vmm.h` and `heap.h`, and the 32-bit arithmetic
that is not already in `u32`.
-/

namespace ChoOS

/-- Subtraction of machine words. -/
def sub32 (a b : Nat) : Nat := u32 (a + (4294967296 - u32 b))

theorem sub32_of_le {a b : Nat} (h : b ≤ a) (ha : a < 4294967296) : sub32 a b = a - b := by
  simp only [sub32, u32]
  omega

/-- `PAGE_SIZE` -/
def pageSize : Nat := 4096

/-- `KERNEL_VIRT_OFFSET` -/
def kernelVirtOffset : Nat := 0xC0000000

/-- `PT_BASE_VADDR`, the start of the recursive window. -/
def ptBaseVaddr : Nat := 0xFFC00000

/-- `PD_BASE_VADDR`, the page directory seen through the recursive window. -/
def pdBaseVaddr : Nat := 0xFFFFF000

/-- `P2V` -/
def p2v (addr : Nat) : Nat := u32 (addr + kernelVirtOffset)

/-- `V2P` -/
def v2p (addr : Nat) : Nat := sub32 addr kernelVirtOffset

/-- `(addr + PAGE_SIZE - 1) & ~(PAGE_SIZE - 1)` -/
def pageRoundUp (addr : Nat) : Nat := u32 (addr + 4095) / 4096 * 4096

/-- `addr & ~(PAGE_SIZE - 1)` -/
def pageRoundDown (addr : Nat) : Nat := addr / 4096 * 4096

end ChoOS
