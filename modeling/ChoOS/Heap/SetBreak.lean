import ChoOS.Heap.Rollback

/-!
# Setting the break

`brk` of `brk.c` turns the address into a signed difference to the break and
leaves the rest to `sbrk`.  A difference has two readings: an address more than
2 GiB below the break is a growth by almost 4 GiB, and `increment_brk` assigns the
sum, which wraps to that address.  The other direction never wraps, but
`decrement_brk` moves by whole pages.

`SetsBreak` is what `heap.h` says of one call, `ReachableAddr` the addresses for
which it holds, and `brk_sets` says that it holds for no others: in every state
that calls lead to which leave the break in the heap.
-/

namespace ChoOS

/-- `brk` -/
def brk (addr : Nat) (h : Heap Machine) : Option (Int × Heap Machine) := do
  let diff := sub32 addr h.programBreakPoint
  let (res, h) ← sbrk diff h
  if res ≠ sbrkFailed then return (0, h) else return (-1, h)

/-- What `heap.h` says about a call of `brk`. -/
structure SetsBreak (h : Heap Machine) (addr : Nat) (res : Int) (h' : Heap Machine) : Prop where
  sets : res = 0 → h.heapStart ≤ addr ∧ h'.programBreakPoint = addr
  refuses : res ≠ 0 → res = -1 ∧ h'.programBreakPoint = h.programBreakPoint

/-- An address below the heap is at most 2 GiB below the break, and one in the heap is
whole pages below it. -/
structure ReachableAddr (h : Heap Machine) (addr : Nat) : Prop where
  below : addr < h.heapStart → h.programBreakPoint ≤ addr + 2147483648
  pages : h.heapStart ≤ addr → addr < h.programBreakPoint → 4096 ∣ h.programBreakPoint - addr

/-- A call that leaves the break in the heap. -/
structure InHeapStep (h : Heap Machine) (c : MemoryCall) (h' : Heap Machine) : Prop where
  step : MemoryStep h c h'
  start : h'.heapStart ≤ h'.programBreakPoint
  window : h'.programBreakPoint ≤ ptBaseVaddr

section Brk

variable {h h' h₀ : Heap Machine} {addr increment r : Nat} {res : Int} {c : MemoryCall}

/-- A sum that wraps is assigned, and no page is mapped for it. -/
theorem InBounds.sbrk_wraps (hb : InBounds h) (hpos : 0 < increment)
    (hlt : increment < 2147483648) (hwrap : 4294967296 ≤ h.programBreakPoint + increment) :
    sbrk increment h = some (h.programBreakPoint, { h with
      programBreakPoint := h.programBreakPoint + increment - 4294967296 }) := by
  have hhi : h.programBreakPoint ≤ 4290772992 := hb.window
  have hnew : u32 (h.programBreakPoint + increment)
      = h.programBreakPoint + increment - 4294967296 := by
    rw [u32]
    omega
  have hmap : ¬ pageRoundUp h.programBreakPoint
      < pageRoundUp (h.programBreakPoint + increment - 4294967296) := by
    simp only [pageRoundUp, u32]
    omega
  rw [sbrk, if_neg (by omega), if_pos hlt, incrementBrk]
  dsimp only
  rw [hnew, if_neg hmap]
  rfl

theorem InBounds.shrink_granted (hb : InBounds h) (hneg : 2147483648 ≤ increment)
    (hw : increment < 4294967296)
    (hroom : h.heapStart + (4294967296 - increment) ≤ h.programBreakPoint)
    (hs : sbrk increment h = some (r, h')) : r = h.programBreakPoint := by
  have hhi : h.programBreakPoint ≤ 4290772992 := hb.window
  have hnew : sub32 h.programBreakPoint (4294967296 - increment)
      = h.programBreakPoint - (4294967296 - increment) := sub32_of_le (by omega) (by omega)
  rw [sbrk, if_neg (by omega), if_neg (by omega), decrementBrk, hnew, if_neg (by omega)] at hs
  obtain ⟨h₁, -, hs⟩ := Option.bind_eq_some_iff.mp hs
  exact (Prod.mk.inj (Option.some.inj hs)).1.symm

theorem brk_cases (hcall : brk addr h = some (res, h')) :
    ∃ r, sbrk (sub32 addr h.programBreakPoint) h = some (r, h') ∧
      res = if r ≠ sbrkFailed then 0 else -1 := by
  obtain ⟨⟨r, h₁⟩, hs, hcall⟩ := Option.bind_eq_some_iff.mp hcall
  refine ⟨r, ?_⟩
  dsimp only at hcall
  split at hcall
  · rename_i hr
    obtain ⟨rfl, rfl⟩ := Prod.mk.inj (Option.some.inj hcall)
    exact ⟨hs, (if_pos hr).symm⟩
  · rename_i hr
    obtain ⟨rfl, rfl⟩ := Prod.mk.inj (Option.some.inj hcall)
    exact ⟨hs, (if_neg hr).symm⟩

theorem InBounds.brk_iff (hb : InBounds h) (haddr : addr < 4294967296)
    (hcall : brk addr h = some (res, h')) : SetsBreak h addr res h' ↔ ReachableAddr h addr := by
  obtain ⟨hlo, -, hle, hwin⟩ := id hb
  have hhi : h.programBreakPoint ≤ 4290772992 := hwin
  have hmax : h.programBreakPoint ≠ sbrkFailed := by
    rw [sbrkFailed]
    omega
  obtain ⟨r, hs, rfl⟩ := brk_cases hcall
  have hdiff : sub32 addr h.programBreakPoint
      = if h.programBreakPoint ≤ addr then addr - h.programBreakPoint
        else addr + 4294967296 - h.programBreakPoint := by
    simp only [sub32, u32]
    split <;> omega
  by_cases hup : h.programBreakPoint ≤ addr
  · -- the break grows to the address or stays
    rw [hdiff, if_pos hup] at hs
    refine iff_of_true ?_ ⟨fun h0 => by omega, fun _ h0 => by omega⟩
    obtain ⟨-, ⟨rfl, hbrk⟩ | ⟨rfl, -, hbrk⟩ | ⟨-, hneg, -⟩⟩ :=
      sbrk_break_cases (by omega) hle hwin (by omega) hs
    · rw [if_neg (not_not.mpr rfl)]
      exact ⟨fun h0 => absurd h0 (by decide), fun _ => ⟨rfl, hbrk⟩⟩
    · rw [if_pos hmax]
      refine ⟨fun _ => ⟨by omega, ?_⟩, fun h0 => absurd rfl h0⟩
      rw [hbrk, u32_of_lt (by omega)]
      omega
    · omega
  · rw [hdiff, if_neg hup] at hs
    by_cases hfar : addr + 2147483648 < h.programBreakPoint
    · -- more than 2 GiB below: the sum wraps
      rw [hb.sbrk_wraps (by omega) (by omega) (by omega)] at hs
      obtain ⟨rfl, rfl⟩ := Prod.mk.inj (Option.some.inj hs)
      rw [if_pos hmax]
      refine iff_of_false (fun hset => ?_) fun hr => ?_
      · have := (hset.sets rfl).1
        omega
      · have := hr.below (by omega)
        omega
    · by_cases hroom : h.heapStart ≤ addr
      · have hr := hb.shrink_granted (by omega) (by omega) (by omega) hs
        obtain ⟨-, ⟨h0, -⟩ | ⟨-, hpos, -⟩ | ⟨-, -, -, hbrk⟩⟩ :=
          sbrk_break_cases (by omega) hle hwin (by omega) hs
        · exact absurd (hr.symm.trans h0) hmax
        · omega
        · rw [hr, if_pos hmax]
          constructor
          · intro hset
            have := (hset.sets rfl).2
            exact ⟨fun h0 => by omega, fun _ _ => by omega⟩
          · intro hreach
            have := hreach.pages hroom (by omega)
            exact ⟨fun _ => ⟨hroom, by omega⟩, fun h0 => absurd rfl h0⟩
      · -- below the heap, and refused
        obtain ⟨-, ⟨rfl, hbrk⟩ | ⟨-, hpos, -⟩ | ⟨-, -, hroom', -⟩⟩ :=
          sbrk_break_cases (by omega) hle hwin (by omega) hs
        · rw [if_neg (not_not.mpr rfl)]
          refine iff_of_true ⟨fun h0 => absurd h0 (by decide), fun _ => ⟨rfl, hbrk⟩⟩ ?_
          exact ⟨fun _ => by omega, fun h0 => absurd h0 hroom⟩
        · omega
        · omega

/-- **`brk` returns**, but for a growth into the window. -/
theorem Backed.brk_returns (hb : Backed h) (haddr : addr ≤ ptBaseVaddr) :
    ∃ res h', brk addr h = some (res, h') := by
  obtain ⟨hB, hK, held, hO⟩ := hb
  have haddr : addr ≤ 4290772992 := haddr
  have hhi : h.programBreakPoint ≤ 4290772992 := hB.window
  obtain ⟨r, h', hs⟩ : ∃ r h', sbrk (sub32 addr h.programBreakPoint) h = some (r, h') := by
    have hdiff : sub32 addr h.programBreakPoint < 4294967296 := Nat.mod_lt _ (by decide)
    by_cases hwrap : sub32 addr h.programBreakPoint < 2147483648 ∧
        ptBaseVaddr < h.programBreakPoint + sub32 addr h.programBreakPoint
    · obtain ⟨hlt, hover⟩ := hwrap
      rw [ptBaseVaddr] at hover
      have hsum : 4294967296 ≤ h.programBreakPoint + sub32 addr h.programBreakPoint := by
        simp only [sub32, u32] at hover ⊢
        omega
      exact ⟨_, _, hB.sbrk_wraps (by omega) hlt hsum⟩
    · obtain ⟨r, h', hs, -⟩ := hB.sbrk_run hO hK hdiff fun hlt => by omega
      exact ⟨r, h', hs⟩
  rw [brk]
  dsimp only
  rw [hs, Option.bind_eq_bind, Option.bind_some]
  dsimp only
  split
  · exact ⟨_, _, rfl⟩
  · exact ⟨_, _, rfl⟩

theorem InHeapStep.inBounds (hb : InBounds h) (hs : InHeapStep h c h') : InBounds h' := by
  obtain ⟨hlo, hpage, hle, hwin⟩ := hb
  obtain ⟨hs, hle', hwin'⟩ := hs
  have hst : h'.heapStart = h.heapStart := by
    cases hs with
    | sbrk hs => exact sbrk_heapStart hs
    | pmmAllocPage _ => rfl
    | pmmFreePage _ => rfl
    | vmmPageMap _ => rfl
    | vmmPageUnmap _ => rfl
    | write _ _ => rfl
  exact ⟨by omega, by omega, hle', hwin'⟩

/-- **`brk` sets the break or refuses** exactly for the addresses that it can reach: in
every state that calls lead to which leave the break in the heap. -/
theorem brk_sets {kernelEnd : Nat} {mbd : Multiboot} {cs : List MemoryCall}
    (hb : BootedHeap kernelEnd mbd h₀) (hrun : Trace InHeapStep h₀ cs h)
    (haddr : addr < 4294967296) :
    (∀ res h', brk addr h = some (res, h') →
      (SetsBreak h addr res h' ↔ ReachableAddr h addr)) ∧
    (Backed h → addr ≤ ptBaseVaddr → ∃ res h', brk addr h = some (res, h')) := by
  have hbounds : InBounds h := hrun.invariant hb.inBounds.1 fun _ _ _ hb hs => hs.inBounds hb
  refine ⟨?_, fun hback hle => hback.brk_returns hle⟩
  intro res h' hcall
  exact hbounds.brk_iff haddr hcall

/-- `brk(0xC0401000)`, and an address below the heap. -/
theorem brk_sets_page : ∃ h₀ h₁ h₂, BootedHeap 0xC0120000 (entryMap 64) h₀ ∧
    brk 0xC0401000 h₀ = some (0, h₁) ∧ SetsBreak h₀ 0xC0401000 0 h₁ ∧
    Trace InHeapStep h₀ [.sbrk 4096 0xC0400000] h₁ ∧
    brk 0xC0000000 h₁ = some (-1, h₂) ∧ SetsBreak h₁ 0xC0000000 (-1) h₂ := by
  obtain ⟨h₀, h₁, hboot, hgrow, hs, hb, -⟩ := exists_grown (show 0 < 4096 by decide) (by decide)
  have hb₀ : h₀.programBreakPoint = 0xC0400000 := hboot.inBounds.2
  have hrun : Trace InHeapStep h₀ [.sbrk 4096 0xC0400000] h₁ :=
    .single ⟨.sbrk hgrow.call, hgrow.start, hgrow.window⟩
  have hset : brk 0xC0401000 h₀ = some (0, h₁) := by
    rw [brk, hb₀]
    dsimp only
    rw [show sub32 0xC0401000 0xC0400000 = 4096 by decide, hgrow.call]
    rfl
  have hrefused : brk 0xC0000000 h₁ = some (-1, h₁) := by
    rw [brk, hb]
    dsimp only
    rw [show sub32 0xC0000000 (0xC0400000 + 4096) = 0xFFBFF000 by decide,
      sbrk_refused (by rw [hb]; decide) (by decide) (by decide) (by rw [hb, hs]; decide)
        (by rw [hb]; decide)]
    rfl
  refine ⟨h₀, h₁, h₁, hboot, hset, ((brk_sets hboot .nil (by decide)).1 _ _ hset).mpr ?_, hrun,
    hrefused, ((brk_sets hboot hrun (by decide)).1 _ _ hrefused).mpr ?_⟩
  · exact ⟨fun _ => by rw [hb₀]; decide, fun _ hlt => by rw [hb₀] at hlt; exact absurd hlt (by decide)⟩
  · exact ⟨fun _ => by rw [hb]; decide, fun hle => by rw [hs] at hle; exact absurd hle (by decide)⟩

/-- `brk(0x10000000)` reports success, and the break is below the heap. -/
theorem brk_leaves_heap : ∃ h₀ h', BootedHeap 0xC0120000 (entryMap 64) h₀ ∧
    brk 0x10000000 h₀ = some (0, h') ∧ h'.programBreakPoint = 0x10000000 ∧
    ¬ SetsBreak h₀ 0x10000000 0 h' := by
  obtain ⟨h₀, hboot, hs, hb, -⟩ := exists_bootedHeap (n := 64) (by decide) (by decide)
  have hcall : brk 0x10000000 h₀ = some (0, { h₀ with programBreakPoint := 0x10000000 }) := by
    rw [brk, hb]
    dsimp only
    rw [show sub32 0x10000000 0xC0400000 = 0x4FC00000 by decide,
      hboot.inBounds.1.sbrk_wraps (by decide) (by decide) (by rw [hb]; decide), hb]
    rfl
  refine ⟨h₀, _, hboot, hcall, rfl, fun hset => ?_⟩
  have := (hset.sets rfl).1
  rw [hs] at this
  exact absurd this (by decide)

end Brk

end ChoOS
