import ChoOS.Heap.Honest
import ChoOS.Heap.Overlap
import ChoOS.Paging.Account

/-!
# Where the break goes

`sbrk` alone, called with any increments.  `SbrkMoves h increment r h'` is what
`heap.h` promises of one call: a call that does not fail returns the old break
and moves it by the increment, and one that fails leaves it.

The two directions differ.  `increment_brk` assigns the sum, which may have
wrapped or lie in the recursive window; `decrement_brk` steps down by whole
pages and never assigns the difference (`UnmapRun.break_eq`).  `ExactCall` is
what a call must be for the promise to hold, and `sbrk_exact` says that it is
both enough and needed, from every state that such calls lead to.
-/

namespace ChoOS

/-- The heap after `pmm_directory_init` and `heap_init`, for an image that starts
where the linker script puts it. -/
structure BootedHeap (kernelEnd : Nat) (mbd : Multiboot) (h₀ : Heap Machine) : Prop where
  image : 0xC0100000 ≤ kernelEnd ∧ kernelEnd < 4294967296
  boot : ∃ magic mem s t ram m, pmmDirectoryInit magic kernelEnd mbd mem = some (s, t) ∧
    heapInit kernelEnd m (Machine.start s t ram) = some h₀

/-- The value of a word as an `intptr_t`. -/
def signed (w : Nat) : Int := if w < 2147483648 then w else (w : Int) - 4294967296

/-- What `heap.h` says about a call of `sbrk`. -/
structure SbrkMoves (h : Heap Machine) (increment r : Nat) (h' : Heap Machine) : Prop where
  fails : r = sbrkFailed → h'.programBreakPoint = h.programBreakPoint
  returns : r ≠ sbrkFailed → r = h.programBreakPoint
  moves : r ≠ sbrkFailed → (h'.programBreakPoint : Int) = h.programBreakPoint + signed increment
  bounds : r ≠ sbrkFailed →
    h'.heapStart ≤ h'.programBreakPoint ∧ h'.programBreakPoint ≤ ptBaseVaddr

/-- A growth that ends below the recursive window, or a shrink by whole pages. -/
def ExactCall (h : Heap Machine) (increment : Nat) : Prop :=
  if increment < 2147483648 then h.programBreakPoint + increment ≤ ptBaseVaddr
  else 4096 ∣ 4294967296 - increment

/-- A call with its result. -/
structure SbrkCall where
  increment : Nat
  result : Nat

/-- One call of `sbrk` that returns. -/
structure SbrkStep (h : Heap Machine) (e : SbrkCall) (h' : Heap Machine) : Prop where
  word : e.increment < 4294967296
  call : sbrk e.increment h = some (e.result, h')

/-- A call that is exact if it is granted. -/
structure ExactStep (h : Heap Machine) (e : SbrkCall) (h' : Heap Machine) : Prop
    extends SbrkStep h e h' where
  exact : e.result ≠ sbrkFailed → ExactCall h e.increment

section Break

variable {h h' h₀ : Heap Machine} {ok : Bool} {top n vaddr new increment r : Nat} {e : SbrkCall}

theorem MapRounds.break_eq (hrun : MapRounds top vaddr h ok h') :
    h'.programBreakPoint = h.programBreakPoint ∧ h'.heapStart = h.heapStart := by
  induction hrun with
  | done _ => exact ⟨rfl, rfl⟩
  | noPage _ _ => exact ⟨rfl, rfl⟩
  | noTable _ _ _ _ => exact ⟨rfl, rfl⟩
  | page _ _ _ _ ih => exact ih

/-- **The unmapping loop** moves the break down by whole pages. -/
theorem UnmapRun.break_eq {as : List Nat} (hrun : UnmapRun new h as h')
    (hlo : 4096 ≤ h.programBreakPoint) (hlt : h.programBreakPoint < 4294967296)
    (hnew : 4096 ≤ new) (hle : new ≤ h.programBreakPoint) :
    h'.programBreakPoint
      = h.programBreakPoint - (h.programBreakPoint - new) / 4096 * 4096 := by
  induction hrun with
  | @done h hpage =>
    rw [show sub32 h.programBreakPoint pageSize = h.programBreakPoint - 4096 from
      sub32_of_le hlo hlt] at hpage
    omega
  | @page h h' as res e hpage _ _ ih =>
    rw [show sub32 h.programBreakPoint pageSize = h.programBreakPoint - 4096 from
      sub32_of_le hlo hlt] at hpage ih
    refine (ih (by dsimp only; omega) (by dsimp only; omega) (by dsimp only; omega)).trans ?_
    dsimp only
    omega

theorem UnmapRun.heapStart_eq {as : List Nat} (hrun : UnmapRun new h as h') :
    h'.heapStart = h.heapStart := by
  induction hrun with
  | done _ => rfl
  | page _ _ _ ih => exact ih

theorem sbrk_heapStart (hs : sbrk increment h = some (r, h')) : h'.heapStart = h.heapStart := by
  cases sbrk_done hs with
  | zero _ => rfl
  | noPages _ _ _ => rfl
  | grown _ _ _ hrun => exact hrun.break_eq.2
  | failed _ _ _ hrun => exact hrun.break_eq.2
  | refused _ _ => rfl
  | shrunk _ _ hrun => exact hrun.heapStart_eq

theorem sbrk_break_cases (hlo : 3221225472 ≤ h.heapStart) (hle : h.heapStart ≤ h.programBreakPoint)
    (hhi : h.programBreakPoint ≤ ptBaseVaddr) (hw : increment < 4294967296)
    (hs : sbrk increment h = some (r, h')) :
    h'.heapStart = h.heapStart ∧
    ((r = sbrkFailed ∧ h'.programBreakPoint = h.programBreakPoint) ∨
     (r = h.programBreakPoint ∧ increment < 2147483648 ∧
      h'.programBreakPoint = u32 (h.programBreakPoint + increment)) ∨
     (r = h.programBreakPoint ∧ 2147483648 ≤ increment ∧
      h.heapStart + (4294967296 - increment) ≤ h.programBreakPoint ∧
      h'.programBreakPoint = h.programBreakPoint
        - (4294967296 - increment) / 4096 * 4096)) := by
  have hhi : h.programBreakPoint ≤ 4290772992 := hhi
  refine ⟨sbrk_heapStart hs, ?_⟩
  cases sbrk_done hs with
  | zero h0 => exact .inr (.inl ⟨rfl, by omega, by rw [h0, u32_of_lt (by omega)]; rfl⟩)
  | noPages _ hlt _ => exact .inr (.inl ⟨rfl, hlt, rfl⟩)
  | grown _ hlt _ _ => exact .inr (.inl ⟨rfl, hlt, rfl⟩)
  | failed _ _ _ hrun => exact .inl ⟨rfl, hrun.break_eq.1⟩
  | refused _ _ => exact .inl ⟨rfl, rfl⟩
  | shrunk hneg hroom hrun =>
    have hnew : sub32 h.programBreakPoint (4294967296 - increment)
        = h.programBreakPoint - (4294967296 - increment) := sub32_of_le (by omega) (by omega)
    rw [hnew] at hroom hrun
    have hb := hrun.break_eq (by omega) (by omega) (by omega) (by omega)
    refine .inr (.inr ⟨rfl, hneg, by omega, hb.trans ?_⟩)
    rw [Nat.sub_sub_self (by omega)]

/-- The bounds that exact calls keep. -/
structure InBounds (h : Heap Machine) : Prop where
  kernel : 3222274048 ≤ h.heapStart
  page : h.heapStart % 4096 = 0
  start : h.heapStart ≤ h.programBreakPoint
  window : h.programBreakPoint ≤ ptBaseVaddr

theorem BootedHeap.inBounds {kernelEnd : Nat} {mbd : Multiboot} (hb : BootedHeap kernelEnd mbd h₀) :
    InBounds h₀ ∧ h₀.programBreakPoint = 3225419776 := by
  obtain ⟨⟨hlo, hhi⟩, magic, mem, s, t, ram, m, hdir, hinit⟩ := hb
  obtain ⟨hstart, hbrk, hI⟩ := heapInit_spec hinit
  have hpage := heapStartAddr_page kernelEnd
  have hframe := (directory_in_heap hdir).1
  have hlt := (directory_in_heap hdir).2
  have hbd := HeapInv.bounds hI (List.mem_singleton.mpr rfl)
  refine ⟨⟨?_, by rw [hstart]; exact hpage, by omega, by rw [hbrk]; decide⟩, hbrk⟩
  simp only [v2p, sub32, u32, kernelVirtOffset] at hframe
  rw [hstart]
  rw [heapStartAddr] at hframe hpage ⊢
  split at hframe
  · rename_i hk
    rw [if_pos hk]
    simp only [pageRoundDown, u32, pageSize] at hframe ⊢
    omega
  · rename_i hk
    rw [if_neg hk]
    exact hlo

theorem InBounds.moves_iff (hb : InBounds h) (hw : increment < 4294967296)
    (hs : sbrk increment h = some (r, h')) :
    SbrkMoves h increment r h' ↔ (r ≠ sbrkFailed → ExactCall h increment) := by
  obtain ⟨hlo, -, hle, hhi⟩ := hb
  have hmax : h.programBreakPoint ≤ 4290772992 := hhi
  obtain ⟨hst, ⟨rfl, hbrk⟩ | ⟨rfl, hpos, hbrk⟩ | ⟨rfl, hneg, hroom, hbrk⟩⟩ :=
    sbrk_break_cases (by omega) hle hhi hw hs
  · exact ⟨fun _ h0 => absurd rfl h0, fun _ => ⟨fun _ => hbrk, fun h0 => absurd rfl h0,
      fun h0 => absurd rfl h0, fun h0 => absurd rfl h0⟩⟩
  · -- the sum is assigned, modulo `2 ^ 32`
    have hne : h.programBreakPoint ≠ sbrkFailed := by rw [sbrkFailed]; omega
    have hsum : u32 (h.programBreakPoint + increment) ≤ ptBaseVaddr ∧
        (u32 (h.programBreakPoint + increment) : Int) = h.programBreakPoint + increment ↔
        h.programBreakPoint + increment ≤ ptBaseVaddr := by
      rw [u32, ptBaseVaddr]
      omega
    have hsigned : signed increment = increment := if_pos hpos
    rw [ExactCall, if_pos hpos, ← hsum]
    constructor
    · intro hm _
      rw [← hbrk, ← hsigned]
      exact ⟨(hm.bounds hne).2, hm.moves hne⟩
    · intro hc
      obtain ⟨hwin, heq⟩ := hc hne
      refine ⟨fun h0 => absurd h0 hne, fun _ => rfl, fun _ => by rw [hbrk, hsigned, heq], fun _ => ?_⟩
      rw [hst, hbrk]
      exact ⟨by omega, hwin⟩
  · -- the break moves by whole pages only
    have hne : h.programBreakPoint ≠ sbrkFailed := by rw [sbrkFailed]; omega
    have hsigned : signed increment = (increment : Int) - 4294967296 := if_neg (by omega)
    rw [ExactCall, if_neg (by omega)]
    constructor
    · intro hm _
      have := hm.moves hne
      rw [hbrk, hsigned] at this
      omega
    · intro hc
      have hdvd := hc hne
      refine ⟨fun h0 => absurd h0 hne, fun _ => rfl, fun _ => ?_, fun _ => ?_⟩
      · rw [hbrk, hsigned]
        omega
      · rw [hst, hbrk, ptBaseVaddr]
        omega

theorem ExactStep.inBounds (hb : InBounds h) (he : ExactStep h e h') : InBounds h' := by
  obtain ⟨hlo, hpage, hle, hhi⟩ := hb
  obtain ⟨hst, hcases⟩ := sbrk_break_cases (by omega) hle hhi he.word he.call
  have hm := (InBounds.moves_iff ⟨hlo, hpage, hle, hhi⟩ he.word he.call).mpr he.exact
  have hbound : h'.heapStart ≤ h'.programBreakPoint ∧ h'.programBreakPoint ≤ ptBaseVaddr := by
    by_cases h0 : e.result = sbrkFailed
    · rw [hst, hm.fails h0]
      exact ⟨hle, hhi⟩
    · exact hm.bounds h0
  exact ⟨by rw [hst]; exact hlo, by rw [hst]; exact hpage, hbound.1, hbound.2⟩

/-- **`sbrk` moves the break by what it reports** exactly when every granted call
is exact: in every state of every run of such calls, whatever is called next. -/
theorem sbrk_exact {kernelEnd : Nat} {mbd : Multiboot} {es : List SbrkCall}
    (hb : BootedHeap kernelEnd mbd h₀) (hrun : Trace ExactStep h₀ es h)
    (he : SbrkStep h e h') :
    SbrkMoves h e.increment e.result h' ↔ (e.result ≠ sbrkFailed → ExactCall h e.increment) :=
  (hrun.invariant hb.inBounds.1 fun _ _ _ hb he => he.inBounds hb).moves_iff he.word he.call

theorem bootedHeap_oneEntry (hinit : heapInit 0xC0120000 (fun _ => 0)
    (Machine.start oneEntryInit.1 oneEntryInit.2 fun _ => 0) = some h₀) :
    BootedHeap 0xC0120000 oneEntryMap h₀ :=
  ⟨by decide, _, _, _, _, _, _, oneEntryInit_eq, hinit⟩

/-- The heap of a machine with `n` frames at 2 MiB, two of which are taken. -/
theorem exists_bootedHeap {n : Nat} (htwo : 2 ≤ n) (hn : n < 511) :
    ∃ h₀, BootedHeap 0xC0120000 (entryMap n) h₀ ∧ h₀.heapStart = 0xC0120000 ∧
      h₀.programBreakPoint = 0xC0400000 ∧ h₀.env.frames.Refills ∧
      h₀.env.frames.clear ⊆ Finset.Ico 512 (512 + n) ∧ h₀.env.frames.clear.card + 2 = n := by
  obtain ⟨s, t, hdir, hr, hsub, hcard⟩ := pmmDirectoryInit_entryMap htwo hn fun _ => .zero
  obtain ⟨h₀, hh⟩ : ∃ h₀, heapInit 0xC0120000 (fun _ => 0) (Machine.start s t fun _ => 0)
      = some h₀ := ⟨_, rfl⟩
  obtain ⟨hstart, hbrk, -⟩ := heapInit_spec hh
  have henv := heapInit_env hh
  refine ⟨h₀, ⟨by decide, _, _, s, t, _, _, hdir, hh⟩, hstart, hbrk, ?_, ?_, ?_⟩ <;> rw [henv]
  · exact hr
  · exact hsub
  · exact hcard

theorem sbrk_minus_one {h₀ : Heap Machine} (hs : h₀.heapStart = 0xC0120000)
    (hb : h₀.programBreakPoint = 0xC0400000) :
    sbrk 0xFFFFFFFF h₀ = some (0xC0400000, h₀) := by
  rw [sbrk, if_neg (by decide), if_neg (by decide), decrementBrk, hs, hb, if_neg (by decide)]
  rw [show pageFuel = 1048576 + 1 from rfl, unmapPages, hb, if_neg (by decide)]
  rfl

/-- `sbrk(-1)` reports success and does not move the break. -/
theorem sbrk_stuck : ∃ h₀ h', BootedHeap 0xC0120000 (entryMap 64) h₀ ∧
    SbrkStep h₀ ⟨0xFFFFFFFF, 0xC0400000⟩ h' ∧ ¬ SbrkMoves h₀ 0xFFFFFFFF 0xC0400000 h' := by
  obtain ⟨h₀, hboot, hs, hb, -⟩ := exists_bootedHeap (n := 64) (by decide) (by decide)
  refine ⟨h₀, h₀, hboot, ⟨by decide, sbrk_minus_one hs hb⟩, fun hm => ?_⟩
  have := hm.moves (by decide)
  rw [show signed 0xFFFFFFFF = -1 from rfl] at this
  omega

end Break

end ChoOS
