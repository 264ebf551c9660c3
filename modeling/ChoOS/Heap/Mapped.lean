import ChoOS.Heap.Loops

/-!
# What is mapped below the break

`heap_init` starts with every page below the break mapped, and the heap reads
and writes there without looking at the tables again.  `MappedBelow` is what it
relies on, in every state of a run of granted `sbrk` calls.

A growth keeps it: `increment_brk` maps from the rounded break on.  A shrink
does not round.  It unmaps the page at `program_break_point - PAGE_SIZE`, and
when the break is inside a page this is a page that the new break still needs.
So `mapped_below_break` needs a shrink that unmaps pages to start on a page
boundary, and a call that does not is always wrong.
-/

namespace ChoOS

open Tables

/-- **Everything below the break is mapped.** -/
def MappedBelow (h : Heap Machine) : Prop :=
  ∀ v, h.heapStart ≤ v → v < h.programBreakPoint → (h.env.tables.walk v).isSome

/-- A granted call that leaves the break in the heap. -/
structure GrantedStep (h : Heap Machine) (e : SbrkCall) (h' : Heap Machine) : Prop
    extends SbrkStep h e h' where
  granted : e.result ≠ sbrkFailed
  start : h'.heapStart ≤ h'.programBreakPoint
  window : h'.programBreakPoint ≤ ptBaseVaddr

/-- A shrink that unmaps pages starts on a page boundary. -/
def AlignedCall (h : Heap Machine) (increment : Nat) : Prop :=
  2147483648 ≤ increment → 4096 ≤ 4294967296 - increment → h.programBreakPoint % 4096 = 0

/-- The frames that a shrink frees hold no table and do not wait to be issued. -/
def FreesSpare (h : Heap Machine) (increment : Nat) : Prop :=
  2147483648 ≤ increment → ∀ q,
    h.programBreakPoint / 4096 - (4294967296 - increment) / 4096 ≤ q →
    q < h.programBreakPoint / 4096 → h.env.Spare (q - 786432)

/-- A granted call that shrinks from a page boundary and frees spare frames. -/
structure AlignedStep (h : Heap Machine) (e : SbrkCall) (h' : Heap Machine) : Prop
    extends GrantedStep h e h' where
  aligned : AlignedCall h e.increment
  spare : FreesSpare h e.increment

/-- The tables and the frames are in order behind the heap. -/
structure Backed (h : Heap Machine) : Prop where
  bounds : InBounds h
  kernel : h.env.tables.KernelTable
  ok : ∃ held, h.env.Ok held

section Mapped

variable {h h' h₀ : Heap Machine} {e : SbrkCall} {increment r : Nat}

theorem BootedHeap.backed {kernelEnd : Nat} {mbd : Multiboot} (hb : BootedHeap kernelEnd mbd h₀) :
    Backed h₀ ∧ ∀ v, 3221225472 ≤ v → v < 3225419776 →
      h₀.env.tables.walk v = some ⟨frameOf (v - 3221225472), true, false⟩ := by
  have hbounds := hb.inBounds.1
  obtain ⟨-, magic, mem, s, t, ram, m, hdir, hinit⟩ := hb
  obtain ⟨d, c, hd⟩ := pmmDirectoryInit_spec hdir
  obtain ⟨hK, hwalk⟩ := pmmDirectoryInit_walk hdir
  have henv := heapInit_env hinit
  refine ⟨⟨hbounds, ?_, ?_⟩, ?_⟩ <;> rw [henv]
  · exact hK
  · exact ⟨_, Machine.start_ok hd ram⟩
  · exact hwalk

theorem Tables.walk_page {t : Tables} {u v : Nat} (hp : u / 4096 = v / 4096) :
    t.walk u = t.walk v := by
  rw [walk, walk, show u / 4194304 = v / 4194304 by omega, hp]

theorem SbrkStep.run (hb : Backed h) (he : SbrkStep h e h')
    (hwin : e.increment < 2147483648 → h.programBreakPoint + e.increment ≤ ptBaseVaddr) :
    SbrkRun h e.increment e.result h' := by
  obtain ⟨hB, hK, held, hO⟩ := hb
  obtain ⟨r, h₁, hs, hrun⟩ := hB.sbrk_run hO hK he.word hwin
  obtain ⟨rfl, rfl⟩ := Prod.mk.inj (Option.some.inj (hs.symm.trans he.call))
  exact hrun

theorem GrantedStep.run (hb : Backed h) (he : GrantedStep h e h') :
    SbrkRun h e.increment e.result h' := by
  have hB := hb.bounds
  have hlo := hB.kernel
  have hhi : h.programBreakPoint ≤ 4290772992 := hB.window
  have hwin : e.increment < 2147483648 → h.programBreakPoint + e.increment ≤ ptBaseVaddr := by
    intro hpos
    obtain ⟨hst, hcases⟩ :=
      sbrk_break_cases (by omega) hB.start hB.window he.word he.call
    have hs := he.start
    have hw : h'.programBreakPoint ≤ 4290772992 := he.window
    rcases hcases with ⟨hr, -⟩ | ⟨-, -, hbrk⟩ | ⟨-, hneg, -⟩
    · exact absurd hr he.granted
    · -- a sum that wraps is below the heap
      rw [u32] at hbrk
      rw [ptBaseVaddr]
      have := hB.start
      omega
    · omega
  exact he.toSbrkStep.run hb hwin

/-- A shrink from inside a page unmaps the page that the new break is in. -/
theorem GrantedStep.aligned_of_mapped (hb : Backed h) (he : GrantedStep h e h')
    (hm' : MappedBelow h') : AlignedCall h e.increment := by
  obtain ⟨hlo, hpage, hle, hwin⟩ := hb.bounds
  have hhi : h.programBreakPoint ≤ 4290772992 := hwin
  have hgranted := he.granted
  have hrun := he.run hb
  generalize e.increment = inc at hrun ⊢
  generalize e.result = res at hrun hgranted
  intro hneg hwhole
  cases hrun with
  | zero _ => omega
  | grow _ _ _ _ _ _ _ => omega
  | refused _ _ => exact absurd rfl hgranted
  | shrink _ hroom ht _ hst hbrk =>
    by_contra hr
    have := hm' (h'.programBreakPoint / 4096 * 4096) (by omega) (by omega)
    rw [ht.walk _ ⟨by omega, by omega⟩, if_pos (by omega)] at this
    cases this

theorem GrantedStep.mapped (hb : Backed h) (he : GrantedStep h e h')
    (hal : AlignedCall h e.increment) (hm : MappedBelow h) : MappedBelow h' := by
  obtain ⟨hlo, hpage, hle, hwin⟩ := hb.bounds
  have hhi : h.programBreakPoint ≤ 4290772992 := hwin
  have hgranted := he.granted
  have hnew : h'.programBreakPoint ≤ 4290772992 := he.window
  have hrun := he.run hb
  generalize e.increment = inc at hrun hal
  generalize e.result = res at hrun hgranted
  intro v hv hv'
  cases hrun with
  | zero _ => exact hm v hv hv'
  | @grow ok _ _ _ hrun _ _ hst hbrk =>
    cases ok with
    | false => exact absurd rfl hgranted
    | true =>
      rw [if_pos rfl] at hbrk
      obtain ⟨hcal, hcle, hclt, -⟩ := pageRoundUp_bounds hhi
      obtain ⟨-, htle, -, -⟩ :=
        pageRoundUp_bounds (show h.programBreakPoint + inc ≤ 4290772992 by omega)
      obtain ⟨hsame, hall⟩ := hrun.mapped hcal
      have hvp : HeapPage v := ⟨by omega, by omega⟩
      by_cases hcur : v < pageRoundUp h.programBreakPoint
      · rw [hsame v hvp hcur]
        by_cases hold : v < h.programBreakPoint
        · exact hm v (by omega) hold
        · -- the rest of the page that the old break was in
          rw [Tables.walk_page (show v / 4096 = (h.programBreakPoint - 1) / 4096 by omega)]
          exact hm _ (by omega) (by omega)
      · exact hall rfl v hvp (by omega) (by omega)
  | refused _ _ => exact absurd rfl hgranted
  | shrink hneg hroom ht _ hst hbrk =>
    have hal := hal hneg
    rw [ht.walk v ⟨by omega, by omega⟩, if_neg (by omega)]
    exact hm v (by omega) (by omega)

theorem AlignedStep.backed (hb : Backed h) (he : AlignedStep h e h') : Backed h' := by
  obtain ⟨hlo, hpage, hle, hwin⟩ := hb.bounds
  have hgranted := he.granted
  have hspare := he.spare
  have hstart := he.start
  have hwindow := he.window
  have hrun := he.run hb
  generalize e.increment = inc at hrun hspare
  generalize e.result = res at hrun hgranted
  cases hrun with
  | zero _ => exact hb
  | grow _ _ _ hO hK hst _ =>
    exact ⟨⟨by omega, by omega, hstart, hwindow⟩, hK, hO⟩
  | refused _ _ => exact absurd rfl hgranted
  | shrink hneg hroom ht hf hst hbrk =>
    obtain ⟨held, hO⟩ := hb.ok
    refine ⟨⟨by omega, by omega, hstart, hwindow⟩, ?_, _, hO.shrink ht hf (by omega) (hspare hneg)⟩
    rw [KernelTable, ht.fixed 768 (by decide)]
    exact hb.kernel

/-- **Everything below the break stays mapped** over runs of aligned calls, and
the next granted call keeps it exactly if it is aligned. -/
theorem mapped_below_break {kernelEnd : Nat} {mbd : Multiboot} {es : List SbrkCall}
    (hb : BootedHeap kernelEnd mbd h₀) (hrun : Trace AlignedStep h₀ es h) :
    MappedBelow h ∧ ∀ e h', GrantedStep h e h' → (MappedBelow h' ↔ AlignedCall h e.increment) := by
  obtain ⟨hback, hwalk⟩ := hb.backed
  obtain ⟨hbounds, hbrk⟩ := hb.inBounds
  have hlo := hbounds.kernel
  have hm₀ : MappedBelow h₀ := by
    intro v hv hv'
    rw [hwalk v (by omega) (by omega)]
    rfl
  have hinv : Backed h ∧ MappedBelow h := by
    refine hrun.invariant (I := fun h => Backed h ∧ MappedBelow h) ⟨hback, hm₀⟩ ?_
    rintro h e h' ⟨hb, hm⟩ he
    exact ⟨he.backed hb, he.toGrantedStep.mapped hb he.aligned hm⟩
  exact ⟨hinv.2, fun e h' he => ⟨he.aligned_of_mapped hinv.1, fun hal => he.mapped hinv.1 hal hinv.2⟩⟩

theorem exists_grown (hpos : 0 < increment) (hle : increment ≤ 4096) :
    ∃ h₀ h₁, BootedHeap 0xC0120000 (entryMap 64) h₀ ∧
      GrantedStep h₀ ⟨increment, 0xC0400000⟩ h₁ ∧ h₁.heapStart = 0xC0120000 ∧
      h₁.programBreakPoint = 0xC0400000 + increment ∧ Backed h₁ ∧
      ∃ f, 512 ≤ f ∧ f < 576 ∧
        h₁.env.tables.walk 0xC0400000 = some ⟨frameOf (f * 4096), true, false⟩ := by
  obtain ⟨h₀, hboot, hs, hbrk, hr, hsub, hcard⟩ := exists_bootedHeap (n := 64) (by decide)
    (by decide)
  obtain ⟨⟨hB, hK, held, hO⟩, -⟩ := hboot.backed
  have h0 := hO.null
  have hend : h₀.programBreakPoint + increment ≤ ptBaseVaddr := by
    rw [hbrk, ptBaseVaddr]
    omega
  have hcur : pageRoundUp h₀.programBreakPoint = 0xC0400000 := by
    rw [hbrk]
    decide
  have htop : pageRoundUp (h₀.programBreakPoint + increment) = 0xC0400000 + 4096 := by
    rw [hbrk, pageRoundUp, u32_of_lt (by omega)]
    omega
  obtain ⟨r, h₁, hcall, hrun⟩ := hB.sbrk_run hO hK (show increment < 4294967296 by omega)
    fun _ => hend
  cases hrun with
  | zero h0 => omega
  | @grow ok h₁ _ _ hrun hO₁ hK₁ hst hb =>
    rw [hcur, htop] at hrun
    obtain ⟨rfl, f, hf, hwalk⟩ := hrun.of_batch h0 hr (by omega)
    rw [if_pos rfl, hbrk] at hb hcall
    have hf := Finset.mem_Ico.mp (hsub hf)
    have hne : (0xC0400000 : Nat) ≠ sbrkFailed := by decide
    refine ⟨h₀, h₁, hboot, ⟨⟨by dsimp only; omega, hcall⟩, hne, ?_, ?_⟩, ?_, hb,
      ⟨⟨?_, ?_, ?_, ?_⟩, hK₁, hO₁⟩, f, hf.1, hf.2, hwalk⟩ <;> rw [ptBaseVaddr] at * <;> omega
  | refused _ _ => omega
  | shrink _ _ _ _ _ _ => omega

theorem Backed.exists_shrink (hb : Backed h) (hneg : 2147483648 ≤ increment)
    (hw : increment < 4294967296)
    (hroom : h.heapStart + (4294967296 - increment) ≤ h.programBreakPoint) :
    ∃ h', GrantedStep h ⟨increment, h.programBreakPoint⟩ h' ∧
      PagesUnmapped h.env.tables h'.env.tables
        (h.programBreakPoint / 4096 - (4294967296 - increment) / 4096)
        (h.programBreakPoint / 4096) ∧
      FramesFreed h.env.frames h'.env.frames
        (h.programBreakPoint / 4096 - (4294967296 - increment) / 4096)
        (h.programBreakPoint / 4096) := by
  obtain ⟨hB, hK, held, hO⟩ := hb
  obtain ⟨r, h', hcall, hrun⟩ := hB.sbrk_run hO hK hw fun hpos => by omega
  have hhi : h.programBreakPoint ≤ 4290772992 := hB.window
  have hne : h.programBreakPoint ≠ sbrkFailed := by
    rw [sbrkFailed]
    omega
  cases hrun with
  | zero _ => omega
  | grow _ _ _ _ _ _ _ => omega
  | refused _ _ => omega
  | shrink _ _ ht hf hst hbrk =>
    refine ⟨h', ⟨⟨hw, hcall⟩, hne, by omega, ?_⟩, ht, hf⟩
    rw [ptBaseVaddr]
    omega

theorem sbrk_exact_page : ∃ h₀ h₁ h₂, BootedHeap 0xC0120000 (entryMap 64) h₀ ∧
    Trace ExactStep h₀ [⟨4096, 0xC0400000⟩] h₁ ∧ SbrkStep h₁ ⟨0xFFFFF000, 0xC0401000⟩ h₂ ∧
    SbrkMoves h₁ 0xFFFFF000 0xC0401000 h₂ ∧ h₁.programBreakPoint = 0xC0401000 ∧
    h₂.programBreakPoint = 0xC0400000 := by
  obtain ⟨h₀, h₁, hboot, hgrow, hs, hbrk, hb, -⟩ := exists_grown (show 0 < 4096 by decide) (by decide)
  obtain ⟨h₂, hshrink, -⟩ := hb.exists_shrink (show 2147483648 ≤ 0xFFFFF000 by decide) (by decide)
    (by rw [hs, hbrk]; decide)
  rw [hbrk] at hshrink
  have hexact : ExactStep h₀ ⟨4096, 0xC0400000⟩ h₁ := by
    refine ⟨hgrow.toSbrkStep, fun _ => ?_⟩
    rw [ExactCall, if_pos (by decide), (BootedHeap.inBounds hboot).2]
    decide
  have hmoves := (sbrk_exact hboot (.single hexact) hshrink.toSbrkStep).mpr fun _ => by
    rw [ExactCall, if_neg (by decide)]
    decide
  refine ⟨h₀, h₁, h₂, hboot, .single hexact, hshrink.toSbrkStep, hmoves, hbrk, ?_⟩
  have hmoved := hmoves.moves (by decide)
  rw [hbrk, show signed 0xFFFFF000 = -4096 from rfl] at hmoved
  omega

theorem mapped_below_break_ten : ∃ h₀ h₁, BootedHeap 0xC0120000 (entryMap 64) h₀ ∧
    Trace AlignedStep h₀ [⟨10, 0xC0400000⟩] h₁ ∧ MappedBelow h₁ := by
  obtain ⟨h₀, h₁, hboot, hgrow, -⟩ := exists_grown (show 0 < 10 by decide) (by decide)
  have hrun : Trace AlignedStep h₀ [⟨10, 0xC0400000⟩] h₁ :=
    .single ⟨hgrow, fun h => absurd h (by decide), fun h => absurd h (by decide)⟩
  exact ⟨h₀, h₁, hboot, hrun, (mapped_below_break hboot hrun).1⟩

/-- `sbrk(10)`, then `sbrk(-4096)`: the page that the break is in is gone. -/
theorem break_page_unmapped : ∃ h₀ h₁ h₂, BootedHeap 0xC0120000 (entryMap 64) h₀ ∧
    GrantedStep h₀ ⟨10, 0xC0400000⟩ h₁ ∧ GrantedStep h₁ ⟨0xFFFFF000, 0xC040000A⟩ h₂ ∧
    ¬ MappedBelow h₂ := by
  obtain ⟨h₀, h₁, hboot, hgrow, hs, hbrk, hb, -⟩ := exists_grown (show 0 < 10 by decide) (by decide)
  obtain ⟨h₂, hshrink, -⟩ := hb.exists_shrink (show 2147483648 ≤ 0xFFFFF000 by decide) (by decide)
    (by rw [hs, hbrk]; decide)
  rw [hbrk] at hshrink
  refine ⟨h₀, h₁, h₂, hboot, hgrow, hshrink, fun hm => ?_⟩
  have hal := hshrink.aligned_of_mapped hb hm (by decide) (by decide)
  rw [hbrk] at hal
  exact absurd hal (by decide)

end Mapped

end ChoOS
