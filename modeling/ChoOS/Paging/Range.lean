import ChoOS.Paging.Account
import ChoOS.Paging.Machine

/-!
# Mapping a range

`vmm_page_map_range` calls `vmm_page_map` once for each page of the range, but
with the same two addresses every time.  So a call that returns `0` has mapped
the first page `count` times and no other page (`Ok.vmmPageMapRange`), and it
has mapped the range only where nothing was left to do: `count` is at most one,
or the other pages were there before (`range_mapped`).

`PagingStep` are the calls of the frame allocator and of `vmm.c` that lead to
the state in which the range is mapped.
-/

namespace ChoOS

open Tables

namespace Machine

/-- `vmm_page_map_range`, with `count` turns of its loop to go. -/
def vmmPageMapRange (physStart virtStart flags : Nat) : Nat → Machine → Option (Int × Machine)
  | 0, e => some (0, e)
  | count + 1, e => do
    let (res, e) ← e.vmmPageMap physStart virtStart flags
    if res ≠ 0 then return (1, e)
    else vmmPageMapRange physStart virtStart flags count e

end Machine

/-- What a call of `vmm_page_map_range` is for. -/
structure RangeMapped (t t' : Tables) (phys virt count flags : Nat) : Prop where
  pages : ∀ i < count, ∀ v, v / 4096 = virt / 4096 + i →
    t'.walk v = some ⟨frameOf (phys + i * 4096), flags.testBit 1, flags.testBit 2⟩
  others : ∀ v < ptBaseVaddr, (∀ i < count, v / 4096 ≠ virt / 4096 + i) → t'.walk v = t.walk v

/-- The pages of the range behind the first one are mapped as they should be. -/
def RestMapped (t : Tables) (phys virt count flags : Nat) : Prop :=
  ∀ i, 1 ≤ i → i < count → ∀ v, v / 4096 = virt / 4096 + i →
    t.walk v = some ⟨frameOf (phys + i * 4096), flags.testBit 1, flags.testBit 2⟩

/-- The range does not wrap, and stays off the kernel's own tables and the window. -/
def MappableRange (virt count : Nat) : Prop :=
  ∀ v, virt ≤ v → v < virt + count * 4096 → Mappable v

section Loop

variable {t t₁ t₂ : Tables} {e e' : Machine} {held : Set Nat} {phys virt count flags : Nat}
variable {res : Int}

theorem MappableRange.first (hr : MappableRange virt count) (hc : 0 < count) : Mappable virt := by
  apply hr virt (Nat.le_refl _)
  omega

theorem MappableRange.init (hr : MappableRange virt (count + 1)) : MappableRange virt count := by
  intro v hlo hhi
  refine hr v hlo (Nat.lt_of_lt_of_le hhi ?_)
  omega

theorem Tables.Mapped.again (h : Mapped t t₁ phys virt flags) (h' : Mapped t₁ t₂ phys virt flags) :
    Mapped t t₂ phys virt flags where
  page := h'.page
  others v hv hne := (h'.others v hv hne).trans (h.others v hv hne)
  cr3 := h'.cr3.trans h.cr3
  fixed i hi hne := (h'.fixed i hi hne).trans (h.fixed i hi hne)

namespace Machine

/-- There is no table for `virt`, and no frame to make one. -/
def NoTable (e : Machine) (virt : Nat) : Prop :=
  (e.tables.pde (virt / 4194304)).present = false ∧ e.pmmAllocPage.1 = 0

theorem Ok.vmmPageMap_mapped (hO : e.Ok held) (hv : Mappable virt)
    (h : e.vmmPageMap phys virt flags = some (res, e')) :
    (res = 0 ∧ Mapped e.tables e'.tables phys virt flags) ∨
      (res = enomem ∧ e.NoTable virt ∧ e'.tables = e.tables) := by
  obtain ⟨r, e₁, ha⟩ : ∃ r e₁, e.pmmAllocPage = (r, e₁) := ⟨_, _, rfl⟩
  have hfresh : e.pmmAllocPage.1 ≠ 0 → ¬ e.tables.InUse (frameOf e.pmmAllocPage.1) := by
    obtain ⟨-, -, -, hnew⟩ := hO.pmmAllocPage ha
    rw [ha]
    intro h0
    exact hO.not_inUse (hnew h0).1 (hnew h0).2.1
  obtain ⟨res', t', e₂, hm, -, hres⟩ :=
    vmmPageMap_spec Machine.pmmAllocPage e hO.tables hv hfresh phys flags
  have hrun : e.vmmPageMap phys virt flags = some (res', { e₂ with tables := t' }) := by
    rw [Machine.vmmPageMap, hm]
    rfl
  obtain ⟨rfl, rfl⟩ := Prod.mk.inj (Option.some.inj (h.symm.trans hrun))
  cases hres with
  | entry _ hmap _ => exact .inl ⟨rfl, hmap⟩
  | table _ _ hmap _ => exact .inl ⟨rfl, hmap⟩
  | noMemory hp h0 => exact .inr ⟨rfl, ⟨hp, h0⟩, rfl⟩

theorem not_noTable_of_walk {tr : Translation} (hlt : virt < 4294967296)
    (h : e.tables.walk virt = some tr) : ¬ e.NoTable virt := by
  intro hno
  rw [walk_of_no_table] at h
  · cases h
  · rw [show virt / 4194304 % 1024 = virt / 4194304 by omega]
    exact hno.1

/-- **The loop** returns; when it returns `0` it has done nothing, or mapped the
first page. -/
theorem Ok.vmmPageMapRange (phys flags : Nat) : ∀ (count : Nat), MappableRange virt count →
    ∀ (e : Machine) (held : Set Nat), e.Ok held →
    ∃ res e' held', e.vmmPageMapRange phys virt flags count = some (res, e') ∧
      e'.Ok held' ∧ held ⊆ held' ∧
      (∀ f, f * 4096 ∈ held → e'.tables.InUse f → e.tables.InUse f) ∧
      ((res = 0 ∧ (count = 0 ∧ e' = e ∨ 0 < count ∧ Mapped e.tables e'.tables phys virt flags)) ∨
        res = 1 ∧ e.NoTable virt) := by
  intro count
  induction count with
  | zero =>
    intro _ e held hO
    exact ⟨0, e, held, rfl, hO, subset_rfl, fun _ _ hu => hu, .inl ⟨rfl, .inl ⟨rfl, rfl⟩⟩⟩
  | succ n ih =>
    intro hr e held hO
    have hv : Mappable virt := hr.first (Nat.succ_pos n)
    obtain ⟨res, e₁, held₁, h₁, hO₁, hsub, -, huse⟩ := hO.vmmPageMap hv phys flags
    rcases hO.vmmPageMap_mapped hv h₁ with ⟨rfl, hm₁⟩ | ⟨rfl, hno, -⟩
    · obtain ⟨res, e', held', h', hO', hsub', huse', hres⟩ :=
        ih hr.init e₁ held₁ hO₁
      refine ⟨res, e', held', ?_, hO', hsub.trans hsub', ?_, ?_⟩
      · rw [Machine.vmmPageMapRange, h₁]
        exact h'
      · intro f hf hu
        exact huse f hf (huse' f (hsub hf) hu)
      · rcases hres with ⟨rfl, ⟨-, rfl⟩ | ⟨-, hm⟩⟩ | ⟨-, hno⟩
        · exact .inl ⟨rfl, .inr ⟨Nat.succ_pos _, hm₁⟩⟩
        · exact .inl ⟨rfl, .inr ⟨Nat.succ_pos _, hm₁.again hm⟩⟩
        · exact absurd hno (not_noTable_of_walk hv.lt (hm₁.page virt rfl))
    · refine ⟨1, e₁, held₁, ?_, hO₁, hsub, huse, .inr ⟨rfl, hno⟩⟩
      rw [Machine.vmmPageMapRange, h₁]
      rfl

end Machine

/-- **The range is mapped exactly when only its first page was left to map.** -/
theorem Tables.Mapped.range_iff (hm : Mapped t t₁ phys virt flags) (hc : 0 < count)
    (hr : MappableRange virt count) :
    RangeMapped t t₁ phys virt count flags ↔ count ≤ 1 ∨ RestMapped t phys virt count flags := by
  -- a page behind the first one is below the window, and `vmm_page_map` leaves it alone
  have hrest : ∀ i, 1 ≤ i → i < count → ∀ v, v / 4096 = virt / 4096 + i →
      t₁.walk v = t.walk v := by
    intro i hi hlt v hpage
    have hdir := (hr (virt + i * 4096) (by omega) (by omega)).dir_lt
    exact hm.others v (by rw [ptBaseVaddr]; omega) (by omega)
  constructor
  · intro h
    refine .inr ?_
    intro i hi hlt v hpage
    rw [← hrest i hi hlt v hpage]
    exact h.pages i hlt v hpage
  · intro h
    refine ⟨?_, ?_⟩
    · intro i hlt v hpage
      by_cases hi : i = 0
      · subst hi
        rw [Nat.zero_mul, Nat.add_zero]
        exact hm.page v hpage
      · rcases h with h | h
        · omega
        · rw [hrest i (by omega) hlt v hpage]
          exact h i (by omega) hlt v hpage
    · intro v hv hout
      exact hm.others v hv (hout 0 hc)

end Loop

/-! ### Runs -/

/-- The machine, with the frames that callers got from `pmm_alloc_page`. -/
structure PagingClient where
  machine : Machine
  owned : Set Nat

inductive PagingEvent
  | pmmAllocPage (r : Nat)
  | pmmFreePage (a : Nat)
  | vmmPageMap (phys virt flags : Nat) (res : Int)
  | vmmPageUnmap (virt : Nat) (res : Int)
  | vmmPageMapRange (phys virt count flags : Nat) (res : Int)

/-- One call; a frame is given back by the caller that got it. -/
inductive PagingStep : PagingClient → PagingEvent → PagingClient → Prop
  | pmmAllocPage {c : PagingClient} {r : Nat} {e : Machine} : c.machine.pmmAllocPage = (r, e) →
      PagingStep c (.pmmAllocPage r) ⟨e, heldAfter c.owned r⟩
  | pmmFreePage {c : PagingClient} {a : Nat} : a ∈ c.owned →
      PagingStep c (.pmmFreePage a) ⟨c.machine.pmmFreePage a, c.owned \ {a}⟩
  | vmmPageMap {c : PagingClient} {phys virt flags : Nat} {res : Int} {e : Machine} :
      Mappable virt → c.machine.vmmPageMap phys virt flags = some (res, e) →
      PagingStep c (.vmmPageMap phys virt flags res) ⟨e, c.owned⟩
  | vmmPageUnmap {c : PagingClient} {virt : Nat} {res : Int} {e : Machine} : Mappable virt →
      c.machine.vmmPageUnmap virt = some (res, e) →
      PagingStep c (.vmmPageUnmap virt res) ⟨e, c.owned⟩
  | vmmPageMapRange {c : PagingClient} {phys virt count flags : Nat} {res : Int} {e : Machine} :
      MappableRange virt count → c.machine.vmmPageMapRange phys virt flags count = some (res, e) →
      PagingStep c (.vmmPageMapRange phys virt count flags res) ⟨e, c.owned⟩

/-- No frame of a caller holds a table. -/
structure PagingClient.Ok (c : PagingClient) (held : Set Nat) : Prop where
  machine : c.machine.Ok held
  owned : c.owned ⊆ held
  apart : ∀ f, f * 4096 ∈ c.owned → ¬ c.machine.tables.InUse f

section Runs

variable {c c' : PagingClient} {ev : PagingEvent} {e : Machine} {held : Set Nat}
variable {virt : Nat} {res : Int}

theorem Machine.Ok.vmmPageUnmap (hO : e.Ok held) (hv : Mappable virt) {e' : Machine}
    (h : e.vmmPageUnmap virt = some (res, e')) :
    e'.Ok held ∧ ∀ f, e'.tables.InUse f → e.tables.InUse f := by
  obtain ⟨res', t', h', hI', hres⟩ := vmmPageUnmap_spec hO.tables hv
  rw [Machine.vmmPageUnmap, h'] at h
  obtain ⟨-, rfl⟩ := Prod.mk.inj (Option.some.inj h)
  have huse : ∀ f, t'.InUse f → e.tables.InUse f := by
    intro f hu
    cases hres with
    | noTable _ => exact hu
    | unmapped _ _ _ hc hpde =>
      rcases hu with rfl | ⟨i, hi, hp, rfl⟩
      · exact .inl (by rw [hc])
      · rw [hpde i (by omega)] at hp ⊢
        exact .inr ⟨i, hi, hp, rfl⟩
  exact ⟨⟨hO.frames, hI', fun f hu => hO.inUse f (huse f hu)⟩, huse⟩

theorem PagingStep.ok (hO : c.Ok held) (hs : PagingStep c ev c') : ∃ held', c'.Ok held' := by
  obtain ⟨hM, hsub, hap⟩ := hO
  cases hs with
  | @pmmAllocPage r e h =>
    obtain ⟨hM', ht, -, hnew⟩ := hM.pmmAllocPage h
    refine ⟨_, hM', ?_, ?_⟩
    · rw [heldAfter, heldAfter]
      split
      · exact hsub
      · exact Set.insert_subset_insert hsub
    · intro f hf
      dsimp only at hf ⊢
      rw [ht]
      rw [heldAfter] at hf
      split at hf
      · exact hap f hf
      · rename_i h0
        rcases hf with hf | hf
        · intro hu
          exact (hnew h0).1 (hf ▸ hM.inUse f hu)
        · exact hap f hf
  | @pmmFreePage a ha =>
    have hfree := hM.pmmFreePage (hsub ha) fun f he => hap f (he ▸ ha)
    exact ⟨_, hfree, Set.sdiff_subset_sdiff_left hsub, fun f hf => hap f hf.1⟩
  | @vmmPageMap phys virt flags res e hv h =>
    obtain ⟨res', e', held', h', hM', hsub', -, huse⟩ := hM.vmmPageMap hv phys flags
    obtain ⟨-, rfl⟩ := Prod.mk.inj (Option.some.inj (h.symm.trans h'))
    exact ⟨held', hM', hsub.trans hsub', fun f hf hu => hap f hf (huse f (hsub hf) hu)⟩
  | vmmPageUnmap hv h =>
    obtain ⟨hM', huse⟩ := hM.vmmPageUnmap hv h
    exact ⟨held, hM', hsub, fun f hf hu => hap f hf (huse f hu)⟩
  | @vmmPageMapRange phys virt count flags res e hr h =>
    obtain ⟨res', e', held', h', hM', hsub', huse, -⟩ :=
      Machine.Ok.vmmPageMapRange phys flags count hr _ _ hM
    obtain ⟨-, rfl⟩ := Prod.mk.inj (Option.some.inj (h.symm.trans h'))
    exact ⟨held', hM', hsub.trans hsub', fun f hf hu => hap f hf (huse f (hsub hf) hu)⟩

variable {magic kernelEnd phys count flags : Nat} {mbd : Multiboot} {mem : Nat → Page}
  {s : Frames} {t₀ : Tables} {ram : Nat → UInt8} {es : List PagingEvent}

theorem paging_run_ok (hinit : pmmDirectoryInit magic kernelEnd mbd mem = some (s, t₀))
    (hrun : Trace PagingStep ⟨Machine.start s t₀ ram, ∅⟩ es c) : ∃ held, c.Ok held := by
  obtain ⟨d, t, hd⟩ := pmmDirectoryInit_spec hinit
  have hstart : PagingClient.Ok ⟨Machine.start s t₀ ram, ∅⟩ {t * 4096, d * 4096} :=
    ⟨Machine.start_ok hd ram, Set.empty_subset _, fun f hf => absurd hf (Set.notMem_empty _)⟩
  refine hrun.invariant (I := fun c => ∃ held, c.Ok held) ⟨_, hstart⟩ ?_
  rintro c ev c' ⟨held, hO⟩ hs
  exact hs.ok hO

/-- **`vmm_page_map_range` maps its range** exactly when there is at most one page
to map, or the pages behind the first one were mapped before. -/
theorem range_mapped (hinit : pmmDirectoryInit magic kernelEnd mbd mem = some (s, t₀))
    (hrun : Trace PagingStep ⟨Machine.start s t₀ ram, ∅⟩ es c)
    (hr : MappableRange virt count) :
    ∃ res e', c.machine.vmmPageMapRange phys virt flags count = some (res, e') ∧
      (res = 0 ∨ res = 1) ∧
      (res = 0 → (RangeMapped c.machine.tables e'.tables phys virt count flags ↔
        count ≤ 1 ∨ RestMapped c.machine.tables phys virt count flags)) := by
  obtain ⟨held, hO⟩ := paging_run_ok hinit hrun
  obtain ⟨res, e', held', h, -, -, -, hres⟩ :=
    Machine.Ok.vmmPageMapRange phys flags count hr _ _ hO.machine
  refine ⟨res, e', h, hres.imp And.left And.left, ?_⟩
  intro h0
  rcases hres with ⟨-, ⟨rfl, rfl⟩ | ⟨hpos, hm⟩⟩ | ⟨h1, -⟩
  · -- no page, and nothing is done
    have hnone : RangeMapped c.machine.tables c.machine.tables phys virt 0 flags :=
      ⟨fun i hi => absurd hi (Nat.not_lt_zero i), fun _ _ _ => rfl⟩
    exact iff_of_true hnone (.inl (Nat.zero_le _))
  · exact hm.range_iff hpos hr
  · omega

theorem exists_spare_frame (mem : Nat → Page) (virt : Nat) : ∃ s t₀,
    pmmDirectoryInit multibootBootloaderMagic 0xC0120000 (entryMap 64) mem
      = some (s, t₀) ∧ ¬ (Machine.start s t₀ fun _ => 0).NoTable virt ∧
      ∃ held, (Machine.start s t₀ fun _ => 0).Ok held := by
  obtain ⟨s, t₀, hdir, hr, hsub, hcard⟩ := pmmDirectoryInit_entryMap (n := 64) (by decide) (by decide)
    mem
  have hrun : Trace PagingStep ⟨Machine.start s t₀ fun _ => 0, ∅⟩ []
      ⟨Machine.start s t₀ fun _ => 0, ∅⟩ := .nil
  obtain ⟨held, hO⟩ := paging_run_ok hdir hrun
  refine ⟨s, t₀, hdir, ?_, held, hO.machine⟩
  intro hno
  have hbit : s.bitmap.testBit 0 := hO.machine.null
  obtain ⟨s', ha, -, -, -, hbatch, -⟩ := pmmAllocPage_of_refills hbit hr (by omega)
  obtain ⟨f, hf, -, h0⟩ := hbatch 0 (by decide)
  have hnull : (pmmAllocPage s).1 = 0 := hno.2
  rw [ha, h0] at hnull
  have := hsub hf
  rw [Finset.mem_Ico] at this
  omega

/-- Of two pages the second one is there already. -/
theorem range_mapped_two : ∃ s t₀ e₁ e',
    pmmDirectoryInit multibootBootloaderMagic 0xC0120000 (entryMap 64) (fun _ => .zero)
      = some (s, t₀) ∧
    Trace PagingStep ⟨Machine.start s t₀ fun _ => 0, ∅⟩ [.vmmPageMap 0x301000 0x10001000 3 0]
      ⟨e₁, ∅⟩ ∧
    e₁.vmmPageMapRange 0x300000 0x10000000 3 2 = some (0, e') ∧
    RestMapped e₁.tables 0x300000 0x10000000 2 3 ∧
    RangeMapped e₁.tables e'.tables 0x300000 0x10000000 2 3 := by
  obtain ⟨s, t₀, hdir, hspare, held, hO⟩ := exists_spare_frame (fun _ => .zero) 0x10001000
  have hv : Mappable 0x10001000 := ⟨by decide, by decide, by decide, by decide⟩
  obtain ⟨res, e₁, held₁, hmap, hO₁, -⟩ := hO.vmmPageMap hv 0x301000 3
  rcases hO.vmmPageMap_mapped hv hmap with ⟨rfl, hm⟩ | ⟨-, hno, -⟩
  · have hrun := Trace.single (PagingStep.vmmPageMap (c := ⟨_, ∅⟩) hv hmap)
    have hrest : RestMapped e₁.tables 0x300000 0x10000000 2 3 := by
      intro i h1 h2 v hpage
      obtain rfl : i = 1 := by omega
      exact hm.page v hpage
    have hr : MappableRange 0x10000000 2 := fun v hlo hhi =>
      ⟨by omega, by omega, by omega, by omega⟩
    obtain ⟨res, e', h, -, hiff⟩ :
        ∃ res e', e₁.vmmPageMapRange 0x300000 0x10000000 3 2 = some (res, e') ∧
        (res = 0 ∨ res = 1) ∧
        (res = 0 → (RangeMapped e₁.tables e'.tables 0x300000 0x10000000 2 3 ↔
          2 ≤ 1 ∨ RestMapped e₁.tables 0x300000 0x10000000 2 3)) :=
      range_mapped hdir hrun hr
    obtain ⟨res', e'', -, h', -, -, -, hres⟩ :=
      Machine.Ok.vmmPageMapRange 0x300000 3 2 hr _ _ hO₁
    obtain ⟨rfl, rfl⟩ := Prod.mk.inj (Option.some.inj (h.symm.trans h'))
    rcases hres with ⟨rfl, -⟩ | ⟨-, hno⟩
    · exact ⟨s, t₀, e₁, e', hdir, hrun, h, hrest, (hiff rfl).mpr (.inr hrest)⟩
    · -- the two pages have one table
      have htable : (e₁.tables.pde 64).present = false := hno.1
      refine absurd ⟨?_, hno.2⟩ (Machine.not_noTable_of_walk (show 0x10001000 < 4294967296 by decide)
        (hm.page _ rfl))
      exact htable
  · exact absurd hno hspare

/-- Of a range of two pages only the first one is mapped. -/
theorem range_second_page_missing : ∃ s t₀ e',
    pmmDirectoryInit multibootBootloaderMagic 0xC0120000 (entryMap 64) (fun _ => .zero)
      = some (s, t₀) ∧ MappableRange 0x10000000 2 ∧
    (Machine.start s t₀ fun _ => 0).vmmPageMapRange 0x300000 0x10000000 3 2 = some (0, e') ∧
    e'.tables.walk 0x10001000 = none ∧
    ¬ RangeMapped t₀ e'.tables 0x300000 0x10000000 2 3 := by
  obtain ⟨s, t₀, hdir, hspare, held, hO⟩ := exists_spare_frame (fun _ => .zero) 0x10000000
  have hr : MappableRange 0x10000000 2 := fun v hlo hhi =>
    ⟨by omega, by omega, by omega, by omega⟩
  obtain ⟨res, e', -, h, -, -, -, hres⟩ := Machine.Ok.vmmPageMapRange 0x300000 3 2 hr _ _ hO
  obtain ⟨d, t, hd⟩ := pmmDirectoryInit_spec hdir
  rcases hres with ⟨rfl, ⟨h0, -⟩ | ⟨-, hm⟩⟩ | ⟨-, hno⟩
  · exact absurd h0 (by decide)
  · have hbefore : t₀.walk 0x10001000 = none :=
      walk_of_no_table (hd.empty 64 (by decide) (by decide) (by decide))
    have hafter : e'.tables.walk 0x10001000 = none := by
      rw [hm.others _ (by decide) (by decide)]
      exact hbefore
    refine ⟨s, t₀, e', hdir, hr, h, hafter, ?_⟩
    intro hmapped
    have hpage := hmapped.pages 1 (by decide) 0x10001000 (by decide)
    rw [hafter] at hpage
    cases hpage
  · exact absurd hno hspare

end Runs

end ChoOS
