import ChoOS.Paging.Account
import ChoOS.Paging.Machine

/-!
# The pages of the kernel heap

The heap maps and unmaps pages from `KERNEL_VIRT_OFFSET` to the recursive
window, its first 4 MiB in the table of the kernel image and the rest in tables
of its own.  `HeapMap` is everything that `vmm_page_map` can do to such a page,
and `Machine.Ok.heapMap` says that it does one of these; `Machine.Ok.heapUnmap`
is the same for `vmm_page_unmap`.

`Spare` is a frame that the tables do not need: it holds none, and it does not
wait in `pre_frames` to become one.  `Machine.Ok.of_bits` says that clearing the
bits of other frames than the held ones keeps the invariant.
-/

namespace ChoOS

/-- An address that the heap can use. -/
structure HeapPage (v : Nat) : Prop where
  kernel : 3221225472 ≤ v
  window : v < 4290772992

theorem HeapPage.of_page {v : Nat} (hv : HeapPage (v / 4096 * 4096)) : HeapPage v := by
  obtain ⟨h1, h2⟩ := hv
  exact ⟨by omega, by omega⟩

theorem HeapPage.dir {v : Nat} (hv : HeapPage v) : 768 ≤ v / 4194304 ∧ v / 4194304 < 1023 := by
  obtain ⟨h1, h2⟩ := hv
  omega

namespace Tables

/-- The table of the kernel image is there. -/
def KernelTable (t : Tables) : Prop := (t.pde 768).present ∧ (t.pde 768).rw

/-- The translation of the heap after a page was mapped. -/
structure HeapMapped (t t' : Tables) (phys virt : Nat) : Prop where
  page : ∀ v, v / 4096 = virt / 4096 → t'.walk v = some ⟨frameOf phys, true, false⟩
  others : ∀ v, HeapPage v → v / 4096 ≠ virt / 4096 → t'.walk v = t.walk v
  cr3 : t'.cr3 = t.cr3
  fixed : ∀ i < 1024, i ≠ virt / 4194304 → t'.pde i = t.pde i

variable {t t' : Tables} {phys virt f i r : Nat} {p : Page}

theorem Inv.heap_rw (hI : t.Inv) (hK : t.KernelTable) (hv : HeapPage virt)
    (hp : (t.pde (virt / 4194304)).present) : (t.pde (virt / 4194304)).rw := by
  have hd := hv.dir
  by_cases h768 : virt / 4194304 = 768
  · rw [h768]
    exact hK.2
  · exact (hI.rights _ hd.2 (by omega) h768 hp).1

theorem Inv.walk_heap (hI : t.Inv) (hv : HeapPage virt) (hp : (t.pde (virt / 4194304)).present)
    {v : Nat} (hu : HeapPage v) (hne : v / 4096 ≠ virt / 4096) :
    (t.set (t.pteWord virt) p).walk v = t.walk v := by
  have hd := hv.dir
  have hd' := hu.dir
  exact hI.walk_entry_of hd.2 hp (by have := hu.window; omega) hne ⟨by omega, by omega⟩

theorem Inv.heapEntry (hI : t.Inv) (hK : t.KernelTable) (hv : HeapPage virt)
    (hp : (t.pde (virt / 4194304)).present) (phys : Nat) :
    ∃ t', ChoOS.writeEntry phys virt 3 t = some t' ∧ t'.Inv ∧ HeapMapped t t' phys virt ∧
      ∀ i < 1024, t'.pde i = t.pde i := by
  have hd := hv.dir
  have hlt : virt < 4294967296 := Nat.lt_trans hv.window (by decide)
  have hrw := hI.heap_rw hK hv hp
  have hpde : ∀ i < 1024, ∀ q, (t.set (t.pteWord virt) q).pde i = t.pde i := fun i hi q =>
    hI.pde_entry hd.2 hp hi
  refine ⟨_, writeEntry_spec hI.recursive hlt hp hrw hd.2 (hI.ne_dir _ hd.2 hp) _ _,
    hI.entry hd.2 hp, ⟨fun v h => ?_, fun v hu hne => hI.walk_heap hv hp hu hne, set_cr3,
    fun i hi _ => hpde i hi _⟩, fun i hi => hpde i hi _⟩
  rw [hI.walk_entry_self hd.2 hp h, hrw]
  have huser : (mappedPte (t.mem (t.pteWord virt)) phys 3).user = false := rfl
  rw [huser, Bool.and_false]
  rfl

/-- The translation of the heap after a page was unmapped. -/
structure HeapUnmapped (t t' : Tables) (virt : Nat) : Prop where
  page : ∀ v, v / 4096 = virt / 4096 → t'.walk v = none
  others : ∀ v, HeapPage v → v / 4096 ≠ virt / 4096 → t'.walk v = t.walk v
  cr3 : t'.cr3 = t.cr3
  fixed : ∀ i < 1024, t'.pde i = t.pde i

theorem Inv.heapUnmap (hI : t.Inv) (hK : t.KernelTable) (hv : HeapPage virt) :
    ∃ res t', vmmPageUnmap virt t = some (res, t') ∧ t'.Inv ∧ HeapUnmapped t t' virt := by
  have hd := hv.dir
  have hlt : virt < 4294967296 := Nat.lt_trans hv.window (by decide)
  rcases hI.unmap hlt hd.2 (fun hp => hI.heap_rw hK hv hp) with ⟨hp, h⟩ | ⟨hp, p, hnot, h⟩
  · refine ⟨-1, t, h, hI, fun v hpage => walk_of_no_table ?_, fun _ _ _ => rfl, rfl, fun _ _ => rfl⟩
    rw [show v / 4194304 % 1024 = virt / 4194304 by omega, hp]
  · refine ⟨0, _, h, hI.entry hd.2 hp, fun v hpage => ?_, fun v hu hne => hI.walk_heap hv hp hu hne,
      set_cr3, fun i hi => hI.pde_entry hd.2 hp hi⟩
    rw [hI.walk_entry_self hd.2 hp hpage, hnot]
    rfl

theorem inUse_of_same (hc : t'.cr3 = t.cr3) (hpde : ∀ i < 1024, t'.pde i = t.pde i)
    (hu : t'.InUse f) : t.InUse f := by
  rcases hu with rfl | ⟨i, hi, hp, rfl⟩
  · exact .inl (by rw [hc])
  · rw [hpde i (by omega)] at hp ⊢
    exact .inr ⟨i, hi, hp, rfl⟩

theorem inUse_of_new {p : Page} (hc : t'.cr3 = t.cr3)
    (hpde : ∀ k < 1024, k ≠ i → t'.pde k = t.pde k) (hnew : t'.pde i = newPde p r)
    (hu : t'.InUse f) : t.InUse f ∨ f = frameOf r := by
  rcases hu with rfl | ⟨k, hk, hp, rfl⟩
  · exact .inl (.inl (by rw [hc]))
  · by_cases hki : k = i
    · rw [hki, hnew]
      exact .inr rfl
    · rw [hpde k (by omega) hki] at hp ⊢
      exact .inl (.inr ⟨k, hk, hp, rfl⟩)

end Tables

open Tables

/-- What `vmm_page_map` can do to a page of the heap. -/
inductive HeapMap (phys virt : Nat) (e : Machine) : Int → Machine → Prop
  | entry {t' : Tables} : (e.tables.pde (virt / 4194304)).present →
      HeapMapped e.tables t' phys virt → (∀ i < 1024, t'.pde i = e.tables.pde i) →
      HeapMap phys virt e 0 { e with tables := t' }
  | table {r : Nat} {e₁ : Machine} {t' : Tables} :
      (e.tables.pde (virt / 4194304)).present = false → e.pmmAllocPage = (r, e₁) → r ≠ 0 →
      HeapMapped e.tables t' phys virt →
      t'.pde (virt / 4194304) = newPde (e.tables.pde (virt / 4194304)) r →
      HeapMap phys virt e 0 { e₁ with tables := t' }
  | noMemory {e₁ : Machine} : (e.tables.pde (virt / 4194304)).present = false →
      e.pmmAllocPage = (0, e₁) → HeapMap phys virt e enomem e₁

theorem HeapMap.mapped {phys virt : Nat} {e e' : Machine} {res : Int}
    (h : HeapMap phys virt e res e') (h0 : res = 0) :
    HeapMapped e.tables e'.tables phys virt := by
  cases h with
  | entry _ hm _ => exact hm
  | table _ _ _ hm _ => exact hm
  | noMemory _ _ => cases h0

namespace Machine

variable {e e' e₁ : Machine} {held : Set Nat} {r a phys virt f : Nat} {res : Int}

theorem pmmAllocPage_tables (h : e.pmmAllocPage = (r, e₁)) : e₁.tables = e.tables := by
  obtain rfl : e.pmmAllocPage.2 = e₁ := congrArg Prod.snd h
  rfl

theorem pmmAllocPage_frames (h : e.pmmAllocPage = (r, e₁)) :
    ChoOS.pmmAllocPage e.frames = (r, e₁.frames) := by
  have h1 : (ChoOS.pmmAllocPage e.frames).1 = r := congrArg Prod.fst h
  have h2 : (ChoOS.pmmAllocPage e.frames).2 = e₁.frames := congrArg (fun p => p.2.frames) h
  exact Prod.ext h1 h2

theorem Ok.heapMap (hO : e.Ok held) (hK : e.tables.KernelTable) (hv : HeapPage virt) (phys : Nat) :
    ∃ res e', e.vmmPageMap phys virt 3 = some (res, e') ∧ HeapMap phys virt e res e' ∧
      e'.tables.Inv ∧ e'.tables.KernelTable := by
  have hd := hv.dir
  have hlt : virt < 4294967296 := Nat.lt_trans hv.window (by decide)
  by_cases hp : (e.tables.pde (virt / 4194304)).present
  · obtain ⟨t', hw, hI', hm, hpde⟩ := hO.tables.heapEntry hK hv hp phys
    have hvmm : ChoOS.vmmPageMap Machine.pmmAllocPage phys virt 3 e.tables e = some (0, t', e) := by
      rw [ChoOS.vmmPageMap, load_pde hO.tables.recursive hlt, Option.bind_eq_bind,
        Option.bind_some, if_pos hp, hw]
      rfl
    have hmap : e.vmmPageMap phys virt 3 = some (0, { e with tables := t' }) := by
      rw [Machine.vmmPageMap, hvmm]
      rfl
    refine ⟨0, _, hmap, .entry hp hm hpde, hI', ?_⟩
    rw [KernelTable, hpde 768 (by decide)]
    exact hK
  · -- the table of the kernel is there, so this page has one of its own
    have hmappable : Mappable virt := by
      refine ⟨hlt, by omega, fun h768 => hp ?_, by omega⟩
      rw [h768]
      exact hK.1
    obtain ⟨r, e₁, ha⟩ : ∃ r e₁, e.pmmAllocPage = (r, e₁) := ⟨_, _, rfl⟩
    have hfresh : e.pmmAllocPage.1 ≠ 0 → ¬ e.tables.InUse (frameOf e.pmmAllocPage.1) := by
      obtain ⟨-, -, -, hnew⟩ := hO.pmmAllocPage ha
      rw [ha]
      exact fun h0 => hO.not_inUse (hnew h0).1 (hnew h0).2.1
    obtain ⟨res, t', e₂, hm, hI', hres⟩ :=
      Tables.vmmPageMap_spec Machine.pmmAllocPage e hO.tables hmappable hfresh phys 3
    have hrun : e.vmmPageMap phys virt 3 = some (res, { e₂ with tables := t' }) := by
      rw [Machine.vmmPageMap, hm]
      rfl
    cases hres with
    | entry hp' _ _ => exact absurd hp' hp
    | table hp' h0 hmap hnew =>
      have hmapped : HeapMapped e.tables t' phys virt :=
        ⟨hmap.page, fun v hu => hmap.others v hu.window, hmap.cr3, hmap.fixed⟩
      refine ⟨0, _, hrun, .table hp' rfl h0 hmapped hnew, hI', ?_⟩
      rw [KernelTable, hmap.fixed 768 (by decide) (Ne.symm hmappable.ne_kernel)]
      exact hK
    | noMemory hp' h0 =>
      rw [ha] at h0 hrun
      dsimp only at h0 hrun
      have ht := pmmAllocPage_tables ha
      have hsame : { e₁ with tables := e.tables } = e₁ := by rw [← ht]
      rw [hsame] at hrun
      refine ⟨enomem, e₁, hrun, .noMemory hp' (by rw [ha, h0]), by rw [ht]; exact hI', ?_⟩
      rw [ht]
      exact hK

theorem Ok.of_heapMap (hO : e.Ok held) (h : HeapMap phys virt e res e') (hI : e'.tables.Inv) :
    ∃ held', e'.Ok held' ∧ held ⊆ held' ∧
      ∀ f, f * 4096 ∈ held → e'.tables.InUse f → e.tables.InUse f := by
  cases h with
  | entry hp hm hpde =>
    have hused : ∀ f, _ → e.tables.InUse f := fun f hu => inUse_of_same hm.cr3 hpde hu
    exact ⟨held, ⟨hO.frames, hI, fun f hu => hO.inUse f (hused f hu)⟩, subset_rfl,
      fun f _ hu => hused f hu⟩
  | @table r e₁ t' hp ha h0 hm hnew =>
    obtain ⟨hO₁, -, -, hr⟩ := hO.pmmAllocPage ha
    have hused : ∀ f, t'.InUse f → e.tables.InUse f ∨ f = frameOf r :=
      fun f hu => inUse_of_new hm.cr3 hm.fixed hnew hu
    have hsub : held ⊆ heldAfter held r := by
      rw [heldAfter, if_neg h0]
      exact Set.subset_insert _ _
    refine ⟨heldAfter held r, ⟨hO₁.frames, hI, fun f hu => ?_⟩, hsub, fun f hf hu => ?_⟩
    · rcases hused f hu with hu | rfl
      · exact hsub (hO.inUse f hu)
      · rw [(hr h0).2.1, heldAfter, if_neg h0]
        exact Set.mem_insert _ _
    · rcases hused f hu with hu | rfl
      · exact hu
      · rw [(hr h0).2.1] at hf
        exact absurd hf (hr h0).1
  | noMemory hp ha =>
    obtain ⟨hO₁, ht, -, -⟩ := hO.pmmAllocPage ha
    rw [heldAfter, if_pos rfl] at hO₁
    exact ⟨held, hO₁, subset_rfl, fun f _ hu => by rw [ht] at hu; exact hu⟩

/-- A frame that holds no table and does not wait to be issued. -/
structure Spare (e : Machine) (f : Nat) : Prop where
  table : ¬ e.tables.InUse f
  waiting : ∀ k ∈ e.frames.unissued, e.frames.preFrames k ≠ f * 4096

/-- The bitmap in which only `NULL` is reserved. -/
def nullBitmap : Bitmap := Bitmap.setBit (fun _ => 0#32) 0

theorem testBit_nullBitmap (i : Nat) : nullBitmap.testBit i = decide (0 = i) := by
  rw [nullBitmap, Bitmap.testBit_setBit, Bitmap.testBit_eq]
  simp

/-- **Bits may be cleared** that belong to no frame of `held'` and to none that waits. -/
theorem Ok.of_bits {held' : Set Nat} (hO : e.Ok held) (hsub : held' ⊆ held)
    (hp : e'.frames.pframe = e.frames.pframe) (hpre : e'.frames.preFrames = e.frames.preFrames)
    (h0 : e'.frames.bitmap.testBit 0)
    (hheld : ∀ a ∈ held', e'.frames.bitmap.testBit (a / 4096))
    (hwait : ∀ k ∈ e.frames.unissued, e.frames.preFrames k ≠ 0 →
      e'.frames.bitmap.testBit (e.frames.preFrames k / 4096))
    (hI' : e'.tables.Inv) (hused : ∀ f, e'.tables.InUse f → f * 4096 ∈ held') : e'.Ok held' := by
  obtain ⟨res, hI⟩ := hO.frames
  have hkeep : ∀ {b}, Taken e.frames.bitmap res b → e'.frames.bitmap.testBit (b / 4096) →
      Taken e'.frames.bitmap nullBitmap b := by
    intro b hb hset
    refine ⟨hb.aligned, hb.lt, hset, ?_⟩
    rw [testBit_nullBitmap, decide_eq_false_iff_not]
    intro hz
    have := hb.notReserved
    rw [← hz, hI.owned.null] at this
    cases this
  have hun : e'.frames.unissued = e.frames.unissued := by rw [Frames.unissued, Frames.unissued, hp]
  refine ⟨⟨nullBitmap, ⟨?_, by rw [hp]; exact hI.pframe⟩⟩, hI', hused⟩
  rw [hun, hpre]
  refine ⟨fun i hi => ?_, by rw [testBit_nullBitmap]; rfl, fun b hb => ?_, fun k hk hne => ?_,
    hI.owned.distinct⟩
  · rw [testBit_nullBitmap, decide_eq_true_eq] at hi
    exact hi ▸ h0
  · exact hkeep (hI.owned.heldTaken b (hsub hb)) (hheld b hb)
  · obtain ⟨ht, hh⟩ := hI.owned.waiting k hk hne
    exact ⟨hkeep ht (hwait k hk hne), fun hm => hh (hsub hm)⟩

end Machine

end ChoOS
