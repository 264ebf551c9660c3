import ChoOS.Paging.HeapPages
import ChoOS.Paging.Range

/-!
# Mapping below the recursive window

The directory shows the first table twice, at entry 0 and at entry 768.  So a page
below 4 MiB and the one 3 GiB above it are one entry, and what is done to one is done
to the other.  `kernelAddr` moves an address of the first to the second, and `SamePage`
says that two addresses have one entry.

With this, `vmm_page_map` and `vmm_page_unmap` do what they are for at every address
below the window: `Machine.mapBelow` and `Machine.unmapBelow`.
-/

namespace ChoOS

/-- The address, from 3 GiB on where the table is shared. -/
def kernelAddr (v : Nat) : Nat := if v < 4194304 then v + kernelVirtOffset else v

/-- The two addresses have one table entry. -/
def SamePage (u v : Nat) : Prop := kernelAddr u / 4096 = kernelAddr v / 4096

instance (u v : Nat) : Decidable (SamePage u v) := inferInstanceAs (Decidable (_ = _))

namespace Tables

/-- Entries 0 and 768 show one table, and the kernel may write there. -/
structure SharedTable (t : Tables) : Prop where
  low : (t.pde 0).present ∧ (t.pde 0).rw
  kernel : (t.pde 768).present ∧ (t.pde 768).rw
  same : (t.pde 0).frame = (t.pde 768).frame

/-- The translation after the page of `virt` was mapped. -/
structure MapsTo (t t' : Tables) (phys virt flags : Nat) : Prop where
  page : ∀ u < ptBaseVaddr, SamePage u virt → ∃ user : Bool,
    t'.walk u = some ⟨frameOf phys, flags.testBit 1, user && flags.testBit 2⟩
  others : ∀ u < ptBaseVaddr, ¬ SamePage u virt → t'.walk u = t.walk u

variable {t t' : Tables} {u v virt phys flags : Nat} {p : Page}

theorem kernelAddr_cases (v : Nat) : (v < 4194304 ∧ kernelAddr v = v + 3221225472) ∨
    (4194304 ≤ v ∧ kernelAddr v = v) := by
  rw [kernelAddr, kernelVirtOffset]
  split
  · exact .inl ⟨‹_›, rfl⟩
  · exact .inr ⟨by omega, rfl⟩

theorem samePage_iff (hu : 4194304 ≤ u) (hv : 4194304 ≤ v) :
    SamePage u v ↔ u / 4096 = v / 4096 := by
  rw [SamePage, kernelAddr, if_neg (by omega), kernelAddr, if_neg (by omega)]

theorem SharedTable.congr (hS : t.SharedTable) (h0 : t'.pde 0 = t.pde 0)
    (h768 : t'.pde 768 = t.pde 768) : t'.SharedTable :=
  ⟨by rw [h0]; exact hS.low, by rw [h768]; exact hS.kernel, by rw [h0, h768]; exact hS.same⟩

theorem Inv.rw_below (hI : t.Inv) (hS : t.SharedTable) (hv : v < ptBaseVaddr)
    (hp : (t.pde (v / 4194304)).present) : (t.pde (v / 4194304)).rw := by
  have hv : v < 4290772992 := hv
  by_cases h0 : v / 4194304 = 0
  · rw [h0]
    exact hS.low.2
  by_cases h768 : v / 4194304 = 768
  · rw [h768]
    exact hS.kernel.2
  exact (hI.rights _ (by omega) h0 h768 hp).1

theorem SharedTable.mappable (hS : t.SharedTable) (hv : v < ptBaseVaddr)
    (hp : ¬ (t.pde (v / 4194304)).present) : Mappable v := by
  have hv : v < 4290772992 := hv
  refine ⟨by omega, fun h0 => hp ?_, fun h768 => hp ?_, by omega⟩
  · rw [h0]
    exact hS.low.1
  · rw [h768]
    exact hS.kernel.1

theorem SharedTable.present_iff (hS : t.SharedTable) (hs : SamePage u v) :
    (t.pde (u / 4194304)).present ↔ (t.pde (v / 4194304)).present := by
  rw [SamePage] at hs
  rcases kernelAddr_cases u with ⟨hu, hku⟩ | ⟨hu, hku⟩ <;>
    rcases kernelAddr_cases v with ⟨hv, hkv⟩ | ⟨hv, hkv⟩ <;> rw [hku, hkv] at hs
  · rw [show u / 4194304 = v / 4194304 by omega]
  · rw [show u / 4194304 = 0 by omega, show v / 4194304 = 768 by omega]
    exact iff_of_true hS.low.1 hS.kernel.1
  · rw [show u / 4194304 = 768 by omega, show v / 4194304 = 0 by omega]
    exact iff_of_true hS.kernel.1 hS.low.1
  · rw [show u / 4194304 = v / 4194304 by omega]

/-- **Two pages have one entry** exactly when they are the same page, or the two views of
one of the shared table. -/
theorem Inv.pteWord_eq_iff (hI : t.Inv) (hS : t.SharedTable) (hu : u < ptBaseVaddr)
    (hv : v < ptBaseVaddr) (hpu : (t.pde (u / 4194304)).present)
    (hpv : (t.pde (v / 4194304)).present) : t.pteWord u = t.pteWord v ↔ SamePage u v := by
  have hu : u < 4290772992 := hu
  have hv : v < 4290772992 := hv
  have hframe := hI.distinct _ (show u / 4194304 < 1023 by omega) _ (show v / 4194304 < 1023 by omega)
    hpu hpv
  have hsame : ((t.pde 0).frame : Nat) = (t.pde 768).frame := congrArg Fin.val hS.same
  rw [pteWord, pteWord, SamePage]
  constructor
  · intro he
    have hdir := hframe (by omega)
    rcases kernelAddr_cases u with ⟨hlu, hku⟩ | ⟨hlu, hku⟩ <;>
      rcases kernelAddr_cases v with ⟨hlv, hkv⟩ | ⟨hlv, hkv⟩ <;> rw [hku, hkv] <;> omega
  · intro hs
    rcases kernelAddr_cases u with ⟨hlu, hku⟩ | ⟨hlu, hku⟩ <;>
      rcases kernelAddr_cases v with ⟨hlv, hkv⟩ | ⟨hlv, hkv⟩ <;> rw [hku, hkv] at hs
    · rw [show u / 4194304 = v / 4194304 by omega]
      omega
    · rw [show u / 4194304 = 0 by omega, show v / 4194304 = 768 by omega]
      omega
    · rw [show u / 4194304 = 768 by omega, show v / 4194304 = 0 by omega]
      omega
    · rw [show u / 4194304 = v / 4194304 by omega]
      omega

section Entry

variable (hI : t.Inv) (hS : t.SharedTable) (hv : v < ptBaseVaddr)
  (hp : (t.pde (v / 4194304)).present) (hu : u < ptBaseVaddr)
include hI hS hv hp hu

theorem Inv.walk_set_same (hs : SamePage u v) : (t.set (t.pteWord v) p).walk u =
    if p.present then some ⟨p.frame, p.rw, (t.pde (u / 4194304)).user && p.user⟩ else none := by
  have hpu := (hS.present_iff hs).mpr hp
  have hrw := hI.rw_below hS hu hpu
  have hword := (hI.pteWord_eq_iff hS hu hv hpu hp).mpr hs
  have hu' : u < 4290772992 := hu
  have hv' : v < 4290772992 := hv
  have hdir : u / 4194304 % 1024 = u / 4194304 := by omega
  have hpde : (t.set (t.pteWord v) p).pde (u / 4194304) = t.pde (u / 4194304) :=
    hI.pde_entry (by omega) hp (by omega)
  have hm : (t.set (t.pteWord v) p).mem
      ((t.pde (u / 4194304)).frame * 1024 + u / 4096 % 1024) = p := by
    rw [← hword]
    exact set_mem_self
  simp only [walk, hdir, hpde, hpu, hrw, if_true, hm, Bool.true_and]

theorem Inv.walk_set_other (hs : ¬ SamePage u v) :
    (t.set (t.pteWord v) p).walk u = t.walk u := by
  have hu' : u < 4290772992 := hu
  have hv' : v < 4290772992 := hv
  have hdir : u / 4194304 % 1024 = u / 4194304 := by omega
  refine walk_congr (hI.pde_entry (by omega) hp (by omega)) fun hpu => set_mem_of_ne ?_
  rw [hdir] at hpu ⊢
  exact fun he => hs ((hI.pteWord_eq_iff hS hu hv hpu hp).mp he)

end Entry

theorem Mappable.samePage_iff (hv : Mappable virt) :
    SamePage u virt ↔ u / 4096 = virt / 4096 := by
  have h0 := hv.ne_first
  have h768 := hv.ne_kernel
  rw [SamePage]
  rcases kernelAddr_cases u with ⟨hlu, hku⟩ | ⟨hlu, hku⟩ <;>
    rcases kernelAddr_cases virt with ⟨hlv, hkv⟩ | ⟨hlv, hkv⟩ <;> rw [hku, hkv] <;> omega

theorem Mapped.mapsTo (hm : Mapped t t' phys virt flags) (hv : Mappable virt) :
    MapsTo t t' phys virt flags := by
  refine ⟨fun u hu hs => ⟨true, ?_⟩, fun u hu hs => ?_⟩
  · rw [Bool.true_and]
    exact hm.page u (hv.samePage_iff.mp hs)
  · exact hm.others u hu fun he => hs (hv.samePage_iff.mpr he)

theorem Inv.mapEntry (hI : t.Inv) (hS : t.SharedTable) (hv : virt < ptBaseVaddr)
    (hp : (t.pde (virt / 4194304)).present) (phys flags : Nat) :
    ∃ t', ChoOS.writeEntry phys virt flags t = some t' ∧ t'.Inv ∧ MapsTo t t' phys virt flags ∧
      t'.cr3 = t.cr3 ∧ ∀ i < 1024, t'.pde i = t.pde i := by
  have hlt : virt < 4290772992 := hv
  refine ⟨_, writeEntry_spec hI.recursive (by omega) hp (hI.rw_below hS hv hp) (by omega)
    (hI.ne_dir _ (by omega) hp) phys flags, hI.entry (by omega) hp, ⟨fun u hu hs => ?_,
    fun u hu hs => hI.walk_set_other hS hv hp hu hs⟩, set_cr3,
    fun i hi => hI.pde_entry (by omega) hp hi⟩
  exact ⟨_, hI.walk_set_same hS hv hp hu hs⟩

end Tables

open Tables

namespace Machine

variable {e e' : Machine} {held : Set Nat} {virt phys flags : Nat} {res : Int}

/-- The frame that `vmm_page_map` would take for a table holds none. -/
def FreshTable (e : Machine) (virt : Nat) : Prop :=
  (e.tables.pde (virt / 4194304)).present = false → e.pmmAllocPage.1 ≠ 0 →
    ¬ e.tables.InUse (frameOf e.pmmAllocPage.1)

/-- Where there is a table, `vmm_page_map` only writes the entry. -/
theorem vmmPageMap_entry {t' : Tables} (hR : e.tables.Recursive) (hv : virt < 4294967296)
    (hp : (e.tables.pde (virt / 4194304)).present)
    (hw : writeEntry phys virt flags e.tables = some t') :
    e.vmmPageMap phys virt flags = some (0, { e with tables := t' }) := by
  have hvmm : ChoOS.vmmPageMap Machine.pmmAllocPage phys virt flags e.tables e
      = some (0, t', e) := by
    rw [ChoOS.vmmPageMap, load_pde hR hv, Option.bind_eq_bind, Option.bind_some, if_pos hp, hw]
    rfl
  rw [Machine.vmmPageMap, hvmm]
  rfl

/-- **`vmm_page_map` below the window** returns.  It maps the page, or it has no frame for
a table and changes no translation. -/
theorem mapBelow (hI : e.tables.Inv) (hS : e.tables.SharedTable) (hv : virt < ptBaseVaddr)
    (hfresh : e.FreshTable virt) (phys flags : Nat) :
    ∃ res e', e.vmmPageMap phys virt flags = some (res, e') ∧ e'.tables.Inv ∧
      e'.tables.SharedTable ∧
      ((e.tables.pde (virt / 4194304)).present →
        e'.frames = e.frames ∧ ∀ f, e'.tables.InUse f → e.tables.InUse f) ∧
      ((res = 0 ∧ ¬ e.NoTable virt ∧ MapsTo e.tables e'.tables phys virt flags) ∨
        (res = enomem ∧ e.NoTable virt ∧ e'.tables = e.tables)) := by
  have hlt : virt < 4290772992 := hv
  by_cases hp : (e.tables.pde (virt / 4194304)).present
  · obtain ⟨t', hw, hI', hm, hc, hpde⟩ := hI.mapEntry hS hv hp phys flags
    refine ⟨0, _, vmmPageMap_entry hI.recursive (by omega) hp hw, hI',
      hS.congr (hpde 0 (by omega)) (hpde 768 (by omega)),
      fun _ => ⟨rfl, fun f hu => inUse_of_same hc hpde hu⟩, .inl ⟨rfl, fun hno => ?_, hm⟩⟩
    rw [hno.1] at hp
    cases hp
  · have hmappable := hS.mappable hv hp
    obtain ⟨res, t', e₂, hm, hI', hres⟩ := vmmPageMap_spec Machine.pmmAllocPage e hI hmappable
      (hfresh (by simpa using hp)) phys flags
    have hrun : e.vmmPageMap phys virt flags = some (res, { e₂ with tables := t' }) := by
      rw [Machine.vmmPageMap, hm]
      rfl
    refine ⟨res, _, hrun, hI', ?_, fun h => absurd h hp, ?_⟩
    · cases hres with
      | entry hp' _ _ => exact absurd hp' hp
      | table _ _ hmap _ =>
        exact hS.congr (hmap.fixed 0 (by omega) (Ne.symm hmappable.ne_first))
          (hmap.fixed 768 (by omega) (Ne.symm hmappable.ne_kernel))
      | noMemory _ _ => exact hS
    · cases hres with
      | entry hp' _ _ => exact absurd hp' hp
      | table _ h0 hmap _ => exact .inl ⟨rfl, fun hno => h0 hno.2, hmap.mapsTo hmappable⟩
      | noMemory hp' h0 => exact .inr ⟨rfl, ⟨hp', h0⟩, rfl⟩

/-- **`vmm_page_unmap` below the window** returns.  It gives no page a translation, and
leaves the other pages alone. -/
theorem unmapBelow (hI : e.tables.Inv) (hS : e.tables.SharedTable) (hv : virt < ptBaseVaddr) :
    ∃ res e', e.vmmPageUnmap virt = some (res, e') ∧ e'.frames = e.frames ∧ e'.tables.Inv ∧
      e'.tables.SharedTable ∧ (∀ f, e'.tables.InUse f → e.tables.InUse f) ∧
      (∀ u < ptBaseVaddr, ∀ tr, e'.tables.walk u = some tr → e.tables.walk u = some tr) ∧
      ∀ u < ptBaseVaddr, ¬ SamePage u virt → e'.tables.walk u = e.tables.walk u := by
  have hlt : virt < 4290772992 := hv
  rcases hI.unmap (show virt < 4294967296 by omega) (by omega) (fun hp => hI.rw_below hS hv hp) with
    ⟨hp, h⟩ | ⟨hp, p, hnot, h⟩
  · refine ⟨-1, e, ?_, rfl, hI, hS, fun _ hu => hu, fun _ _ _ hw => hw, fun _ _ _ => rfl⟩
    rw [Machine.vmmPageUnmap, h]
    rfl
  · have hpde : ∀ i < 1024, (e.tables.set (e.tables.pteWord virt) p).pde i = e.tables.pde i :=
      fun i hi => hI.pde_entry (by omega) hp hi
    refine ⟨0, { e with tables := e.tables.set (e.tables.pteWord virt) p }, ?_, rfl,
      hI.entry (by omega) hp, hS.congr (hpde 0 (by omega)) (hpde 768 (by omega)),
      fun f hu => inUse_of_same set_cr3 hpde hu, fun u hu tr hw => ?_,
      fun u hu hs => hI.walk_set_other hS hv hp hu hs⟩
    · rw [Machine.vmmPageUnmap, h]
      rfl
    · by_cases hs : SamePage u virt
      · dsimp only at hw
        rw [hI.walk_set_same hS hv hp hu hs, hnot] at hw
        cases hw
      · rw [← hI.walk_set_other hS hv hp hu hs]
        exact hw

theorem Ok.freshTable (hO : e.Ok held) : e.FreshTable virt := by
  intro _ h0
  obtain ⟨-, -, -, hnew⟩ := hO.pmmAllocPage Prod.mk.eta.symm
  exact hO.not_inUse (hnew h0).1 (hnew h0).2.1

theorem Ok.mapBelow (hO : e.Ok held) (hS : e.tables.SharedTable) (hv : virt < ptBaseVaddr)
    (phys flags : Nat) : ∃ res e' held', e.vmmPageMap phys virt flags = some (res, e') ∧
      e'.Ok held' ∧ held ⊆ held' ∧ e'.tables.SharedTable ∧
      (∀ f, f * 4096 ∈ held → e'.tables.InUse f → e.tables.InUse f) ∧
      ((res = 0 ∧ MapsTo e.tables e'.tables phys virt flags) ∨
        (res = enomem ∧ e.NoTable virt ∧ e'.tables = e.tables)) := by
  have hlt : virt < 4290772992 := hv
  obtain ⟨res, e', h, hI', hS', hsame, hres⟩ :=
    Machine.mapBelow hO.tables hS hv hO.freshTable phys flags
  have hres : (res = 0 ∧ MapsTo e.tables e'.tables phys virt flags) ∨
      (res = enomem ∧ e.NoTable virt ∧ e'.tables = e.tables) :=
    hres.imp_left fun hm => ⟨hm.1, hm.2.2⟩
  by_cases hp : (e.tables.pde (virt / 4194304)).present
  · obtain ⟨hframes, huse⟩ := hsame hp
    have hO' : e'.Ok held := ⟨by rw [hframes]; exact hO.frames, hI', fun f hu =>
      hO.inUse f (huse f hu)⟩
    exact ⟨res, e', held, h, hO', subset_rfl, hS', fun f _ hu => huse f hu, hres⟩
  · have hmappable := hS.mappable hv hp
    obtain ⟨res', e₂, held', h', hO', hsub, -, huse⟩ := hO.vmmPageMap hmappable phys flags
    obtain ⟨rfl, rfl⟩ := Prod.mk.inj (Option.some.inj (h.symm.trans h'))
    exact ⟨_, _, held', h, hO', hsub, hS', huse, hres⟩

theorem Ok.unmapBelow (hO : e.Ok held) (hS : e.tables.SharedTable) (hv : virt < ptBaseVaddr) :
    ∃ res e', e.vmmPageUnmap virt = some (res, e') ∧ e'.Ok held ∧ e'.tables.SharedTable ∧
      (∀ f, e'.tables.InUse f → e.tables.InUse f) ∧
      ∀ u < ptBaseVaddr, ¬ SamePage u virt → e'.tables.walk u = e.tables.walk u := by
  obtain ⟨res, e', h, hframes, hI', hS', huse, -, hothers⟩ := Machine.unmapBelow hO.tables hS hv
  exact ⟨res, e', h, ⟨by rw [hframes]; exact hO.frames, hI', fun f hu => hO.inUse f (huse f hu)⟩,
    hS', huse, hothers⟩

end Machine

theorem pmmDirectoryInit_shared {magic kernelEnd : Nat} {mbd : Multiboot} {mem : Nat → Page}
    {s : Frames} {t : Tables} (h : pmmDirectoryInit magic kernelEnd mbd mem = some (s, t)) :
    t.SharedTable := by
  obtain ⟨bitmap, d, e, hb, hI, hne, hd, he, ht, -⟩ := pmmDirectoryInit_eq h
  have hpde := fun k => firstTables_pde (k := k) mem (show d < 1048576 by omega) hne
  rw [← ht] at hpde
  have h0 := hpde 0 (by omega)
  have h768 := hpde 768 (by omega)
  rw [if_neg (by omega), if_pos (by omega)] at h0 h768
  refine ⟨?_, ?_, ?_⟩
  · rw [h0]
    exact ⟨rfl, rfl⟩
  · rw [h768]
    exact ⟨rfl, rfl⟩
  · rw [h0, h768]

end ChoOS
