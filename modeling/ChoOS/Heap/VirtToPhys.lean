import ChoOS.Heap.Mapped
import ChoOS.Heap.Shrink
import ChoOS.Paging.Below

/-!
# `vmm_virt_to_phys` and the page tables

`vmm_virt_to_phys` subtracts `KERNEL_VIRT_OFFSET`; what the hardware does is in the tables.
`Tables.Linear` says that the two agree from 4 MiB up to the recursive window.  Below 4 MiB
the directory shows the first table of the kernel a second time, and there they never do.

The tables start linear, and `vmm_page_unmap` keeps them so.  A mapping keeps them so if the
frame is the one of the address (`Faithful`) and only then: `MapsTo.linear_iff`.
`virt_to_phys_linear` is this over runs of calls, `sbrk` among them, which maps a page to
whatever frame `pmm_alloc_page` returns.
-/

namespace ChoOS

open Tables

/-- `vmm_virt_to_phys` -/
def vmmVirtToPhys (virt : Nat) : Nat := v2p virt

/-- `vmm_virt_to_phys` is right at every page from 4 MiB up to the recursive window. -/
def Tables.Linear (t : Tables) : Prop := ∀ v tr, 4194304 ≤ v → v < ptBaseVaddr →
  t.walk v = some tr → vmmVirtToPhys v = tr.frame * 4096 + v % 4096

/-- The page of `virt` is given the frame that `vmm_virt_to_phys` expects. -/
def Faithful (phys virt : Nat) : Prop := frameOf phys = frameOf (v2p (kernelAddr virt))

instance (phys virt : Nat) : Decidable (Faithful phys virt) := inferInstanceAs (Decidable (_ = _))

/-! ### One entry -/

section Entry

variable {t t' t'' : Tables} {u v phys virt flags : Nat} {f : Fin 1048576} {tr : Translation}

theorem virtToPhys_eq_iff : vmmVirtToPhys v = f * 4096 + v % 4096 ↔ f = frameOf (v2p v) := by
  have hoff : u32 3221225472 = 3221225472 := rfl
  rw [Fin.ext_iff, frameOf, Fin.val_ofNat, vmmVirtToPhys, v2p, sub32, kernelVirtOffset, hoff, u32]
  omega

theorem frameOf_v2p_congr (h : u / 4096 = v / 4096) : frameOf (v2p u) = frameOf (v2p v) := by
  have hoff : u32 3221225472 = 3221225472 := rfl
  rw [Fin.ext_iff, frameOf, frameOf, Fin.val_ofNat, Fin.val_ofNat, v2p, v2p, sub32, sub32,
    kernelVirtOffset, hoff, u32, u32]
  omega

/-- The two views of the shared table have different frames under `V2P`. -/
theorem frameOf_v2p_low (h : v < 4194304) : frameOf (v2p v) ≠ frameOf (v2p (kernelAddr v)) := by
  have hoff : u32 3221225472 = 3221225472 := rfl
  rw [Ne, Fin.ext_iff, frameOf, frameOf, Fin.val_ofNat, Fin.val_ofNat, kernelAddr, if_pos h, v2p,
    v2p, sub32, sub32, kernelVirtOffset, hoff, u32, u32]
  omega

theorem kernelAddr_idem (v : Nat) : kernelAddr (kernelAddr v) = kernelAddr v := by
  rcases kernelAddr_cases v with ⟨-, hk⟩ | ⟨h, hk⟩ <;> rw [hk]
  · exact if_neg (by omega)
  · exact hk

theorem kernelAddr_bounds (h : v < ptBaseVaddr) :
    4194304 ≤ kernelAddr v ∧ kernelAddr v < ptBaseVaddr := by
  rw [ptBaseVaddr] at *
  rcases kernelAddr_cases v with ⟨hlt, hk⟩ | ⟨hle, hk⟩ <;> rw [hk] <;> omega

theorem linear_iff : t.Linear ↔
    ∀ v tr, 4194304 ≤ v → v < ptBaseVaddr → t.walk v = some tr → tr.frame = frameOf (v2p v) :=
  forall₅_congr fun _ _ _ _ _ => virtToPhys_eq_iff

theorem Tables.SharedTable.walk_kernelAddr (hS : t.SharedTable) (hw : t.walk v = some tr) :
    ∃ tr', t.walk (kernelAddr v) = some tr' ∧ tr'.frame = tr.frame := by
  rcases kernelAddr_cases v with ⟨hlt, hk⟩ | ⟨-, hk⟩ <;> rw [hk]
  · have h0 : v / 4194304 % 1024 = 0 := by omega
    have h768 : (v + 3221225472) / 4194304 % 1024 = 768 := by omega
    have hpage : (v + 3221225472) / 4096 % 1024 = v / 4096 % 1024 := by omega
    simp only [walk, h0, hS.low.1, if_true] at hw
    split at hw
    · rename_i hp
      obtain rfl := Option.some.inj hw
      simp only [walk, h768, hpage, hS.kernel.1, if_true, ← hS.same, hp]
      exact ⟨_, rfl, rfl⟩
    · cases hw
  · exact ⟨tr, hw, rfl⟩

/-- **In linear tables** `vmm_virt_to_phys` is right at a page exactly when it is not one of
the first 4 MiB. -/
theorem Tables.Linear.agrees_iff (hL : t.Linear) (hS : t.SharedTable) (hv : v < ptBaseVaddr)
    (hw : t.walk v = some tr) :
    vmmVirtToPhys v = tr.frame * 4096 + v % 4096 ↔ 4194304 ≤ v := by
  refine ⟨fun he => ?_, fun hle => hL v tr hle hv hw⟩
  by_contra hlt
  obtain ⟨tr', hw', hf⟩ := hS.walk_kernelAddr hw
  obtain ⟨hlo, hhi⟩ := kernelAddr_bounds hv
  have hfar := linear_iff.mp hL _ tr' hlo hhi hw'
  have hnear := virtToPhys_eq_iff.mp he
  exact frameOf_v2p_low (Nat.lt_of_not_le hlt) (by rw [← hnear, ← hfar, hf])

theorem Tables.MapsTo.linear (hm : MapsTo t t' phys virt flags) (hL : t.Linear)
    (hf : Faithful phys virt) : t'.Linear := by
  refine linear_iff.mpr fun v tr hlo hhi hw => ?_
  by_cases hs : SamePage v virt
  · obtain ⟨user, hpage⟩ := hm.page v hhi hs
    obtain rfl := Option.some.inj (hw.symm.trans hpage)
    have hk : kernelAddr v = v := if_neg (by omega)
    have hsame := frameOf_v2p_congr hs
    rw [hk] at hsame
    exact hf.trans hsame.symm
  · rw [hm.others v hhi hs] at hw
    exact linear_iff.mp hL v tr hlo hhi hw

/-- Another one does not, and nothing that leaves the page makes up for it. -/
theorem Tables.MapsTo.not_linear (hm : MapsTo t t' phys virt flags) (hv : virt < ptBaseVaddr)
    (hf : ¬ Faithful phys virt)
    (hkept : ∀ u < ptBaseVaddr, SamePage u virt → t''.walk u = t'.walk u) : ¬ t''.Linear := by
  intro hL
  obtain ⟨hlo, hhi⟩ := kernelAddr_bounds hv
  have hs : SamePage (kernelAddr virt) virt := congrArg (· / 4096) (kernelAddr_idem virt)
  obtain ⟨user, hpage⟩ := hm.page _ hhi hs
  exact hf (linear_iff.mp hL _ _ hlo hhi ((hkept _ hhi hs).trans hpage))

end Entry

/-! ### The loops -/

/-- The loop of `increment_brk` calls `vmm_page_map` for the page at `v` and the frame `p`, on
the machine `e'`. -/
inductive LoopMaps (top : Nat) : Nat → Machine → Machine → Nat → Nat → Prop
  | here {vaddr : Nat} {e : Machine} : vaddr < top → e.pmmAllocPage.1 ≠ 0 →
      LoopMaps top vaddr e e.pmmAllocPage.2 e.pmmAllocPage.1 vaddr
  | later {vaddr p v : Nat} {e e₂ e' : Machine} : vaddr < top → e.pmmAllocPage.1 ≠ 0 →
      e.pmmAllocPage.2.vmmPageMap e.pmmAllocPage.1 vaddr 3 = some (0, e₂) →
      LoopMaps top (u32 (vaddr + pageSize)) e₂ e' p v → LoopMaps top vaddr e e' p v

section Loop

variable {h h' : Heap Machine} {e e₁ e₂ e' : Machine} {top vaddr n new p v : Nat} {ok : Bool}
  {as : List Nat} {res : Int}

theorem LoopMaps.lt (hl : LoopMaps top vaddr e e' p v) : vaddr < top ∧ e.pmmAllocPage.1 ≠ 0 := by
  cases hl with
  | here hlt h0 => exact ⟨hlt, h0⟩
  | later hlt h0 _ _ => exact ⟨hlt, h0⟩

theorem next_page (hv : vaddr < ptBaseVaddr) : u32 (vaddr + pageSize) = vaddr + 4096 := by
  rw [ptBaseVaddr] at hv
  exact u32_of_lt (by rw [pageSize]; omega)

theorem LoopMaps.later_iff (hv : vaddr < ptBaseVaddr) (hlt : vaddr < top)
    (h0 : e.pmmAllocPage.1 ≠ 0)
    (hm : e.pmmAllocPage.2.vmmPageMap e.pmmAllocPage.1 vaddr 3 = some (0, e₂)) :
    LoopMaps top vaddr e e' p v ↔
      (e' = e.pmmAllocPage.2 ∧ p = e.pmmAllocPage.1 ∧ v = vaddr) ∨
        LoopMaps top (vaddr + 4096) e₂ e' p v := by
  constructor
  · intro hl
    cases hl with
    | here _ _ => exact .inl ⟨rfl, rfl, rfl⟩
    | later _ _ hm' hl =>
      obtain ⟨-, rfl⟩ := Prod.mk.inj (Option.some.inj (hm.symm.trans hm'))
      rw [next_page hv] at hl
      exact .inr hl
  · rintro (⟨rfl, rfl, rfl⟩ | hl)
    · exact .here hlt h0
    · exact .later hlt h0 hm (by rw [next_page hv]; exact hl)

/-- What a loop that maps from `vaddr` on has done to the tables. -/
structure LoopRun (top vaddr : Nat) (e e' : Machine) : Prop where
  inv : e'.tables.Inv
  shared : e'.tables.SharedTable
  others : ∀ u < ptBaseVaddr, (∀ v, vaddr ≤ v → v < top → ¬ SamePage u v) →
    e'.tables.walk u = e.tables.walk u
  linear : e.tables.Linear →
    (e'.tables.Linear ↔ ∀ e₁ p v, LoopMaps top vaddr e e₁ p v → e₁.NoTable v ∨ Faithful p v)

theorem LoopRun.same (hI : e.tables.Inv) (hS : e.tables.SharedTable)
    (ht : e'.tables = e.tables)
    (hno : ∀ e₁ p v, LoopMaps top vaddr e e₁ p v → e₁.NoTable v) : LoopRun top vaddr e e' := by
  refine ⟨by rwa [ht], by rwa [ht], fun _ _ _ => by rw [ht], fun hL => ?_⟩
  rw [ht]
  exact iff_of_true hL fun e₁ p v hl => .inl (hno e₁ p v hl)

theorem LoopRun.cons (hv : vaddr < ptBaseVaddr) (hlt : vaddr < top)
    (hlen : top ≤ vaddr + 2147487744) (h0 : e.pmmAllocPage.1 ≠ 0)
    (hm : e.pmmAllocPage.2.vmmPageMap e.pmmAllocPage.1 vaddr 3 = some (0, e₂))
    (hno : ¬ e.pmmAllocPage.2.NoTable vaddr)
    (hmaps : MapsTo e.tables e₂.tables e.pmmAllocPage.1 vaddr 3)
    (hrun : LoopRun top (vaddr + 4096) e₂ e') : LoopRun top vaddr e e' := by
  have hother : ∀ u v, vaddr + 4096 ≤ v → v < top → SamePage u vaddr → ¬ SamePage u v := by
    intro u v hge hlt' hs hs'
    rw [SamePage] at hs hs'
    rcases kernelAddr_cases v with ⟨hl, hk⟩ | ⟨hl, hk⟩ <;>
      rcases kernelAddr_cases vaddr with ⟨hl', hk'⟩ | ⟨hl', hk'⟩ <;> rw [hk] at hs' <;>
        rw [hk'] at hs <;> omega
  refine ⟨hrun.inv, hrun.shared, fun u hu hno => ?_, fun hL => ?_⟩
  · rw [hrun.others u hu fun v hge hlt' => hno v (by omega) hlt']
    exact hmaps.others u hu (hno vaddr (Nat.le_refl _) hlt)
  by_cases hf : Faithful e.pmmAllocPage.1 vaddr
  · rw [hrun.linear (hmaps.linear hL hf)]
    constructor
    · intro hall e₁ p v hl
      rcases (LoopMaps.later_iff hv hlt h0 hm).mp hl with ⟨-, rfl, rfl⟩ | hl
      · exact .inr hf
      · exact hall e₁ p v hl
    · intro hall e₁ p v hl
      exact hall e₁ p v ((LoopMaps.later_iff hv hlt h0 hm).mpr (.inr hl))
  · refine iff_of_false (hmaps.not_linear hv hf fun u hu hs => ?_) fun hall => ?_
    · exact hrun.others u hu fun v hge hlt' => hother u v hge hlt' hs
    · rcases hall _ _ _ (.here hlt h0) with h | h
      · exact hno h
      · exact hf h

theorem LoopMaps.round (hl : LoopMaps top vaddr e e.pmmAllocPage.2 e.pmmAllocPage.1 vaddr)
    (hbelow : ∀ e₁ p v, LoopMaps top vaddr e e₁ p v → v < ptBaseVaddr ∧ e₁.FreshTable v)
    (hI : e.tables.Inv) (hS : e.tables.SharedTable)
    (hm : e.pmmAllocPage.2.vmmPageMap e.pmmAllocPage.1 vaddr 3 = some (res, e₂)) :
    vaddr < ptBaseVaddr ∧ e₂.tables.Inv ∧ e₂.tables.SharedTable ∧
      ((res = 0 ∧ ¬ e.pmmAllocPage.2.NoTable vaddr ∧
        MapsTo e.tables e₂.tables e.pmmAllocPage.1 vaddr 3) ∨
      (res = enomem ∧ e.pmmAllocPage.2.NoTable vaddr ∧ e₂.tables = e.tables)) := by
  have ht : e.pmmAllocPage.2.tables = e.tables := Machine.pmmAllocPage_tables rfl
  obtain ⟨hv, hfresh⟩ := hbelow _ _ _ hl
  obtain ⟨res', e', hm', hI', hS', -, hres⟩ := Machine.mapBelow (by rw [ht]; exact hI)
    (by rw [ht]; exact hS) hv hfresh e.pmmAllocPage.1 3
  obtain ⟨rfl, rfl⟩ := Prod.mk.inj (Option.some.inj (hm.symm.trans hm'))
  rw [ht] at hres
  exact ⟨hv, hI', hS', hres⟩

theorem MapRounds.loopRun (hrun : MapRounds top vaddr h ok h') (hI : h.env.tables.Inv)
    (hS : h.env.tables.SharedTable) (hlen : top ≤ vaddr + 2147487744)
    (hbelow : ∀ e p v, LoopMaps top vaddr h.env e p v → v < ptBaseVaddr ∧ e.FreshTable v) :
    LoopRun top vaddr h.env h'.env := by
  induction hrun with
  | done hge => exact .same hI hS rfl fun e₁ p v hl => absurd hl.lt.1 hge
  | noPage _ h0 =>
    exact .same hI hS (Machine.pmmAllocPage_tables rfl) fun e₁ p v hl => absurd h0 hl.lt.2
  | noTable hlt h0 hm hres =>
    obtain ⟨-, -, -, ⟨hz, -⟩ | ⟨-, hno, ht⟩⟩ := (LoopMaps.here hlt h0).round hbelow hI hS hm
    · exact absurd hz hres
    refine .same hI hS ht fun e₁ p v hl => ?_
    cases hl with
    | here _ _ => exact hno
    | later _ _ hm' _ => exact absurd (Prod.mk.inj (Option.some.inj (hm.symm.trans hm'))).1 hres
  | page hlt h0 hm _ ih =>
    obtain ⟨hv, hI', hS', ⟨-, hno, hmaps⟩ | ⟨hz, -⟩⟩ := (LoopMaps.here hlt h0).round hbelow hI hS hm
    · rw [next_page hv] at ih
      have hrun := ih hI' hS' (by omega) fun e p v hl =>
        hbelow e p v ((LoopMaps.later_iff hv hlt h0 hm).mpr (.inr hl))
      exact .cons hv hlt hlen h0 hm hno hmaps hrun
    · exact absurd hz (by decide)

theorem UnmapRun.linear (hrun : UnmapRun new h as h') (hI : h.env.tables.Inv)
    (hS : h.env.tables.SharedTable) (hbelow : ∀ a ∈ as, a < ptBaseVaddr) :
    h'.env.tables.Inv ∧ h'.env.tables.SharedTable ∧
      (h.env.tables.Linear → h'.env.tables.Linear) := by
  induction hrun with
  | done _ => exact ⟨hI, hS, id⟩
  | @page h h' as res e _ hu _ ih =>
    obtain ⟨res', e₁, hu', -, hI₁, hS₁, -, hwalk, -⟩ := Machine.unmapBelow
      (e := h.env.pmmFreePage (v2p (sub32 h.programBreakPoint pageSize))) hI hS
      (hbelow _ List.mem_cons_self)
    obtain ⟨-, rfl⟩ := Prod.mk.inj (Option.some.inj (hu.symm.trans hu'))
    obtain ⟨hI', hS', hL'⟩ := ih hI₁ hS₁ fun a ha => hbelow a (List.mem_cons_of_mem _ ha)
    exact ⟨hI', hS', fun hL => hL' fun v tr hlo hhi hw => hL v tr hlo hhi (hwalk v hhi tr hw)⟩

/-- What `decrement_brk` relies on: in linear tables the frames that it frees are those of the
pages that it unmaps. -/
theorem Tables.Linear.freedFrames_eq (hL : h.env.tables.Linear) (hall : ∀ a ∈ as,
    4194304 ≤ a ∧ a < ptBaseVaddr ∧ (h.env.tables.walk a).isSome) :
    freedFrames as = backingFrames h as := by
  refine ChoOS.freedFrames_eq fun a ha => ?_
  obtain ⟨hlo, hhi, hmapped⟩ := hall a ha
  obtain ⟨tr, hw⟩ := Option.isSome_iff_exists.mp hmapped
  have hphys : v2p a = tr.frame * 4096 + a % 4096 := hL a tr hlo hhi hw
  exact ⟨tr, hw, by omega⟩

end Loop

/-! ### Runs -/

inductive VmmCall
  | vmmPageMap (phys virt flags : Nat) (res : Int)
  | vmmPageUnmap (virt : Nat) (res : Int)
  | sbrk (increment r : Nat)

/-- One call that returns. -/
inductive VmmCallStep : Heap Machine → VmmCall → Heap Machine → Prop
  | vmmPageMap {h h' : Heap Machine} {phys virt flags : Nat} {res : Int} :
      heapPageMap phys virt flags h = some (res, h') →
      VmmCallStep h (.vmmPageMap phys virt flags res) h'
  | vmmPageUnmap {h : Heap Machine} {virt : Nat} {res : Int} {e : Machine} :
      h.env.vmmPageUnmap virt = some (res, e) →
      VmmCallStep h (.vmmPageUnmap virt res) { h with env := e }
  | sbrk {h h' : Heap Machine} {increment r : Nat} : increment < 4294967296 →
      sbrk increment h = some (r, h') → VmmCallStep h (.sbrk increment r) h'

namespace VmmCall

/-- In the state `h`, the call makes the call `vmm_page_map(p, v)`, on the machine `e`. -/
def Maps (h : Heap Machine) : VmmCall → Machine → Nat → Nat → Prop
  | .vmmPageMap phys virt _ _, e, p, v => e = h.env ∧ p = phys ∧ v = virt
  | .vmmPageUnmap _ _, _, _, _ => False
  | .sbrk increment _, e, p, v => 0 < increment ∧ increment < 2147483648 ∧
      LoopMaps (pageRoundUp (u32 (h.programBreakPoint + increment)))
        (pageRoundUp h.programBreakPoint) h.env e p v

/-- The call makes the call `vmm_page_unmap(v)`. -/
def Unmaps (h : Heap Machine) : VmmCall → Nat → Prop
  | .vmmPageMap _ _ _ _, _ => False
  | .vmmPageUnmap virt _, v => v = virt
  | .sbrk increment _, v => 2147483648 ≤ increment ∧
      h.heapStart ≤ sub32 h.programBreakPoint (4294967296 - increment) ∧
      ∃ as h', UnmapRun (sub32 h.programBreakPoint (4294967296 - increment)) h as h' ∧ v ∈ as

/-- The call stays below the recursive window, and puts no table in the frame of another. -/
structure LeavesTables (c : VmmCall) (h : Heap Machine) : Prop where
  maps : ∀ e p v, c.Maps h e p v → v < ptBaseVaddr ∧ e.FreshTable v
  unmaps : ∀ v, c.Unmaps h v → v < ptBaseVaddr

/-- Each page that is mapped is given the frame that `vmm_virt_to_phys` expects. -/
def MapsFaithfully (c : VmmCall) (h : Heap Machine) : Prop :=
  ∀ e p v, c.Maps h e p v → e.NoTable v ∨ Faithful p v

end VmmCall

structure FaithfulStep (h : Heap Machine) (c : VmmCall) (h' : Heap Machine) : Prop where
  call : VmmCallStep h c h'
  leaves : c.LeavesTables h
  faithful : c.MapsFaithfully h

section Runs

variable {h h' h₀ : Heap Machine} {c : VmmCall} {cs : List VmmCall} {increment r : Nat}

theorem growth_le (b : Nat) (hlt : increment < 2147483648) :
    pageRoundUp (u32 (b + increment)) ≤ pageRoundUp b + 2147487744 := by
  rw [pageRoundUp, pageRoundUp, u32, u32, u32]
  omega

theorem sbrk_linear (hs : sbrk increment h = some (r, h'))
    (hl : (VmmCall.sbrk increment r).LeavesTables h) (hI : h.env.tables.Inv)
    (hS : h.env.tables.SharedTable) :
    h'.env.tables.Inv ∧ h'.env.tables.SharedTable ∧ (h.env.tables.Linear →
      (h'.env.tables.Linear ↔ (VmmCall.sbrk increment r).MapsFaithfully h)) := by
  have hloop : ∀ {ok : Bool} {h₁ : Heap Machine}, 0 < increment → increment < 2147483648 →
      MapRounds (pageRoundUp (u32 (h.programBreakPoint + increment)))
        (pageRoundUp h.programBreakPoint) h ok h₁ →
      h₁.env.tables.Inv ∧ h₁.env.tables.SharedTable ∧ (h.env.tables.Linear →
        (h₁.env.tables.Linear ↔ (VmmCall.sbrk increment r).MapsFaithfully h)) := by
    intro ok h₁ hpos hlt hrun
    obtain ⟨hI', hS', -, hL'⟩ := hrun.loopRun hI hS (growth_le _ hlt) fun e p v hm =>
      hl.maps e p v ⟨hpos, hlt, hm⟩
    refine ⟨hI', hS', fun hL => (hL' hL).trans ?_⟩
    exact forall₃_congr fun e p v =>
      ⟨fun hf hm => hf hm.2.2, fun hf hm => hf ⟨hpos, hlt, hm⟩⟩
  cases sbrk_done hs with
  | zero h0 => exact ⟨hI, hS, fun hL => iff_of_true hL fun e p v hm => absurd hm.1 (by omega)⟩
  | noPages _ _ hmap =>
    exact ⟨hI, hS, fun hL => iff_of_true hL fun e p v hm => absurd hm.2.2.lt.1 hmap⟩
  | grown hpos hlt _ hrun =>
    have hgrown := hloop hpos hlt hrun
    exact hgrown
  | failed hpos hlt _ hrun => exact hloop hpos hlt hrun
  | refused hneg _ =>
    exact ⟨hI, hS, fun hL => iff_of_true hL fun e p v hm => absurd hm.2.1 (by omega)⟩
  | shrunk hneg hroom hrun =>
    obtain ⟨hI', hS', hL'⟩ := hrun.linear hI hS fun a ha =>
      hl.unmaps a ⟨hneg, hroom, _, _, hrun, ha⟩
    exact ⟨hI', hS', fun hL => iff_of_true (hL' hL) fun e p v hm => absurd hm.2.1 (by omega)⟩

/-- **One call** keeps the tables linear exactly when its mappings are faithful. -/
theorem VmmCallStep.linear (hs : VmmCallStep h c h') (hl : c.LeavesTables h)
    (hI : h.env.tables.Inv) (hS : h.env.tables.SharedTable) :
    h'.env.tables.Inv ∧ h'.env.tables.SharedTable ∧
      (h.env.tables.Linear → (h'.env.tables.Linear ↔ c.MapsFaithfully h)) := by
  cases hs with
  | @vmmPageMap _ phys virt flags res hm =>
    obtain ⟨hv, hfresh⟩ := hl.maps _ _ _ ⟨rfl, rfl, rfl⟩
    obtain ⟨res', e', hmap, hI', hS', -, hres⟩ := Machine.mapBelow hI hS hv hfresh phys flags
    obtain ⟨⟨res'', e⟩, hmap', hm⟩ := Option.bind_eq_some_iff.mp hm
    obtain ⟨rfl, rfl⟩ := Prod.mk.inj (Option.some.inj (hmap.symm.trans hmap'))
    obtain ⟨rfl, rfl⟩ := Prod.mk.inj (Option.some.inj hm)
    refine ⟨hI', hS', fun hL => ?_⟩
    have hone : (VmmCall.vmmPageMap phys virt flags res').MapsFaithfully h ↔
        h.env.NoTable virt ∨ Faithful phys virt := by
      constructor
      · intro hf
        exact hf _ _ _ ⟨rfl, rfl, rfl⟩
      · rintro hf e p v ⟨rfl, rfl, rfl⟩
        exact hf
    rw [hone]
    rcases hres with ⟨-, hno, hmaps⟩ | ⟨-, hno, ht⟩
    · rw [or_iff_right hno]
      refine ⟨fun hL' => ?_, hmaps.linear hL⟩
      by_contra hf
      exact hmaps.not_linear hv hf (fun _ _ _ => rfl) hL'
    · dsimp only
      rw [ht]
      exact iff_of_true hL (.inl hno)
  | @vmmPageUnmap virt res e hu =>
    obtain ⟨res', e', hu', -, hI', hS', -, hwalk, -⟩ :=
      Machine.unmapBelow hI hS (hl.unmaps virt rfl)
    obtain ⟨-, rfl⟩ := Prod.mk.inj (Option.some.inj (hu.symm.trans hu'))
    refine ⟨hI', hS', fun hL => iff_of_true (fun v tr hlo hhi hw => ?_) fun e p v hm => hm.elim⟩
    exact hL v tr hlo hhi (hwalk v hhi tr hw)
  | sbrk _ hs => exact sbrk_linear hs hl hI hS

theorem pmmDirectoryInit_linear {magic kernelEnd : Nat} {mbd : Multiboot} {mem : Nat → Page}
    {s : Frames} {t : Tables} (h : pmmDirectoryInit magic kernelEnd mbd mem = some (s, t)) :
    t.Linear := by
  obtain ⟨d, e, hd⟩ := pmmDirectoryInit_spec h
  obtain ⟨-, hwalk⟩ := pmmDirectoryInit_walk h
  refine linear_iff.mpr fun v tr hlo hhi hw => ?_
  have hhi : v < 4290772992 := hhi
  by_cases hk : v / 4194304 = 768
  · rw [hwalk v (by omega) (by omega)] at hw
    obtain rfl := Option.some.inj hw
    exact congrArg frameOf (sub32_of_le (show 3221225472 ≤ v by omega) (by omega)).symm
  · rw [walk_of_no_table (hd.empty _ (by omega) (by omega) (by omega))] at hw
    cases hw

/-- **`vmm_virt_to_phys` agrees with the tables** at the pages from 4 MiB on, and at no
others, in every state of a run whose mappings are faithful; and it goes on to agree exactly
when the mappings of the next call are. -/
theorem virt_to_phys_linear {magic kernelEnd : Nat} {mbd : Multiboot} {mem : Nat → Page}
    {s : Frames} {t₀ : Tables} {ram : Nat → UInt8} {m : ByteMem}
    (hinit : pmmDirectoryInit magic kernelEnd mbd mem = some (s, t₀))
    (hheap : heapInit kernelEnd m (Machine.start s t₀ ram) = some h₀)
    (hrun : Trace FaithfulStep h₀ cs h) :
    (∀ v < ptBaseVaddr, ∀ tr, h.env.tables.walk v = some tr →
      (vmmVirtToPhys v = tr.frame * 4096 + v % 4096 ↔ 4194304 ≤ v)) ∧
    ∀ c h', VmmCallStep h c h' → c.LeavesTables h →
      (h'.env.tables.Linear ↔ c.MapsFaithfully h) := by
  obtain ⟨d, e, hd⟩ := pmmDirectoryInit_spec hinit
  have henv := heapInit_env hheap
  have hstart : h₀.env.tables.Inv ∧ h₀.env.tables.SharedTable ∧ h₀.env.tables.Linear := by
    rw [henv]
    exact ⟨hd.inv, pmmDirectoryInit_shared hinit, pmmDirectoryInit_linear hinit⟩
  obtain ⟨hI, hS, hL⟩ := hrun.invariant
    (I := fun h => h.env.tables.Inv ∧ h.env.tables.SharedTable ∧ h.env.tables.Linear) hstart
    fun h c h' ⟨hI, hS, hL⟩ hs => by
      obtain ⟨hI', hS', hL'⟩ := hs.call.linear hs.leaves hI hS
      exact ⟨hI', hS', (hL' hL).mpr hs.faithful⟩
  exact ⟨fun v hv tr hw => hL.agrees_iff hS hv hw, fun c h' hs hl =>
    (hs.linear hl hI hS).2.2 hL⟩

/-- One faithful mapping. -/
theorem virt_to_phys_linear_page : ∃ s t₀ h₀ h₁,
    pmmDirectoryInit multibootBootloaderMagic 0xC0120000 (entryMap 64) (fun _ => .zero)
      = some (s, t₀) ∧
    heapInit 0xC0120000 (fun _ => 0) (Machine.start s t₀ fun _ => 0) = some h₀ ∧
    Trace FaithfulStep h₀ [.vmmPageMap 0x10000000 0xD0000000 3 0] h₁ ∧
    ∃ tr, h₁.env.tables.walk 0xD0000123 = some tr ∧
      vmmVirtToPhys 0xD0000123 = tr.frame * 4096 + 0xD0000123 % 4096 := by
  obtain ⟨s, t₀, hdir, hspare, held, hO⟩ := exists_spare_frame (fun _ => .zero) 0xD0000000
  obtain ⟨h₀, hheap⟩ : ∃ h₀, heapInit 0xC0120000 (fun _ => 0) (Machine.start s t₀ fun _ => 0)
      = some h₀ := ⟨_, rfl⟩
  have henv := heapInit_env hheap
  rw [← henv] at hspare hO
  have hS : h₀.env.tables.SharedTable := by
    rw [henv]
    exact pmmDirectoryInit_shared hdir
  obtain ⟨res, e', hmap, -, -, -, hres⟩ := Machine.mapBelow hO.tables hS
    (show 0xD0000000 < ptBaseVaddr by decide) hO.freshTable 0x10000000 3
  rcases hres with ⟨rfl, -, hmaps⟩ | ⟨-, hno, -⟩
  · obtain ⟨h₁, hcall, henv₁⟩ : ∃ h₁, heapPageMap 0x10000000 0xD0000000 3 h₀ = some (0, h₁) ∧
        h₁.env = e' := by
      rw [heapPageMap, hmap]
      exact ⟨_, rfl, rfl⟩
    have hleaves : (VmmCall.vmmPageMap 0x10000000 0xD0000000 3 0).LeavesTables h₀ := by
      refine ⟨?_, fun v hv => hv.elim⟩
      rintro e p v ⟨rfl, rfl, rfl⟩
      exact ⟨by decide, hO.freshTable⟩
    have hfaithful : (VmmCall.vmmPageMap 0x10000000 0xD0000000 3 0).MapsFaithfully h₀ := by
      rintro e p v ⟨rfl, rfl, rfl⟩
      exact .inr (by decide)
    have hrun : Trace FaithfulStep h₀ [.vmmPageMap 0x10000000 0xD0000000 3 0] h₁ :=
      .single ⟨.vmmPageMap hcall, hleaves, hfaithful⟩
    obtain ⟨user, hwalk⟩ := hmaps.page 0xD0000123 (by decide) (by decide)
    rw [← henv₁] at hwalk
    exact ⟨s, t₀, h₀, h₁, hdir, hheap, hrun, _, hwalk,
      ((virt_to_phys_linear hdir hheap hrun).1 0xD0000123 (by decide) _ hwalk).mpr (by decide)⟩
  · exact absurd hno hspare

/-- `sbrk(4096)`: the first page of the heap that is not of the kernel's first table. -/
theorem growth_not_linear : ∃ h₀ h₁ tr, BootedHeap 0xC0120000 (entryMap 64) h₀ ∧
    Trace VmmCallStep h₀ [.sbrk 4096 0xC0400000] h₁ ∧
    h₁.env.tables.walk 0xC0400000 = some tr ∧
    vmmVirtToPhys 0xC0400000 ≠ tr.frame * 4096 + 0xC0400000 % 4096 := by
  obtain ⟨h₀, h₁, hboot, hgrow, -, -, -, f, hlo, hhi, hwalk⟩ :=
    exists_grown (show 0 < 4096 by decide) (Nat.le_refl _)
  refine ⟨h₀, h₁, _, hboot, .single (.sbrk hgrow.word hgrow.call), hwalk, ?_⟩
  rw [frameOf_mul (by omega), show vmmVirtToPhys 0xC0400000 = 0x400000 from rfl]
  omega

end Runs

end ChoOS
