import ChoOS.Lib.Trace
import ChoOS.Paging.Vmm

/-!
# The page tables as a finite map

`Tables.Inv` says that every table has a frame of its own, apart from the
directory (entries 0 and 768 share the first table on purpose), and that the
tables made by `vmm_page_map` grant every right, so that the rights of a page
are those of its own entry.  From it a change of one entry is a change of one
page: `Inv.walk_entry_self` and `Inv.walk_entry_of`.

`vmmPageMap_spec` and `vmmPageUnmap_spec` say what the two calls do to the
translation, and `page_table_map` what holds over runs of them.
-/

namespace ChoOS

namespace Tables

variable {t t' : Tables} {v w i j k n : Nat} {p : Page}

/-! ### The steps of `vmm_page_map` -/

/-- Clearing a table through the window clears the words of its frame. -/
theorem zeroWords_spec (hR : t.Recursive) (hi : i < 1023) (hp : (t.pde i).present)
    (hrw : (t.pde i).rw) (hne : ((t.pde i).frame : Nat) ≠ t.cr3) (hk : k + n ≤ 1024) :
    ∃ t', zeroWords (4290772992 + i * 4096 + k * 4) n t = some t' ∧ t'.cr3 = t.cr3 ∧
      ∀ w, t'.mem w = if w / 1024 = (t.pde i).frame ∧ k ≤ w % 1024 ∧ w % 1024 < k + n
        then Page.zero else t.mem w := by
  induction n generalizing k t with
  | zero => exact ⟨t, rfl, rfl, fun w => by rw [if_neg (by omega)]⟩
  | succ n ih =>
    obtain ⟨v, hv⟩ : ∃ v, v = i * 4194304 + k * 4096 := ⟨_, rfl⟩
    have hvi : v / 4194304 = i := by omega
    have ha : 4290772992 + i * 4096 + k * 4 = getPtePtr v := by
      rw [getPtePtr, u32_of_lt] <;> rw [ptBaseVaddr] <;> omega
    have hm := modify_pte hR (v := v) (by omega) (by rw [hvi]; exact hp) (by rw [hvi]; exact hrw)
      (fun _ => Page.zero)
    rw [hvi, show v / 4096 % 1024 = k by omega] at hm
    obtain ⟨t₁, ht₁⟩ : ∃ t₁, t₁ = t.set ((t.pde i).frame * 1024 + k) Page.zero := ⟨_, rfl⟩
    rw [← ht₁] at hm
    have hR₁ : t₁.Recursive := by
      rw [ht₁]
      exact hR.set (by omega)
    have hpde : t₁.pde i = t.pde i := by
      rw [ht₁]
      exact set_pde_of_ne (by omega)
    have hcr3 : t₁.cr3 = t.cr3 := by rw [ht₁, set_cr3]
    obtain ⟨t', hz, hc, hmem⟩ := ih hR₁ (by rw [hpde]; exact hp) (by rw [hpde]; exact hrw)
      (by rw [hpde, hcr3]; exact hne) (k := k + 1) (by omega)
    refine ⟨t', ?_, hc.trans hcr3, fun w => ?_⟩
    · rw [zeroWords, ha, hm, Option.bind_eq_bind, Option.bind_some, ← ha,
        show 4290772992 + i * 4096 + k * 4 + 4 = 4290772992 + i * 4096 + (k + 1) * 4 by omega]
      exact hz
    · rw [hmem, hpde]
      by_cases hw : w = (t.pde i).frame * 1024 + k
      · have hself : t₁.mem w = Page.zero := by rw [ht₁, hw]; exact set_mem_self
        rw [hself, ite_self, if_pos (by omega)]
      · have hother : t₁.mem w = t.mem w := by rw [ht₁]; exact set_mem_of_ne hw
        rw [hother]
        exact if_congr (by omega) rfl rfl

/-- The directory entry of a new table. -/
def newPde (p : Page) (newTablePhys : Nat) : Page :=
  (((p.setFrame (frameOf newTablePhys)).setPresent true).setRw true).setUser true

/-- Two stores through `GET_PDE_PTR` hit the same entry. -/
theorem modify_pde_set (hR : t.Recursive) (hv : v < 4294967296) (hi : v / 4194304 < 1023) (q : Page)
    (f : Page → Page) : (t.set (t.cr3 * 1024 + v / 4194304) q).modify (getPdePtr v) f
      = some (t.set (t.cr3 * 1024 + v / 4194304) (f q)) := by
  rw [modify_pde (hR.set (by omega)) hv, set_cr3, set_pde_self, set_set]

theorem createTable_eq (hR : t.Recursive) (hv : v < 4294967296) (hi : v / 4194304 < 1023) (n : Nat) :
    createTable n v t = zeroWords (pageRoundDown (getPtePtr v)) (pageSize / 4)
      (t.set (t.cr3 * 1024 + v / 4194304) (newPde (t.pde (v / 4194304)) n)) := by
  have hstep := modify_pde_set hR hv hi
  rw [createTable, modify_pde hR hv, Option.bind_eq_bind, Option.bind_some, hstep, Option.bind_some,
    hstep, Option.bind_some, hstep, Option.bind_some]
  rfl

theorem pageRoundDown_getPtePtr (hv : v < 4294967296) :
    pageRoundDown (getPtePtr v) = 4290772992 + v / 4194304 * 4096 + 0 * 4 := by
  rw [getPtePtr, u32_of_lt, pageRoundDown] <;> rw [ptBaseVaddr] <;> omega

/-- **A new table**: its words are zero, its entry is in the directory. -/
theorem createTable_spec (hR : t.Recursive) (hv : v < 4294967296) (hi : v / 4194304 < 1023)
    (hne : (frameOf n : Nat) ≠ t.cr3) :
    ∃ t', createTable n v t = some t' ∧ t'.cr3 = t.cr3 ∧
      ∀ w, t'.mem w = if w / 1024 = frameOf n then Page.zero
        else if w = t.cr3 * 1024 + v / 4194304 then newPde (t.pde (v / 4194304)) n
        else t.mem w := by
  rw [createTable_eq hR hv hi, pageRoundDown_getPtePtr hv]
  obtain ⟨i, hvi⟩ : ∃ i, i = v / 4194304 := ⟨_, rfl⟩
  rw [← hvi] at hi ⊢
  obtain ⟨t₁, ht₁⟩ : ∃ t₁, t₁ = t.set (t.cr3 * 1024 + i) (newPde (t.pde i) n) := ⟨_, rfl⟩
  have hpde : t₁.pde i = newPde (t.pde i) n := by
    rw [ht₁]
    exact set_pde_self
  have hcr3 : t₁.cr3 = t.cr3 := by rw [ht₁, set_cr3]
  have hR₁ : t₁.Recursive := by
    rw [ht₁]
    exact hR.set (by omega)
  obtain ⟨t', hz, hc, hmem⟩ := zeroWords_spec hR₁ hi (by rw [hpde]; rfl) (by rw [hpde]; rfl)
    (by rw [hpde, hcr3]; exact hne) (show 0 + pageSize / 4 ≤ 1024 by decide)
  rw [ht₁] at hz
  refine ⟨t', hz, hc.trans hcr3, fun w => ?_⟩
  · rw [hmem, hpde]
    have hn : pageSize / 4 = 1024 := rfl
    refine if_congr ?_ rfl ?_
    · have hf : (newPde (t.pde i) n).frame = frameOf n := rfl
      rw [hf]
      omega
    by_cases hw : w = t.cr3 * 1024 + i
    · rw [if_pos hw, ht₁, hw]
      exact set_mem_self
    · rw [if_neg hw, ht₁]
      exact set_mem_of_ne hw

/-- The entry that `vmm_page_map` leaves. -/
def mappedPte (p : Page) (phys flags : Nat) : Page :=
  (((p.setFrame (frameOf phys)).setPresent true).setRw (flags.testBit 1)).setUser (flags.testBit 2)

/-- The word of the table entry of `v`. -/
def pteWord (t : Tables) (v : Nat) : Nat :=
  (t.pde (v / 4194304)).frame * 1024 + v / 4096 % 1024

section Write

variable (hR : t.Recursive) (hv : v < 4294967296) (hp : (t.pde (v / 4194304)).present)
  (hrw : (t.pde (v / 4194304)).rw)
include hR hv hp hrw

/-- Two stores through `GET_PTE_PTR` hit the same entry, unless the first one moved it. -/
theorem modify_pteWord_set (hdir : t.pteWord v ≠ t.cr3 * 1024 + v / 4194304)
    (hwin : t.pteWord v ≠ t.cr3 * 1024 + 1023) (q : Page) (f : Page → Page) :
    (t.set (t.pteWord v) q).modify (getPtePtr v) f = some (t.set (t.pteWord v) (f q)) := by
  have hpde : (t.set (t.pteWord v) q).pde (v / 4194304) = t.pde (v / 4194304) :=
    set_pde_of_ne hdir
  rw [modify_pte (hR.set hwin) hv (by rw [hpde]; exact hp) (by rw [hpde]; exact hrw), hpde]
  change some ((t.set (t.pteWord v) q).set (t.pteWord v)
    (f ((t.set (t.pteWord v) q).mem (t.pteWord v)))) = _
  rw [set_mem_self, set_set]

theorem writeEntry_pteWord (hdir : t.pteWord v ≠ t.cr3 * 1024 + v / 4194304)
    (hwin : t.pteWord v ≠ t.cr3 * 1024 + 1023) (phys flags : Nat) :
    writeEntry phys v flags t
      = some (t.set (t.pteWord v) (mappedPte (t.mem (t.pteWord v)) phys flags)) := by
  have hstep := modify_pteWord_set hR hv hp hrw hdir hwin
  simp only [writeEntry, modify_pte hR hv hp hrw, Option.bind_eq_bind, Option.bind_some]
  change ((t.set (t.pteWord v) ((t.mem (t.pteWord v)).setFrame (frameOf phys))).modify
    (getPtePtr v) _).bind _ = _
  simp only [hstep, Option.bind_some, mappedPte]

variable (hi : v / 4194304 < 1023) (hne : ((t.pde (v / 4194304)).frame : Nat) ≠ t.cr3)
include hi hne

theorem modify_pte_set (q : Page) (f : Page → Page) :
    (t.set (t.pteWord v) q).modify (getPtePtr v) f = some (t.set (t.pteWord v) (f q)) :=
  modify_pteWord_set hR hv hp hrw (by rw [pteWord]; omega) (by rw [pteWord]; omega) q f

theorem writeEntry_spec (phys flags : Nat) :
    writeEntry phys v flags t
      = some (t.set (t.pteWord v) (mappedPte (t.mem (t.pteWord v)) phys flags)) :=
  writeEntry_pteWord hR hv hp hrw (by rw [pteWord]; omega) (by rw [pteWord]; omega) phys flags

end Write

/-- In the recursive window an entry is one of the directory. -/
theorem writeEntry_window (hR : t.Recursive) (hv : v < 4294967296) (hd : v / 4194304 = 1023)
    (hk : v / 4096 % 1024 = k) (hne : k ≠ 1023) (phys flags : Nat) :
    writeEntry phys v flags t
      = some (t.set (t.cr3 * 1024 + k) (mappedPte (t.pde k) phys flags)) := by
  have hword : t.pteWord v = t.cr3 * 1024 + k := by rw [pteWord, hd, hR.frame, hk]
  rw [writeEntry_pteWord hR hv (by rw [hd]; exact hR.present) (by rw [hd]; exact hR.rw)
    (by omega) (by omega), hword]
  rfl

/-! ### The invariant -/

/-- The tables are apart. -/
structure Inv (t : Tables) : Prop where
  recursive : t.Recursive
  ne_dir : ∀ i < 1023, (t.pde i).present → ((t.pde i).frame : Nat) ≠ t.cr3
  distinct : ∀ i < 1023, ∀ j < 1023, (t.pde i).present → (t.pde j).present →
    ((t.pde i).frame : Nat) = (t.pde j).frame → i = j ∨ (i = 0 ∧ j = 768) ∨ (i = 768 ∧ j = 0)
  rights : ∀ i < 1023, i ≠ 0 → i ≠ 768 → (t.pde i).present →
    (t.pde i).rw = true ∧ (t.pde i).user = true

/-- The frames that hold the directory or a table. -/
def InUse (t : Tables) (f : Nat) : Prop :=
  f = t.cr3 ∨ ∃ i < 1023, (t.pde i).present ∧ ((t.pde i).frame : Nat) = f

/-- The addresses that `vmm_page_map` may be given: not those of the kernel's
own tables and of the window. -/
structure Mappable (v : Nat) : Prop where
  lt : v < 4294967296
  ne_first : v / 4194304 ≠ 0
  ne_kernel : v / 4194304 ≠ 768
  ne_window : v / 4194304 ≠ 1023

theorem Mappable.dir_lt (hv : Mappable v) : v / 4194304 < 1023 := by
  have := hv.lt
  have := hv.ne_window
  omega

theorem walk_congr (hd : t'.pde (v / 4194304 % 1024) = t.pde (v / 4194304 % 1024))
    (he : (t.pde (v / 4194304 % 1024)).present →
      t'.mem ((t.pde (v / 4194304 % 1024)).frame * 1024 + v / 4096 % 1024)
        = t.mem ((t.pde (v / 4194304 % 1024)).frame * 1024 + v / 4096 % 1024)) :
    t'.walk v = t.walk v := by
  simp only [walk, hd]
  by_cases hp : (t.pde (v / 4194304 % 1024)).present
  · rw [he hp]
  · simp [hp]

theorem walk_of_no_table (h : (t.pde (v / 4194304 % 1024)).present = false) :
    t.walk v = none := by
  simp only [walk, h]
  rfl

theorem walk_of_no_entry
    (h : (t.mem ((t.pde (v / 4194304 % 1024)).frame * 1024 + v / 4096 % 1024)).present = false) :
    t.walk v = none := by
  simp only [walk, h, Bool.false_eq_true, if_false, ite_self]

section Entry

variable (hI : t.Inv) (hd : v / 4194304 < 1023) (hp : (t.pde (v / 4194304)).present)
include hI hd hp

theorem Inv.pteWord_ne (hk : k < 1024) : t.pteWord v ≠ t.cr3 * 1024 + k := by
  have := hI.ne_dir _ hd hp
  rw [pteWord]
  omega

theorem Inv.pde_entry (hk : k < 1024) : (t.set (t.pteWord v) p).pde k = t.pde k :=
  set_pde_of_ne (hI.pteWord_ne hd hp hk)

theorem Inv.entry : (t.set (t.pteWord v) p).Inv := by
  have hpde : ∀ k < 1024, (t.set (t.pteWord v) p).pde k = t.pde k := fun k hk =>
    hI.pde_entry hd hp hk
  refine ⟨hI.recursive.set (hI.pteWord_ne hd hp (by omega)), fun i hi => ?_, fun i hi j hj => ?_,
    fun i hi => ?_⟩
  · rw [hpde i (by omega), set_cr3]
    exact hI.ne_dir i hi
  · rw [hpde i (by omega), hpde j (by omega)]
    exact hI.distinct i hi j hj
  · rw [hpde i (by omega)]
    exact hI.rights i hi

/-- **One entry is one page**, or two in the table that entries 0 and 768 share. -/
theorem Inv.walk_entry_of {u : Nat} (hu : u < 4294967296) (hne : u / 4096 ≠ v / 4096)
    (hshare : ¬ (u / 4194304 = 0 ∧ v / 4194304 = 768) ∧ ¬ (u / 4194304 = 768 ∧ v / 4194304 = 0)) :
    (t.set (t.pteWord v) p).walk u = t.walk u := by
  refine walk_congr (hI.pde_entry hd hp (by omega)) fun hpu => set_mem_of_ne ?_
  rw [pteWord]
  intro he
  have hui : u / 4194304 % 1024 = u / 4194304 := by omega
  rw [hui] at he hpu
  by_cases hw : u / 4194304 = 1023
  · have := hI.ne_dir _ hd hp
    rw [hw, hI.recursive.frame] at he
    omega
  · have := hI.distinct _ (show u / 4194304 < 1023 by omega) _ hd hpu hp (by omega)
    omega

theorem Inv.walk_entry_self {u : Nat} (hu : u / 4096 = v / 4096) :
    (t.set (t.pteWord v) p).walk u = if p.present then
      some ⟨p.frame, (t.pde (v / 4194304)).rw && p.rw, (t.pde (v / 4194304)).user && p.user⟩
      else none := by
  have h1 : u / 4194304 % 1024 = v / 4194304 := by omega
  have hm : (t.set (t.pteWord v) p).mem
      ((t.pde (v / 4194304)).frame * 1024 + u / 4096 % 1024) = p := by
    rw [hu]
    exact set_mem_self
  simp only [walk, h1, hI.pde_entry hd hp (k := v / 4194304) (by omega), hp, if_true, hm]

end Entry

theorem Inv.link (hI : t.Inv) (hv : Mappable v) (hfresh : ¬ t.InUse (frameOf n))
    (hc : t'.cr3 = t.cr3) (hself : t'.pde (v / 4194304) = newPde (t.pde (v / 4194304)) n)
    (hother : ∀ k < 1024, k ≠ v / 4194304 → t'.pde k = t.pde k) : t'.Inv := by
  have hi := hv.dir_lt
  have hnew : ∀ k < 1023, (t.pde k).present → ((t.pde k).frame : Nat) ≠ frameOf n :=
    fun k hk hp he => hfresh (.inr ⟨k, hk, hp, he⟩)
  have hframe : ((newPde (t.pde (v / 4194304)) n).frame : Nat) = frameOf n := rfl
  have hwin := hother 1023 (by omega) (by omega)
  refine ⟨⟨hwin ▸ hI.recursive.present, hwin ▸ hI.recursive.rw, ?_⟩, ?_, ?_, ?_⟩
  · rw [hwin, hc]
    exact hI.recursive.frame
  · intro k hk hp
    rw [hc]
    by_cases hki : k = v / 4194304
    · rw [hki, hself, hframe]
      exact fun h => hfresh (.inl h)
    · rw [hother k (by omega) hki] at hp ⊢
      exact hI.ne_dir k hk hp
  · intro k hk l hl hpk hpl he
    by_cases hki : k = v / 4194304 <;> by_cases hli : l = v / 4194304
    · exact .inl (hki.trans hli.symm)
    · rw [hki, hself, hframe, hother l (by omega) hli] at he
      rw [hother l (by omega) hli] at hpl
      exact absurd he.symm (hnew l hl hpl)
    · rw [hli, hself, hframe, hother k (by omega) hki] at he
      rw [hother k (by omega) hki] at hpk
      exact absurd he (hnew k hk hpk)
    · rw [hother k (by omega) hki] at hpk he
      rw [hother l (by omega) hli] at hpl he
      exact hI.distinct k hk l hl hpk hpl he
  · intro k hk h0 h768 hp
    by_cases hki : k = v / 4194304
    · rw [hki, hself]
      exact ⟨rfl, rfl⟩
    · rw [hother k (by omega) hki] at hp ⊢
      exact hI.rights k hk h0 h768 hp

section Create

variable (hI : t.Inv) (hv : Mappable v) (hfresh : ¬ t.InUse (frameOf n)) (hc : t'.cr3 = t.cr3)
  (hmem : ∀ w, t'.mem w = if w / 1024 = frameOf n then Page.zero
    else if w = t.cr3 * 1024 + v / 4194304 then newPde (t.pde (v / 4194304)) n else t.mem w)
include hfresh hc hmem

theorem pde_create (hk : k < 1024) : t'.pde k
    = if k = v / 4194304 then newPde (t.pde (v / 4194304)) n else t.pde k := by
  have hne : (frameOf n : Nat) ≠ t.cr3 := fun h => hfresh (.inl h)
  rw [pde, hc, hmem, if_neg (by omega)]
  exact if_congr (by omega) rfl rfl

theorem pde_create_self (hi : v / 4194304 < 1024) :
    t'.pde (v / 4194304) = newPde (t.pde (v / 4194304)) n := by
  rw [pde_create hfresh hc hmem hi, if_pos rfl]

theorem pde_create_of_ne (hk : k < 1024) (hne : k ≠ v / 4194304) : t'.pde k = t.pde k := by
  rw [pde_create hfresh hc hmem hk, if_neg hne]

include hI hv

theorem Inv.create : t'.Inv :=
  hI.link hv hfresh hc (pde_create_self hfresh hc hmem (by have := hv.dir_lt; omega))
    fun _ hk hne => pde_create_of_ne hfresh hc hmem hk hne

theorem Inv.walk_create (habs : (t.pde (v / 4194304)).present = false) {u : Nat}
    (hu : u < ptBaseVaddr) : t'.walk u = t.walk u := by
  have hi := hv.dir_lt
  have hu : u < 4290772992 := hu
  have hui : u / 4194304 % 1024 = u / 4194304 := by omega
  by_cases hki : u / 4194304 = v / 4194304
  · have hself := pde_create_self hfresh hc hmem (v := v) (by omega)
    have hold : t.walk u = none := walk_of_no_table (by rw [hui, hki]; exact habs)
    rw [hold, walk_of_no_entry]
    rw [hui, hki, hself]
    have hpte : t'.mem (frameOf n * 1024 + u / 4096 % 1024) = Page.zero := by
      rw [hmem, if_pos (by omega)]
    exact congrArg Page.present hpte
  · refine walk_congr (pde_create_of_ne hfresh hc hmem (by omega) (by omega)) fun hp => ?_
    rw [hui] at hp ⊢
    have h1 := hI.ne_dir (u / 4194304) (by omega) hp
    have h2 : ((t.pde (u / 4194304)).frame : Nat) ≠ frameOf n := fun he =>
      hfresh (.inr ⟨_, by omega, hp, he⟩)
    rw [hmem, if_neg (by omega), if_neg (by omega)]

end Create

/-! ### The two calls -/

/-- The translation after a `vmm_page_map` that returned `0`. -/
structure Mapped (t t' : Tables) (phys virt flags : Nat) : Prop where
  page : ∀ v, v / 4096 = virt / 4096 →
    t'.walk v = some ⟨frameOf phys, flags.testBit 1, flags.testBit 2⟩
  others : ∀ v < ptBaseVaddr, v / 4096 ≠ virt / 4096 → t'.walk v = t.walk v
  cr3 : t'.cr3 = t.cr3
  fixed : ∀ i < 1024, i ≠ virt / 4194304 → t'.pde i = t.pde i

variable {σ : Type}

/-- What `vmm_page_map` can do: the table was there, or it is made in the frame
that `alloc` returns, or there is no frame for it. -/
inductive MapResult (alloc : σ → Nat × σ) (phys virt flags : Nat) (t : Tables) (s : σ) :
    Int → Tables → σ → Prop
  | entry {t' : Tables} : (t.pde (virt / 4194304)).present → Mapped t t' phys virt flags →
      t'.pde (virt / 4194304) = t.pde (virt / 4194304) →
      MapResult alloc phys virt flags t s 0 t' s
  | table {t' : Tables} : (t.pde (virt / 4194304)).present = false → (alloc s).1 ≠ 0 →
      Mapped t t' phys virt flags →
      t'.pde (virt / 4194304) = newPde (t.pde (virt / 4194304)) (alloc s).1 →
      MapResult alloc phys virt flags t s 0 t' (alloc s).2
  | noMemory : (t.pde (virt / 4194304)).present = false → (alloc s).1 = 0 →
      MapResult alloc phys virt flags t s enomem t (alloc s).2

variable {virt : Nat}

theorem Inv.writeEntry (hI : t.Inv) (hv : Mappable virt) (hp : (t.pde (virt / 4194304)).present)
    (phys flags : Nat) :
    ∃ t', writeEntry phys virt flags t = some t' ∧ t'.Inv ∧ Mapped t t' phys virt flags ∧
      t'.pde (virt / 4194304) = t.pde (virt / 4194304) := by
  have hi := hv.dir_lt
  have hr := hI.rights _ hi hv.ne_first hv.ne_kernel hp
  refine ⟨_, writeEntry_spec hI.recursive hv.lt hp hr.1 hi (hI.ne_dir _ hi hp) _ _,
    hI.entry hi hp, ⟨fun v h => ?_, fun v h hne => hI.walk_entry_of hi hp ?_ hne ?_, set_cr3,
    fun i hk _ => hI.pde_entry hi hp hk⟩, hI.pde_entry hi hp (by omega)⟩
  · rw [hI.walk_entry_self hi hp h, hr.1, hr.2, Bool.true_and, Bool.true_and]
    rfl
  · exact Nat.lt_trans h (by decide)
  · exact ⟨fun h => hv.ne_kernel h.2, fun h => hv.ne_first h.2⟩

theorem Inv.createTable (hI : t.Inv) (hv : Mappable virt)
    (habs : (t.pde (virt / 4194304)).present = false) (hfresh : ¬ t.InUse (frameOf n)) :
    ∃ t', createTable n virt t = some t' ∧ t'.Inv ∧ t'.cr3 = t.cr3 ∧
      t'.pde (virt / 4194304) = newPde (t.pde (virt / 4194304)) n ∧
      (∀ i < 1024, i ≠ virt / 4194304 → t'.pde i = t.pde i) ∧
      ∀ v < ptBaseVaddr, t'.walk v = t.walk v := by
  have hi := hv.dir_lt
  obtain ⟨t', h, hc, hmem⟩ := createTable_spec hI.recursive hv.lt hi
    (fun he => hfresh (.inl he))
  exact ⟨t', h, hI.create hv hfresh hc hmem, hc, pde_create_self hfresh hc hmem (by omega),
    fun i hi hne => pde_create_of_ne hfresh hc hmem hi hne,
    fun v hu => hI.walk_create hv hfresh hc hmem habs hu⟩

/-- **`vmm_page_map`** returns, and maps the page or has no memory for a table. -/
theorem vmmPageMap_spec (alloc : σ → Nat × σ) (s : σ) (hI : t.Inv) (hv : Mappable virt)
    (halloc : (alloc s).1 ≠ 0 → ¬ t.InUse (frameOf (alloc s).1)) (phys flags : Nat) :
    ∃ res t' s', vmmPageMap alloc phys virt flags t s = some (res, t', s') ∧ t'.Inv ∧
      MapResult alloc phys virt flags t s res t' s' := by
  have hload := load_pde hI.recursive hv.lt
  cases hp : (t.pde (virt / 4194304)).present with
  | true =>
    obtain ⟨t', h, hI', hm, hd⟩ := hI.writeEntry hv hp phys flags
    refine ⟨0, t', s, ?_, hI', .entry hp hm hd⟩
    rw [vmmPageMap, hload, Option.bind_eq_bind, Option.bind_some, if_pos hp, h]
    rfl
  | false =>
    have hp' : ¬ (t.pde (virt / 4194304)).present = true := by rw [hp]; decide
    by_cases h0 : (alloc s).1 = 0
    · refine ⟨enomem, t, (alloc s).2, ?_, hI, .noMemory hp h0⟩
      rw [vmmPageMap, hload, Option.bind_eq_bind, Option.bind_some, if_neg hp']
      simp only [h0, if_true]
      rfl
    · obtain ⟨t₁, h₁, hI₁, hc₁, hd₁, hf₁, hw₁⟩ := hI.createTable hv hp (halloc h0)
      have hp₁ : (t₁.pde (virt / 4194304)).present := by rw [hd₁]; rfl
      obtain ⟨t', h, hI', hm, hd⟩ := hI₁.writeEntry hv hp₁ phys flags
      refine ⟨0, t', (alloc s).2, ?_, hI', .table hp h0 ⟨hm.page, fun v hv hne => ?_,
        hm.cr3.trans hc₁, fun i hi hne => (hm.fixed i hi hne).trans (hf₁ i hi hne)⟩
        (hd.trans hd₁)⟩
      · rw [vmmPageMap, hload, Option.bind_eq_bind, Option.bind_some, if_neg hp']
        simp only [h0, if_false, h₁]
        rw [Option.bind_eq_bind, Option.bind_some, h]
        rfl
      · exact (hm.others v hv hne).trans (hw₁ v hv)

/-- What `vmm_page_unmap` can do. -/
inductive UnmapResult (virt : Nat) (t : Tables) : Int → Tables → Prop
  | noTable : (t.pde (virt / 4194304)).present = false → UnmapResult virt t (-1) t
  | unmapped {t' : Tables} : (t.pde (virt / 4194304)).present →
      (∀ v, v / 4096 = virt / 4096 → t'.walk v = none) →
      (∀ v < 4294967296, v / 4096 ≠ virt / 4096 → t'.walk v = t.walk v) →
      t'.cr3 = t.cr3 → (∀ i < 1024, t'.pde i = t.pde i) → UnmapResult virt t 0 t'

/-- `vmm_page_unmap` leaves an entry that is not present, or finds no table. -/
theorem Inv.unmap (hI : t.Inv) (hv : virt < 4294967296) (hd : virt / 4194304 < 1023)
    (hrw : (t.pde (virt / 4194304)).present → (t.pde (virt / 4194304)).rw) :
    ((t.pde (virt / 4194304)).present = false ∧ vmmPageUnmap virt t = some (-1, t)) ∨
    ((t.pde (virt / 4194304)).present = true ∧ ∃ p : Page, p.present = false ∧
      vmmPageUnmap virt t = some (0, t.set (t.pteWord virt) p)) := by
  have hload := load_pde hI.recursive hv
  cases hp : (t.pde (virt / 4194304)).present with
  | false =>
    refine .inl ⟨rfl, ?_⟩
    have hp' : ¬ (t.pde (virt / 4194304)).present = true := by rw [hp]; decide
    rw [vmmPageUnmap, hload, Option.bind_eq_bind, Option.bind_some, if_neg hp']
    rfl
  | true =>
    have hpte : t.load (getPtePtr virt) = some (t.mem (t.pteWord virt)) :=
      load_pte hI.recursive hv hp (hrw hp)
    refine .inr ⟨rfl, ?_⟩
    rw [vmmPageUnmap, hload, Option.bind_eq_bind, Option.bind_some, if_pos hp, hpte,
      Option.bind_some]
    cases hq : (t.mem (t.pteWord virt)).present with
    | false =>
      refine ⟨t.mem (t.pteWord virt), hq, ?_⟩
      rw [set_mem_eq]
      rfl
    | true =>
      have hfirst : t.modify (getPtePtr virt) (.setPresent false)
          = some (t.set (t.pteWord virt) ((t.mem (t.pteWord virt)).setPresent false)) :=
        modify_pte hI.recursive hv hp (hrw hp) _
      have hsecond := modify_pte_set hI.recursive hv hp (hrw hp) hd (hI.ne_dir _ hd hp)
      refine ⟨((t.mem (t.pteWord virt)).setPresent false).setFrame 0, rfl, ?_⟩
      rw [if_pos rfl, hfirst, Option.bind_eq_bind, Option.bind_some, hsecond]
      rfl

/-- **`vmm_page_unmap`** returns; the page is not mapped any more, or there was
no table for it. -/
theorem vmmPageUnmap_spec (hI : t.Inv) (hv : Mappable virt) :
    ∃ res t', vmmPageUnmap virt t = some (res, t') ∧ t'.Inv ∧ UnmapResult virt t res t' := by
  have hi := hv.dir_lt
  rcases hI.unmap hv.lt hi (fun hp => (hI.rights _ hi hv.ne_first hv.ne_kernel hp).1) with
    ⟨hp, h⟩ | ⟨hp, p, hnot, h⟩
  · exact ⟨-1, t, h, hI, .noTable hp⟩
  · refine ⟨0, _, h, hI.entry hi hp, .unmapped hp (fun v hpage => ?_) (fun v hlt hne => ?_) set_cr3
      fun k hk => hI.pde_entry hi hp hk⟩
    · rw [hI.walk_entry_self hi hp hpage, hnot]
      rfl
    · exact hI.walk_entry_of hi hp hlt hne
        ⟨fun h => hv.ne_kernel h.2, fun h => hv.ne_first h.2⟩

end Tables

end ChoOS
