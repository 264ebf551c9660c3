import ChoOS.Paging.Map
import ChoOS.Paging.Owned

/-!
# The first page directory

`pmm_directory_init` of `paging/paging.c`.  It runs on the tables of `boot.S`,
which map the first 1023 frames at their own addresses (the loop there leaves
out entry 1023 of `boot_page_table1`), and writes the directory and the first
table at their physical addresses.  A frame that the boot table does not map to
itself cannot be written this way: `none` is the page fault, as it is the
`abort`.  (From 3 GiB on the address is one of the kernel's own; the writes go
there and the directory that `CR3` is given was never written.)

`pmmDirectoryInit_spec` says what it builds, and `page_table_map` is the finite
map over all runs of `vmm_page_map` and `vmm_page_unmap` from there.
-/

namespace ChoOS

/-- `MULTIBOOT_BOOTLOADER_MAGIC` -/
def multibootBootloaderMagic : Nat := 0x2BADB002

/-- The end of what `boot.S` maps. -/
def bootMappedEnd : Nat := 1023 * pageSize

/-- `memset(a, 0, PAGE_SIZE)` at a physical address, on the boot tables. -/
def clearFrame (a : Nat) (mem : Nat → Page) : Option (Nat → Page) :=
  if a + pageSize ≤ bootMappedEnd then
    some fun w => if w / 1024 = a / pageSize then Page.zero else mem w
  else none

/-- An entry is written: `frame`, `present = 1`, `rw = 1`, `user = 0`. -/
def setEntry (w : Nat) (frame : Fin 1048576) (mem : Nat → Page) : Nat → Page :=
  Function.update mem w ((((mem w).setFrame frame).setPresent true).setRw true |>.setUser false)

section

local instance frames_neZero : @NeZero Nat Zero.ofOfNat0 1048576 := ⟨by decide⟩

/-- The loop that fills the first table. -/
def fillFirstTable (table : Nat) (mem : Nat → Page) : Nat → Page :=
  (List.range 1024).foldl (fun mem i => setEntry (table * 1024 + i) (Fin.ofNat 1048576 i) mem) mem

end

def pmmDirectoryInit (magic kernelEnd : Nat) (mbd : Multiboot) (mem : Nat → Page) :
    Option (Frames × Tables) := do
  if magic ≠ multibootBootloaderMagic then none
  else if !mbd.flags.testBit 6 then none
  else
    let bitmap ← pmmFramesInit kernelEnd mbd
    let (pageDirectoryPhys, s) := pmmAllocFrameInt (Frames.start bitmap)
    if pageDirectoryPhys = 0 then none
    else
      let mem ← clearFrame pageDirectoryPhys mem
      let (firstPageTable, s) := pmmAllocFrameInt s
      if firstPageTable = 0 then none
      else
        let mem ← clearFrame firstPageTable mem
        let mem := fillFirstTable (firstPageTable / pageSize) mem
        let dir := pageDirectoryPhys / pageSize * 1024
        let mem := setEntry dir (frameOf firstPageTable) mem
        let mem := setEntry (dir + 768) (frameOf firstPageTable) mem
        let mem := setEntry (dir + 1023) (frameOf pageDirectoryPhys) mem
        return (s, ⟨mem, frameOf pageDirectoryPhys⟩)

section Init

variable {mem : Nat → Page} {w k table : Nat} {f : Fin 1048576}

theorem setEntry_of_ne (h : k ≠ w) : setEntry w f mem k = mem k := Function.update_of_ne h _ _

theorem setEntry_self :
    setEntry w f mem w = ((((mem w).setFrame f).setPresent true).setRw true).setUser false :=
  Function.update_self _ _ _

theorem fillFirstTable_of_ne (h : w / 1024 ≠ table) : fillFirstTable table mem w = mem w := by
  have hn : ∀ n ≤ 1024, (List.range n).foldl (fun mem i =>
      setEntry (table * 1024 + i) (Fin.ofNat 1048576 i) mem) mem w = mem w := by
    intro n
    induction n with
    | zero => exact fun _ => rfl
    | succ n ih =>
      intro hn
      rw [List.range_succ, List.foldl_append, List.foldl_cons, List.foldl_nil,
        setEntry_of_ne (by omega)]
      exact ih (by omega)
  exact hn 1024 (Nat.le_refl _)

/-- What `pmm_directory_init` leaves: the directory in frame `d`, the first table
in frame `e`, both below 4 MiB and taken from the bitmap. -/
structure Initialised (kernelEnd : Nat) (mbd : Multiboot) (s : Frames) (t : Tables) (d e : Nat) :
    Prop where
  owned : ∃ bitmap, pmmFramesInit kernelEnd mbd = some bitmap ∧
    s.Inv bitmap {e * 4096, d * 4096}
  ne : d ≠ e
  d_lt : d < 1023
  e_lt : e < 1023
  cr3 : (t.cr3 : Nat) = d
  first : ∀ i, i = 0 ∨ i = 768 → (t.pde i).present ∧ ((t.pde i).frame : Nat) = e
  window : (t.pde 1023).present ∧ (t.pde 1023).rw ∧ ((t.pde 1023).frame : Nat) = d
  empty : ∀ i < 1023, i ≠ 0 → i ≠ 768 → (t.pde i).present = false

variable {kernelEnd : Nat} {mbd : Multiboot} {bitmap res : Bitmap} {s s' : Frames}
  {t : Tables} {held : Set Nat} {a d e : Nat}

theorem pmmAllocFrameInt_hold (hI : s.Inv res held) (h : pmmAllocFrameInt s = (a, s'))
    (h0 : a ≠ 0) : s'.Inv res (insert a held) ∧ a ∉ held ∧ a % 4096 = 0 := by
  have hs : FrameStep ⟨s, held⟩ (.pmmAllocFrameInt a) ⟨s', heldAfter held a⟩ := .pmmAllocFrameInt h
  obtain ⟨hI', hf⟩ := hs.inv hI
  have hf := hf h0
  rw [heldAfter, if_neg h0] at hI'
  exact ⟨hI', hf.not_held, hf.taken.aligned⟩

theorem frameOf_mul (h : d < 1048576) : (frameOf (d * 4096) : Nat) = d := by
  rw [frameOf, Nat.mul_div_cancel _ (by decide), Fin.val_ofNat]
  omega

/-- The directory and the first table, as they are written. -/
def firstTables (d e : Nat) (mem : Nat → Page) : Nat → Page :=
  setEntry (d * 1024 + 1023) (frameOf (d * 4096)) (setEntry (d * 1024 + 768) (frameOf (e * 4096))
    (setEntry (d * 1024) (frameOf (e * 4096)) (fillFirstTable e
      (fun w => if w / 1024 = e then Page.zero else if w / 1024 = d then Page.zero else mem w))))

theorem firstTables_pde (mem : Nat → Page) (hd : d < 1048576) (hne : d ≠ e) (hk : k < 1024) :
    Tables.pde ⟨firstTables d e mem, frameOf (d * 4096)⟩ k =
      if k = 1023 then (((Page.zero.setFrame (frameOf (d * 4096))).setPresent true).setRw
        true).setUser false
      else if k = 768 ∨ k = 0 then (((Page.zero.setFrame (frameOf (e * 4096))).setPresent
        true).setRw true).setUser false
      else Page.zero := by
  have hzero : ∀ k < 1024, fillFirstTable e (fun w => if w / 1024 = e then Page.zero else
      if w / 1024 = d then Page.zero else mem w) (d * 1024 + k) = Page.zero := by
    intro k hk
    rw [fillFirstTable_of_ne (by omega), if_neg (by omega), if_pos (by omega)]
  rw [Tables.pde, frameOf_mul hd]
  change firstTables d e mem (d * 1024 + k) = _
  rw [firstTables]
  by_cases h1 : k = 1023
  · subst h1
    rw [setEntry_self, setEntry_of_ne (by omega), setEntry_of_ne (by omega), hzero 1023 hk,
      if_pos rfl]
  · rw [setEntry_of_ne (by omega), if_neg h1]
    by_cases h2 : k = 768
    · subst h2
      rw [setEntry_self, setEntry_of_ne (by omega), hzero 768 hk, if_pos (.inl rfl)]
    · rw [setEntry_of_ne (by omega)]
      by_cases h3 : k = 0
      · subst h3
        rw [Nat.add_zero, setEntry_self, ← Nat.add_zero (d * 1024), hzero 0 hk,
          if_pos (.inr rfl)]
      · rw [setEntry_of_ne (by omega), hzero k hk, if_neg (by omega)]

theorem clearFrame_some {m' : Nat → Page} (h : clearFrame (d * 4096) mem = some m') :
    d < 1023 ∧ m' = fun w => if w / 1024 = d then Page.zero else mem w := by
  rw [clearFrame] at h
  split at h
  · rename_i hle
    have hle : d * 4096 + 4096 ≤ 1023 * 4096 := hle
    refine ⟨by omega, ?_⟩
    rw [← Option.some.inj h, show d * 4096 / pageSize = d from Nat.mul_div_cancel _ (by decide)]
  · exact absurd h (by simp)

theorem pmmDirectoryInit_eq {magic : Nat}
    (h : pmmDirectoryInit magic kernelEnd mbd mem = some (s, t)) :
    ∃ bitmap d e, pmmFramesInit kernelEnd mbd = some bitmap ∧ s.Inv bitmap {e * 4096, d * 4096} ∧
      d ≠ e ∧ d < 1023 ∧ e < 1023 ∧ t = ⟨firstTables d e mem, frameOf (d * 4096)⟩ ∧
      s.allocate = 1 := by
  rw [pmmDirectoryInit] at h
  split at h
  · exact absurd h (by simp)
  split at h
  · exact absurd h (by simp)
  obtain ⟨bitmap, hb, h⟩ := Option.bind_eq_some_iff.mp h
  obtain ⟨a, s₁, ha⟩ : ∃ a s₁, pmmAllocFrameInt (Frames.start bitmap) = (a, s₁) := ⟨_, _, rfl⟩
  rw [ha] at h
  dsimp only at h
  split at h
  · exact absurd h (by simp)
  rename_i ha0
  obtain ⟨m₁, hm₁, h⟩ := Option.bind_eq_some_iff.mp h
  obtain ⟨b, s₂, hb₂⟩ : ∃ b s₂, pmmAllocFrameInt s₁ = (b, s₂) := ⟨_, _, rfl⟩
  rw [hb₂] at h
  dsimp only at h
  split at h
  · exact absurd h (by simp)
  rename_i hb0
  obtain ⟨m₂, hm₂, h⟩ := Option.bind_eq_some_iff.mp h
  obtain ⟨rfl, ht⟩ := Prod.mk.inj (Option.some.inj h)
  obtain ⟨hI₁, -, hal⟩ := pmmAllocFrameInt_hold (Frames.Inv.start hb) ha ha0
  obtain ⟨hI₂, hnew, hbl⟩ := pmmAllocFrameInt_hold hI₁ hb₂ hb0
  have hone : s₂.allocate = 1 := by
    rw [(pmmAllocFrameInt_spec hI₁.owned hb₂).1]
    dsimp only
    rw [(pmmAllocFrameInt_spec (Frames.Inv.start hb).owned ha).1]
    rfl
  obtain ⟨d, rfl⟩ : ∃ d, a = d * 4096 := ⟨a / 4096, by omega⟩
  obtain ⟨e, rfl⟩ : ∃ e, b = e * 4096 := ⟨b / 4096, by omega⟩
  obtain ⟨hd, rfl⟩ := clearFrame_some hm₁
  obtain ⟨he, rfl⟩ := clearFrame_some hm₂
  have hne : d ≠ e := by
    rintro rfl
    exact hnew (Set.mem_insert _ _)
  have hdiv : ∀ k, k * 4096 / pageSize = k := fun k => Nat.mul_div_cancel _ (by decide)
  simp only [hdiv] at ht
  exact ⟨bitmap, d, e, hb, by simpa using hI₂, hne, hd, he, by rw [← ht, firstTables], hone⟩

/-- **`pmm_directory_init`**, when it returns. -/
theorem pmmDirectoryInit_spec {magic : Nat}
    (h : pmmDirectoryInit magic kernelEnd mbd mem = some (s, t)) :
    ∃ d e, Initialised kernelEnd mbd s t d e := by
  obtain ⟨bitmap, d, e, hb, hI, hne, hd, he, ht, -⟩ := pmmDirectoryInit_eq h
  have hpde := fun k => firstTables_pde (k := k) mem (show d < 1048576 by omega) hne
  rw [← ht] at hpde
  have hcr3 : (t.cr3 : Nat) = d := by
    rw [ht]
    exact frameOf_mul (by omega)
  refine ⟨d, e, ⟨bitmap, hb, hI⟩, hne, hd, he, hcr3, fun i hi => ?_, ?_, ?_⟩
  · rw [hpde i (by omega), if_neg (by omega), if_pos (by omega)]
    exact ⟨rfl, frameOf_mul (by omega)⟩
  · rw [hpde 1023 (by omega), if_pos rfl]
    exact ⟨rfl, rfl, frameOf_mul (by omega)⟩
  · intro i hi h0 h768
    rw [hpde i (by omega), if_neg (by omega), if_neg (by omega)]
    rfl

theorem fillFirstTable_self (table : Nat) (mem : Nat → Page) (hk : k < 1024) : ∃ p : Page,
    fillFirstTable table mem (table * 1024 + k)
      = (((p.setFrame (Fin.ofNat 1048576 k)).setPresent true).setRw true).setUser false := by
  have hn : ∀ n ≤ 1024, k < n → ∃ p : Page, (List.range n).foldl (fun mem i =>
      setEntry (table * 1024 + i) (Fin.ofNat 1048576 i) mem) mem (table * 1024 + k)
      = (((p.setFrame (Fin.ofNat 1048576 k)).setPresent true).setRw true).setUser false := by
    intro n
    induction n with
    | zero => exact fun _ h0 => absurd h0 (Nat.not_lt_zero _)
    | succ n ih =>
      intro hn hkn
      rw [List.range_succ, List.foldl_append, List.foldl_cons, List.foldl_nil]
      by_cases he : k = n
      · rw [he, setEntry_self]
        exact ⟨_, rfl⟩
      · rw [setEntry_of_ne (by omega)]
        exact ih (by omega) (by omega)
  exact hn 1024 (Nat.le_refl _) hk

/-- **The first 4 MiB** are mapped at `KERNEL_VIRT_OFFSET`, and the kernel may write there. -/
theorem pmmDirectoryInit_walk {magic : Nat}
    (h : pmmDirectoryInit magic kernelEnd mbd mem = some (s, t)) :
    ((t.pde 768).present ∧ (t.pde 768).rw) ∧ ∀ v, 3221225472 ≤ v → v < 3225419776 →
      t.walk v = some ⟨frameOf (v - 3221225472), true, false⟩ := by
  obtain ⟨bitmap, d, e, hb, hI, hne, hd, he, ht, -⟩ := pmmDirectoryInit_eq h
  have hpde := firstTables_pde (k := 768) mem (show d < 1048576 by omega) hne (by omega)
  rw [← ht, if_neg (by omega), if_pos (.inl rfl)] at hpde
  refine ⟨by rw [hpde]; exact ⟨rfl, rfl⟩, fun v hlo hhi => ?_⟩
  have hdir : v / 4194304 % 1024 = 768 := by omega
  have hframe : ((t.pde 768).frame : Nat) = e := by
    rw [hpde]
    exact frameOf_mul (by omega)
  obtain ⟨p, hp⟩ := fillFirstTable_self e (fun w =>
    if w / 1024 = e then Page.zero else if w / 1024 = d then Page.zero else mem w)
    (show v / 4096 % 1024 < 1024 by omega)
  have hpte : t.mem (e * 1024 + v / 4096 % 1024)
      = (((p.setFrame (Fin.ofNat 1048576 (v / 4096 % 1024))).setPresent true).setRw true).setUser
        false := by
    rw [ht, ← hp]
    dsimp only
    rw [firstTables, setEntry_of_ne (by omega), setEntry_of_ne (by omega),
      setEntry_of_ne (by omega)]
  have hnum : Fin.ofNat 1048576 (v / 4096 % 1024) = frameOf (v - 3221225472) := by
    exact congrArg (Fin.ofNat 1048576) (show v / 4096 % 1024 = (v - 3221225472) / 4096 by omega)
  simp only [Tables.walk, hdir, hframe, hpte]
  rw [hpde, hnum]
  rfl

theorem Initialised.inv (h : Initialised kernelEnd mbd s t d e) : t.Inv := by
  have hpresent : ∀ i < 1023, (t.pde i).present → i = 0 ∨ i = 768 := by
    intro i hi hp
    by_contra hne
    rw [h.empty i hi (by omega) (by omega)] at hp
    exact absurd hp (by decide)
  refine ⟨⟨h.window.1, h.window.2.1, Fin.ext (h.window.2.2.trans h.cr3.symm)⟩, ?_, ?_, ?_⟩
  · intro i hi hp
    rw [(h.first i (hpresent i hi hp)).2, h.cr3]
    exact Ne.symm h.ne
  · intro i hi j hj hpi hpj _
    have := hpresent i hi hpi
    have := hpresent j hj hpj
    omega
  · intro i hi h0 h768 hp
    exact absurd (hpresent i hi hp) (by omega)

theorem Initialised.inUse (h : Initialised kernelEnd mbd s t d e) {f : Nat} (hf : t.InUse f) :
    f = d ∨ f = e := by
  rcases hf with rfl | ⟨i, hi, hp, rfl⟩
  · exact .inl h.cr3
  · by_cases hi' : i = 0 ∨ i = 768
    · exact .inr (h.first i hi').2
    · rw [h.empty i hi (by omega) (by omega)] at hp
      exact absurd hp (by decide)

theorem pmmDirectoryInit_mem {magic f : Nat}
    (h : pmmDirectoryInit magic kernelEnd mbd mem = some (s, t)) (hf : ¬ t.InUse f)
    (hk : k < 1024) : t.mem (f * 1024 + k) = mem (f * 1024 + k) := by
  obtain ⟨d, e, hd⟩ := pmmDirectoryInit_spec h
  obtain ⟨bitmap, d', e', -, -, hne, hd', he', ht, -⟩ := pmmDirectoryInit_eq h
  have hpde := firstTables_pde (k := 768) mem (show d' < 1048576 by omega) hne (by omega)
  rw [← ht, if_neg (by omega), if_pos (.inl rfl)] at hpde
  have hcr3 : (t.cr3 : Nat) = d' := by
    rw [ht]
    exact frameOf_mul (by omega)
  have hfd : f ≠ d' := fun he => hf (.inl (he.trans hcr3.symm))
  have hfe : f ≠ e' := by
    rintro rfl
    refine hf (.inr ⟨768, by omega, (hd.first 768 (.inr rfl)).1, ?_⟩)
    rw [hpde]
    exact frameOf_mul (by omega)
  rw [ht]
  dsimp only
  rw [firstTables, setEntry_of_ne (by omega), setEntry_of_ne (by omega), setEntry_of_ne (by omega),
    fillFirstTable_of_ne (by omega), if_neg (by omega), if_neg (by omega)]

end Init

/-! ### Runs of `vmm_page_map` and `vmm_page_unmap` -/

/-- The calls, with their results; `page` is what `pmm_alloc_page` would return. -/
inductive VmmEvent
  | vmmPageMap (page phys virt flags : Nat) (res : Int)
  | vmmPageUnmap (virt : Nat) (res : Int)

/-- `pmm_alloc_page` returns `NULL` or a frame that holds no table. -/
def FreshFrame (t : Tables) (page : Nat) : Prop := page ≠ 0 → ¬ t.InUse (frameOf page)

/-- One call. -/
inductive VmmStep : Tables → VmmEvent → Tables → Prop
  | vmmPageMap {t t' : Tables} {page phys virt flags : Nat} {res : Int} :
      Tables.Mappable virt → FreshFrame t page →
      vmmPageMap (fun _ => (page, ())) phys virt flags t () = some (res, t', ()) →
      VmmStep t (.vmmPageMap page phys virt flags res) t'
  | vmmPageUnmap {t t' : Tables} {virt : Nat} {res : Int} : Tables.Mappable virt →
      vmmPageUnmap virt t = some (res, t') → VmmStep t (.vmmPageUnmap virt res) t'

section Runs

variable {t t' t₀ : Tables} {e : VmmEvent}

/-- The directory entries that the calls leave alone. -/
def SameKernelEntries (t t' : Tables) : Prop :=
  ∀ i, i = 0 ∨ i = 768 ∨ i = 1023 → t'.pde i = t.pde i

theorem Tables.MapResult.kernelEntries {page phys virt flags : Nat} {res : Int}
    (hv : Tables.Mappable virt)
    (h : Tables.MapResult (fun _ => (page, ())) phys virt flags t () res t' ()) :
    SameKernelEntries t t' := by
  intro i hi
  have h0 := hv.ne_first
  have h1 := hv.ne_kernel
  have h2 := hv.ne_window
  cases h with
  | entry _ hm _ => exact hm.fixed i (by omega) (by omega)
  | table _ _ hm _ => exact hm.fixed i (by omega) (by omega)
  | noMemory _ _ => rfl

theorem VmmStep.inv (hI : t.Inv) (hs : VmmStep t e t') : t'.Inv ∧ SameKernelEntries t t' := by
  cases hs with
  | @vmmPageMap _ page phys virt flags res hv hf h =>
    obtain ⟨res', t₁, _, h', hI', hres⟩ := Tables.vmmPageMap_spec (fun _ => (page, ())) () hI hv hf
      phys flags
    obtain ⟨rfl, h''⟩ := Prod.mk.inj (Option.some.inj (h.symm.trans h'))
    obtain ⟨rfl, -⟩ := Prod.mk.inj h''
    exact ⟨hI', hres.kernelEntries hv⟩
  | vmmPageUnmap hv h =>
    obtain ⟨res', t₁, h', hI', hres⟩ := Tables.vmmPageUnmap_spec hI hv
    obtain ⟨rfl, rfl⟩ := Prod.mk.inj (Option.some.inj (h.symm.trans h'))
    refine ⟨hI', fun i hi => ?_⟩
    cases hres with
    | noTable _ => rfl
    | unmapped _ _ _ _ hd => exact hd i (by omega)

theorem vmm_run_inv {es : List VmmEvent} (hI : t₀.Inv) (hrun : Trace VmmStep t₀ es t) :
    t.Inv ∧ SameKernelEntries t₀ t :=
  hrun.invariant (I := fun t => t.Inv ∧ SameKernelEntries t₀ t) ⟨hI, fun _ _ => rfl⟩
    fun _ _ _ ⟨hI, hk⟩ hs => ⟨(hs.inv hI).1, fun i hi => ((hs.inv hI).2 i hi).trans (hk i hi)⟩

/-- **The page tables are a finite map.**  In every state of every run from
`pmm_directory_init` both calls return, and change the translation of the one
page they are given, or nothing. -/
theorem page_table_map {magic kernelEnd : Nat} {mbd : Multiboot} {mem : Nat → Page} {s : Frames}
    {es : List VmmEvent} (hinit : pmmDirectoryInit magic kernelEnd mbd mem = some (s, t₀))
    (hrun : Trace VmmStep t₀ es t) :
    (∀ page phys virt flags, phys < 4294967296 → Tables.Mappable virt → FreshFrame t page →
      ∃ res t', vmmPageMap (fun _ => (page, ())) phys virt flags t () = some (res, t', ()) ∧
        (res = 0 ∨ res = enomem) ∧
        (res = 0 →
          (∀ v, v / 4096 = virt / 4096 → ∃ f : Fin 1048576, (f : Nat) = phys / 4096 ∧
            t'.walk v = some ⟨f, flags.testBit 1, flags.testBit 2⟩) ∧
          ∀ v < ptBaseVaddr, v / 4096 ≠ virt / 4096 → t'.walk v = t.walk v) ∧
        (res = enomem → ∀ v, t'.walk v = t.walk v)) ∧
    (∀ virt, Tables.Mappable virt →
      ∃ res t', vmmPageUnmap virt t = some (res, t') ∧ (res = 0 ∨ res = -1) ∧
        (res = 0 → (∀ v, v / 4096 = virt / 4096 → t'.walk v = none) ∧
          ∀ v < 4294967296, v / 4096 ≠ virt / 4096 → t'.walk v = t.walk v) ∧
        (res = -1 ↔ (t.pde (virt / 4194304)).present = false) ∧
        (res = -1 → t' = t)) ∧
    t.pde 0 = t₀.pde 0 ∧ t.pde 768 = t₀.pde 768 ∧ t.pde 1023 = t₀.pde 1023 := by
  obtain ⟨d, e, hd⟩ := pmmDirectoryInit_spec hinit
  obtain ⟨hI, hk⟩ := vmm_run_inv hd.inv hrun
  refine ⟨fun page phys virt flags hphys hv hf => ?_, fun virt hv => ?_, hk 0 (by omega),
    hk 768 (by omega), hk 1023 (by omega)⟩
  · obtain ⟨res, t', _, h, _, hres⟩ := Tables.vmmPageMap_spec (fun _ => (page, ())) () hI hv hf
      phys flags
    have hframe : (frameOf phys : Nat) = phys / 4096 := by
      rw [frameOf, Fin.val_ofNat]
      omega
    refine ⟨res, t', h, ?_⟩
    cases hres with
    | entry _ hm _ =>
      exact ⟨.inl rfl, fun _ => ⟨fun v hv => ⟨_, hframe, hm.page v hv⟩, hm.others⟩,
        fun h0 => absurd h0 (by decide)⟩
    | table _ _ hm _ =>
      exact ⟨.inl rfl, fun _ => ⟨fun v hv => ⟨_, hframe, hm.page v hv⟩, hm.others⟩,
        fun h0 => absurd h0 (by decide)⟩
    | noMemory _ _ => exact ⟨.inr rfl, fun h0 => absurd h0 (by decide), fun _ _ => rfl⟩
  · obtain ⟨res, t', h, _, hres⟩ := Tables.vmmPageUnmap_spec hI hv
    refine ⟨res, t', h, ?_⟩
    cases hres with
    | noTable hp =>
      exact ⟨.inr rfl, fun h0 => absurd h0 (by decide), ⟨fun _ => hp, fun _ => rfl⟩, fun _ => rfl⟩
    | unmapped hp h1 h2 _ _ =>
      refine ⟨.inl rfl, fun _ => ⟨h1, h2⟩, ⟨fun h0 => absurd h0 (by decide), fun h0 => ?_⟩,
        fun h0 => absurd h0 (by decide)⟩
      rw [hp] at h0
      exact absurd h0 (by decide)

theorem page_table_map_oneEntry : ∃ s t₀ t,
    pmmDirectoryInit multibootBootloaderMagic 0xC0120000 oneEntryMap (fun _ => .zero)
      = some (s, t₀) ∧
    Trace VmmStep t₀ [.vmmPageMap 0x3FF000 0x5000 0xD0000000 3 0] t ∧
    t.walk 0xD0000123 = some ⟨Fin.ofNat 1048576 5, true, false⟩ ∧ t.pde 768 = t₀.pde 768 := by
  obtain ⟨⟨s, t₀⟩, hinit⟩ : ∃ x, pmmDirectoryInit multibootBootloaderMagic 0xC0120000 oneEntryMap
      (fun _ => .zero) = some x := Option.isSome_iff_exists.mp (by decide +kernel)
  obtain ⟨d, e, hd⟩ := pmmDirectoryInit_spec hinit
  have hfresh : FreshFrame t₀ 0x3FF000 := fun _ hu => by
    have hf : (frameOf 0x3FF000 : Nat) = 1023 := rfl
    have := hd.d_lt
    have := hd.e_lt
    have := hd.inUse hu
    omega
  have hv : Tables.Mappable 0xD0000000 := ⟨by decide, by decide, by decide, by decide⟩
  obtain ⟨res, t, h, -, hmapped, -⟩ := (page_table_map hinit .nil).1 0x3FF000 0x5000 0xD0000000 3
    (by decide) hv hfresh
  -- there is a frame for the table
  obtain ⟨res', t', _, h', -, hres⟩ := Tables.vmmPageMap_spec (fun _ => (0x3FF000, ())) () hd.inv hv
    hfresh 0x5000 3
  obtain rfl : res = res' := (Prod.mk.inj (Option.some.inj (h.symm.trans h'))).1
  have h0 : res = 0 := by
    cases hres with
    | entry _ _ _ => rfl
    | table _ _ _ _ => rfl
    | noMemory _ hnull => exact absurd hnull (by decide)
  subst h0
  have hrun : Trace VmmStep t₀ [.vmmPageMap 0x3FF000 0x5000 0xD0000000 3 0] t :=
    .single (.vmmPageMap hv hfresh h)
  obtain ⟨f, hf, hwalk⟩ := (hmapped rfl).1 0xD0000123 (by decide)
  obtain rfl : f = Fin.ofNat 1048576 5 := Fin.ext hf
  exact ⟨s, t₀, t, hinit, hrun, hwalk, (page_table_map hinit hrun).2.2.2.1⟩

end Runs

end ChoOS
