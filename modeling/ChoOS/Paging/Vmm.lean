import ChoOS.Basic
import Mathlib.Data.Fin.Basic
import Mathlib.Logic.Function.Basic

/-!
# Page tables and the recursive window

The code of `memory_manager/vmm.c` on the words of the physical memory.  A word
is a `Page`, the bit-field of `paging.h`; word `1024 * f + k` is entry `k` of
frame `f`.  `Tables.walk` is the translation of the hardware (two levels, no
large pages, as the kernel never sets `CR4.PSE`), and every load and store of
the code goes through it: `none` is a page fault.  `boot.S` sets `CR0.WP`, so a
store needs the write bit as well.

The kernel reaches its tables through directory entry 1023, which points to the
directory itself.  `modify_pde` and `modify_pte` are what this buys: a store
through `GET_PDE_PTR` or `GET_PTE_PTR` changes exactly the entry it names.
-/

namespace ChoOS

/-- `Page` of `paging.h` -/
structure Page where
  present : Bool
  rw : Bool
  user : Bool
  wThrough : Bool
  cacheDis : Bool
  accessed : Bool
  dirty : Bool
  pat : Bool
  global : Bool
  available : Fin 8
  frame : Fin 1048576
  deriving DecidableEq

/-- The word `0`. -/
def Page.zero : Page :=
  ⟨false, false, false, false, false, false, false, false, false, 0, 0⟩

/-! A store to one of the fields keeps the others. -/

def Page.setFrame (frame : Fin 1048576) (p : Page) : Page := { p with frame := frame }

def Page.setPresent (b : Bool) (p : Page) : Page := { p with present := b }

def Page.setRw (b : Bool) (p : Page) : Page := { p with rw := b }

def Page.setUser (b : Bool) (p : Page) : Page := { p with user := b }

/-- The words of the memory, and the frame in `CR3`. -/
structure Tables where
  mem : Nat → Page
  cr3 : Fin 1048576

/-- What a translation gives: the frame and the rights. -/
structure Translation where
  frame : Fin 1048576
  rw : Bool
  user : Bool
  deriving DecidableEq

namespace Tables

/-- Directory entry `i`. -/
def pde (t : Tables) (i : Nat) : Page := t.mem (t.cr3 * 1024 + i)

/-- The two-level walk of the hardware. -/
def walk (t : Tables) (v : Nat) : Option Translation :=
  let pde := t.pde (v / 4194304 % 1024)
  if pde.present then
    let pte := t.mem (pde.frame * 1024 + v / 4096 % 1024)
    if pte.present then some ⟨pte.frame, pde.rw && pte.rw, pde.user && pte.user⟩ else none
  else none

/-- The word that `a` names under a translation. -/
def wordOf (tr : Translation) (a : Nat) : Nat := tr.frame * 1024 + a / 4 % 1024

def load (t : Tables) (a : Nat) : Option Page := (t.walk a).map fun tr => t.mem (wordOf tr a)

/-- A word of the memory is replaced. -/
def set (t : Tables) (w : Nat) (p : Page) : Tables := { t with mem := Function.update t.mem w p }

/-- A store to a bit-field: read the word, change it, write it back. -/
def modify (t : Tables) (a : Nat) (f : Page → Page) : Option Tables :=
  match t.walk a with
  | some tr => if tr.rw then some (t.set (wordOf tr a) (f (t.mem (wordOf tr a)))) else none
  | none => none

end Tables

/-- `GET_PTE_PTR` -/
def getPtePtr (addr : Nat) : Nat := u32 (ptBaseVaddr + addr / 4096 * 4)

/-- `GET_PDE_PTR` -/
def getPdePtr (addr : Nat) : Nat := u32 (pdBaseVaddr + addr / 4194304 * 4)

/-- `ENOMEM` -/
def enomem : Int := 12

/-- `phys >> PAGE_SHIFT`, as it is kept in a 20-bit field. -/
def frameOf (phys : Nat) : Fin 1048576 := Fin.ofNat 1048576 (phys / 4096)

/-- `memset(a, 0, 4 * n)`, word by word. -/
def zeroWords (a : Nat) : Nat → Tables → Option Tables
  | 0, t => some t
  | n + 1, t => do
    let t ← t.modify a fun _ => .zero
    zeroWords (a + 4) n t

/-- The part of `vmm_page_map` that creates a table. -/
def createTable (newTablePhys virt : Nat) (t : Tables) : Option Tables := do
  let t ← t.modify (getPdePtr virt) (.setFrame (frameOf newTablePhys))
  let t ← t.modify (getPdePtr virt) (.setPresent true)
  let t ← t.modify (getPdePtr virt) (.setRw true)
  let t ← t.modify (getPdePtr virt) (.setUser true)
  zeroWords (pageRoundDown (getPtePtr virt)) (pageSize / 4) t

/-- The part of `vmm_page_map` that writes the entry. -/
def writeEntry (phys virt flags : Nat) (t : Tables) : Option Tables := do
  let t ← t.modify (getPtePtr virt) (.setFrame (frameOf phys))
  let t ← t.modify (getPtePtr virt) (.setPresent true)
  let t ← t.modify (getPtePtr virt) (.setRw (flags.testBit 1))
  t.modify (getPtePtr virt) (.setUser (flags.testBit 2))

variable {σ : Type}

/-- `vmm_page_map`; `alloc` is `pmm_alloc_page` on its state. -/
def vmmPageMap (alloc : σ → Nat × σ) (phys virt flags : Nat) (t : Tables) (s : σ) :
    Option (Int × Tables × σ) := do
  let pageDirectoryEntry ← t.load (getPdePtr virt)
  if pageDirectoryEntry.present then
    let t ← writeEntry phys virt flags t
    return (0, t, s)
  else
    let (newTablePhys, s) := alloc s
    if newTablePhys = 0 then return (enomem, t, s)
    else
      let t ← createTable newTablePhys virt t
      let t ← writeEntry phys virt flags t
      return (0, t, s)

def vmmPageUnmap (virt : Nat) (t : Tables) : Option (Int × Tables) := do
  let pageDirectoryEntry ← t.load (getPdePtr virt)
  if pageDirectoryEntry.present then
    let pageTableEntry ← t.load (getPtePtr virt)
    if pageTableEntry.present then
      let t ← t.modify (getPtePtr virt) (.setPresent false)
      let t ← t.modify (getPtePtr virt) (.setFrame 0)
      return (0, t)
    else return (0, t)
  else return (-1, t)

/-! ### The recursive window -/

namespace Tables

/-- Entry 1023 of the directory points to the directory. -/
structure Recursive (t : Tables) : Prop where
  present : (t.pde 1023).present
  rw : (t.pde 1023).rw
  frame : (t.pde 1023).frame = t.cr3

variable {t : Tables} {v w i : Nat} {p : Page} {f : Page → Page}

@[simp] theorem set_cr3 : (t.set w p).cr3 = t.cr3 := rfl

theorem set_mem_self : (t.set w p).mem w = p := Function.update_self _ _ _

theorem set_mem_of_ne {w' : Nat} (h : w' ≠ w) : (t.set w p).mem w' = t.mem w' :=
  Function.update_of_ne h _ _

theorem set_set (p q : Page) : (t.set w p).set w q = t.set w q := by
  simp only [set, Function.update_idem]

theorem set_mem_eq (t : Tables) (w : Nat) : t.set w (t.mem w) = t := by
  simp only [set, Function.update_eq_self]

-- the lemmas above are all that is used of `set`
attribute [irreducible] set

theorem set_pde_of_ne (h : w ≠ t.cr3 * 1024 + i) : (t.set w p).pde i = t.pde i := by
  rw [pde, pde, set_cr3, set_mem_of_ne (Ne.symm h)]

theorem set_pde_self : (t.set (t.cr3 * 1024 + i) p).pde i = p := by
  rw [pde, set_cr3, set_mem_self]

theorem Recursive.set (hR : t.Recursive) (hw : w ≠ t.cr3 * 1024 + 1023) :
    (t.set w p).Recursive := by
  have h := set_pde_of_ne (p := p) hw
  refine ⟨h ▸ hR.present, h ▸ hR.rw, ?_⟩
  rw [h, set_cr3]
  exact hR.frame

theorem walk_getPdePtr (hR : t.Recursive) (hv : v < 4294967296) :
    ∃ tr, t.walk (getPdePtr v) = some tr ∧ tr.rw = true ∧
      wordOf tr (getPdePtr v) = t.cr3 * 1024 + v / 4194304 := by
  have ha : getPdePtr v = 4294963200 + v / 4194304 * 4 := u32_of_lt (by rw [pdBaseVaddr]; omega)
  have h1 : getPdePtr v / 4194304 % 1024 = 1023 := by omega
  have h2 : getPdePtr v / 4096 % 1024 = 1023 := by omega
  have h3 : getPdePtr v / 4 % 1024 = v / 4194304 := by omega
  have hp : t.mem (t.cr3 * 1024 + 1023) = t.pde 1023 := rfl
  refine ⟨⟨t.cr3, true, (t.pde 1023).user && (t.pde 1023).user⟩, ?_, rfl, ?_⟩
  · simp only [walk, h1, h2, hR.present, hR.frame, hp, if_true, hR.rw, Bool.and_self]
  · simp only [wordOf, h3]

theorem walk_getPtePtr (hR : t.Recursive) (hv : v < 4294967296)
    (hp : (t.pde (v / 4194304)).present) (hw : (t.pde (v / 4194304)).rw) :
    ∃ tr, t.walk (getPtePtr v) = some tr ∧ tr.rw = true ∧
      wordOf tr (getPtePtr v) = (t.pde (v / 4194304)).frame * 1024 + v / 4096 % 1024 := by
  have ha : getPtePtr v = 4290772992 + v / 4096 * 4 := u32_of_lt (by rw [ptBaseVaddr]; omega)
  have h1 : getPtePtr v / 4194304 % 1024 = 1023 := by omega
  have h2 : getPtePtr v / 4096 % 1024 = v / 4194304 := by omega
  have h3 : getPtePtr v / 4 % 1024 = v / 4096 % 1024 := by omega
  have hq : t.mem (t.cr3 * 1024 + v / 4194304) = t.pde (v / 4194304) := rfl
  refine ⟨⟨(t.pde (v / 4194304)).frame, true, (t.pde 1023).user && (t.pde (v / 4194304)).user⟩,
    ?_, rfl, ?_⟩
  · simp only [walk, h1, h2, hR.present, hR.frame, hq, hp, if_true, hR.rw, hw, Bool.and_self]
  · simp only [wordOf, h3]

theorem load_pde (hR : t.Recursive) (hv : v < 4294967296) :
    t.load (getPdePtr v) = some (t.pde (v / 4194304)) := by
  obtain ⟨tr, h, _, hw⟩ := walk_getPdePtr hR hv
  rw [load, h, Option.map_some, hw, pde]

theorem load_pte (hR : t.Recursive) (hv : v < 4294967296)
    (hp : (t.pde (v / 4194304)).present) (hw : (t.pde (v / 4194304)).rw) :
    t.load (getPtePtr v)
      = some (t.mem ((t.pde (v / 4194304)).frame * 1024 + v / 4096 % 1024)) := by
  obtain ⟨tr, h, _, hword⟩ := walk_getPtePtr hR hv hp hw
  rw [load, h, Option.map_some, hword]

/-- **A store through `GET_PDE_PTR`** changes the directory entry. -/
theorem modify_pde (hR : t.Recursive) (hv : v < 4294967296) (f : Page → Page) :
    t.modify (getPdePtr v) f
      = some (t.set (t.cr3 * 1024 + v / 4194304) (f (t.pde (v / 4194304)))) := by
  obtain ⟨tr, h, hrw, hw⟩ := walk_getPdePtr hR hv
  simp only [modify, h, hrw, if_true, hw, pde]

/-- **A store through `GET_PTE_PTR`** changes the table entry. -/
theorem modify_pte (hR : t.Recursive) (hv : v < 4294967296)
    (hp : (t.pde (v / 4194304)).present) (hrw : (t.pde (v / 4194304)).rw) (f : Page → Page) :
    t.modify (getPtePtr v) f
      = some (t.set ((t.pde (v / 4194304)).frame * 1024 + v / 4096 % 1024)
          (f (t.mem ((t.pde (v / 4194304)).frame * 1024 + v / 4096 % 1024)))) := by
  obtain ⟨tr, h, htr, hw⟩ := walk_getPtePtr hR hv hp hrw
  simp only [modify, h, htr, if_true, hw]

/-! ### Addresses in the window -/

/-- The physical address that the hardware finds. -/
def physical (t : Tables) (a : Nat) : Option Nat :=
  (t.walk a).map fun tr => tr.frame * 4096 + a % 4096

section Window

variable (hp : (t.pde 1023).present) (hf : (t.pde 1023).frame = t.cr3)
include hp hf

/-- In the window the directory is the last table, so its entries name the pages. -/
theorem walk_window {a : Nat} (ha : a / 4194304 % 1024 = 1023) :
    t.walk a = if (t.pde (a / 4096 % 1024)).present then
      some ⟨(t.pde (a / 4096 % 1024)).frame, (t.pde 1023).rw && (t.pde (a / 4096 % 1024)).rw,
        (t.pde 1023).user && (t.pde (a / 4096 % 1024)).user⟩ else none := by
  rw [walk, ha]
  dsimp only
  rw [if_pos hp, hf]
  rfl

theorem physical_window {a : Nat} (ha : a / 4194304 % 1024 = 1023)
    (hpresent : (t.pde (a / 4096 % 1024)).present) :
    t.physical a = some ((t.pde (a / 4096 % 1024)).frame * 4096 + a % 4096) := by
  rw [physical, walk_window hp hf ha, if_pos hpresent]
  rfl

/-- **The window addresses the right entries**, for every address, those of the window
included. -/
theorem window_addresses (hv : v < 4294967296) :
    t.physical (getPdePtr v) = some (t.cr3 * 4096 + 4 * (v / 4194304)) ∧
    ((t.pde (v / 4194304)).present →
      t.physical (getPtePtr v)
        = some ((t.pde (v / 4194304)).frame * 4096 + 4 * (v / 4096 % 1024)) ∧
      ∃ tr, t.walk (pageRoundDown (getPtePtr v)) = some tr ∧
        tr.frame = (t.pde (v / 4194304)).frame) ∧
    (∀ v' < 4294967296, getPtePtr v' = getPtePtr v → v' / 4096 = v / 4096) ∧
    (getPdePtr v = pdBaseVaddr + v / 4194304 * 4 ∧ pdBaseVaddr + v / 4194304 * 4 < 4294967296) ∧
    (getPtePtr v = ptBaseVaddr + v / 4096 * 4 ∧ ptBaseVaddr + v / 4096 * 4 < 4294967296) := by
  have hpd : pdBaseVaddr = 4294963200 := rfl
  have hpt : ptBaseVaddr = 4290772992 := rfl
  have hpde : getPdePtr v = pdBaseVaddr + v / 4194304 * 4 := u32_of_lt (by omega)
  have hpte : ∀ u < 4294967296, getPtePtr u = ptBaseVaddr + u / 4096 * 4 := fun u hu =>
    u32_of_lt (by omega)
  have hptr := hpte v hv
  refine ⟨?_, ?_, ?_, ⟨hpde, by omega⟩, hptr, by omega⟩
  · -- both levels go through entry 1023
    have hentry : getPdePtr v / 4096 % 1024 = 1023 := by omega
    rw [physical_window hp hf (by omega) (by rw [hentry]; exact hp), hentry, hf]
    congr 1
    omega
  · intro hpresent
    have hentry : getPtePtr v / 4096 % 1024 = v / 4194304 := by omega
    have hpage : pageRoundDown (getPtePtr v) / 4096 = getPtePtr v / 4096 := by
      rw [pageRoundDown, Nat.mul_div_cancel _ (by decide)]
    have hentry' : pageRoundDown (getPtePtr v) / 4096 % 1024 = v / 4194304 := by
      rw [hpage, hentry]
    refine ⟨?_, ?_⟩
    · rw [physical_window hp hf (by omega) (by rw [hentry]; exact hpresent), hentry]
      congr 1
      omega
    · rw [walk_window hp hf (by omega), hentry', if_pos hpresent]
      exact ⟨_, rfl, rfl⟩
  · intro v' hv' heq
    have hptr' := hpte v' hv'
    omega

end Window

/-- A directory in frame 5 all of whose entries point to it, at the last page. -/
theorem window_addresses_last :
    physical ⟨fun _ => { Page.zero with present := true, frame := 5 }, 5⟩ (getPtePtr 0xFFFFF000)
      = some (5 * 4096 + 4 * 1023) :=
  ((window_addresses (by rfl) (by rfl) (show 0xFFFFF000 < 4294967296 by decide)).2.1 (by rfl)).1

end Tables

end ChoOS
