import ChoOS.Lib.Nondet
import ChoOS.Paging.Below

/-!
# The translation look-aside buffer

The code of `vmm.c` once more, on a processor that caches translations.  `tlb` is the
set of the cached ones.  The hardware may put the walk of any present page there at
any time (`fills`, in front of every access of the code), an access uses a cached
translation or a walk, and `_tlb_flush` removes those of one page.

`Current S` says that the cached translations agree with the walk, apart from those
of the pages in `S`.  Each store of the code names the pages whose walk it changes,
and what is flushed in the end are the two pages of these: the page of the address,
and the page of its table in the window.

There is one more.  A new table is in the directory before `memset` has cleared it, so
what its frame held before are translations for a while.  `map_current` is when the
frame holds none, and then no call leaves a stale translation (`tlb_current`).
-/

namespace ChoOS

open Tables

/-- The kernel's state and the cached translations, each with its page. -/
structure Mmu where
  machine : Machine
  tlb : Set (Nat × Translation)

namespace Mmu

/-- The page tables. -/
def tables (s : Mmu) : Tables := s.machine.tables

def setTables (t : Tables) (s : Mmu) : Mmu := { s with machine := { s.machine with tables := t } }

/-! ### The hardware -/

/-- Walks of present pages are cached. -/
def fills : Prog Mmu Unit :=
  .choose fun s _ s' => s'.machine = s.machine ∧ s.tlb ⊆ s'.tlb ∧
    ∀ c ∈ s'.tlb, c ∈ s.tlb ∨ c.1 < 1048576 ∧ s.tables.walk (c.1 * 4096) = some c.2

/-- The translation of an address: a cached one, or a walk. -/
def translate (a : Nat) : Prog Mmu Translation := fun s o =>
  (∃ tr, (a / 4096, tr) ∈ s.tlb ∧ o = some (tr, s)) ∨ o = (s.tables.walk a).map fun tr => (tr, s)

def load (a : Nat) : Prog Mmu Page := do
  fills
  let tr ← translate a
  .read fun s => s.tables.mem (wordOf tr a)

/-- A store to a bit-field. -/
def modify (a : Nat) (f : Page → Page) : Prog Mmu Unit := do
  fills
  let tr ← translate a
  if tr.rw then
    .update fun s => s.setTables (s.tables.set (wordOf tr a) (f (s.tables.mem (wordOf tr a))))
  else .fault

/-- `_tlb_flush` -/
def tlbFlush (addr : Nat) : Prog Mmu Unit := do
  fills
  .update fun s => { s with tlb := {c ∈ s.tlb | c.1 ≠ addr / 4096} }

/-! ### The code -/

def pmmAllocPage : Prog Mmu Nat := do
  fills
  .choose fun s r s' => s.machine.pmmAllocPage = (r, s'.machine) ∧ s'.tlb = s.tlb

/-- `memset(a, 0, 4 * n)`, word by word. -/
def zeroWords (a : Nat) : Nat → Prog Mmu Unit
  | 0 => pure ()
  | n + 1 => do
    modify a fun _ => .zero
    zeroWords (a + 4) n

/-- The part of `vmm_page_map` that creates a table. -/
def createTable (newTablePhys virt : Nat) : Prog Mmu Unit := do
  modify (getPdePtr virt) (.setFrame (frameOf newTablePhys))
  modify (getPdePtr virt) (.setPresent true)
  modify (getPdePtr virt) (.setRw true)
  modify (getPdePtr virt) (.setUser true)
  tlbFlush (pageRoundDown (getPtePtr virt))
  zeroWords (pageRoundDown (getPtePtr virt)) (pageSize / 4)

/-- The part of `vmm_page_map` that writes the entry. -/
def writeEntry (phys virt flags : Nat) : Prog Mmu Unit := do
  modify (getPtePtr virt) (.setFrame (frameOf phys))
  modify (getPtePtr virt) (.setPresent true)
  modify (getPtePtr virt) (.setRw (flags.testBit 1))
  modify (getPtePtr virt) (.setUser (flags.testBit 2))
  tlbFlush virt

def vmmPageMap (phys virt flags : Nat) : Prog Mmu Int := do
  let pageDirectoryEntry ← load (getPdePtr virt)
  if pageDirectoryEntry.present then
    writeEntry phys virt flags
    return 0
  else
    let newTablePhys ← pmmAllocPage
    if newTablePhys = 0 then return enomem
    else
      createTable newTablePhys virt
      writeEntry phys virt flags
      return 0

def vmmPageUnmap (virt : Nat) : Prog Mmu Int := do
  let pageDirectoryEntry ← load (getPdePtr virt)
  if pageDirectoryEntry.present then
    let pageTableEntry ← load (getPtePtr virt)
    if pageTableEntry.present then
      modify (getPtePtr virt) (.setPresent false)
      modify (getPtePtr virt) (.setFrame Page.zero.frame)
      tlbFlush virt
      return 0
    else return 0
  else return (-1)

/-! ### Current translations -/

/-- The cached translations are those of the walk, except for the pages in `S`. -/
def Current (S : Set Nat) (s : Mmu) : Prop :=
  ∀ c ∈ s.tlb, c.1 < 1048576 ∧ (c.1 ∉ S → s.tables.walk (c.1 * 4096) = some c.2)

variable {s : Mmu} {S S' : Set Nat} {t t' : Tables} {a v : Nat} {p : Page} {f : Page → Page}

theorem walk_page (t : Tables) (a : Nat) : t.walk (a / 4096 * 4096) = t.walk a := by
  have hd : a / 4096 * 4096 / 4194304 = a / 4194304 := by omega
  have hp : a / 4096 * 4096 / 4096 = a / 4096 := by omega
  rw [walk, walk, hd, hp]

theorem Current.mono (hC : s.Current S) (hS : S ⊆ S') : s.Current S' := fun c hc =>
  ⟨(hC c hc).1, fun hn => (hC c hc).2 fun hm => hn (hS hm)⟩

theorem Current.of_machine {s' : Mmu} (hC : s.Current S) (hm : s'.tables = s.tables)
    (ht : s'.tlb = s.tlb) : s'.Current S := by
  intro c hc
  rw [ht] at hc
  rw [hm]
  exact hC c hc

theorem wp_fills {Q : Unit → Mmu → Prop} (hC : s.Current S)
    (hQ : ∀ s', s'.machine = s.machine → s'.Current S → Q () s') : fills.wp Q s := by
  refine Prog.wp_choose ?_
  rintro - s' ⟨hm, -, hnew⟩
  refine hQ s' hm ?_
  intro c hc
  have ht : s'.tables = s.tables := congrArg Machine.tables hm
  rw [ht]
  rcases hnew c hc with hold | ⟨hlt, hw⟩
  · exact hC c hold
  · exact ⟨hlt, fun _ => hw⟩

theorem wp_translate {Q : Translation → Mmu → Prop} {tr : Translation} (hC : s.Current S)
    (hS : a / 4096 ∉ S) (hw : s.tables.walk a = some tr) (hQ : Q tr s) : (translate a).wp Q s := by
  rintro o (⟨tr', hmem, rfl⟩ | rfl)
  · have hcached := (hC _ hmem).2 hS
    rw [walk_page, hw] at hcached
    obtain rfl := Option.some.inj hcached
    exact ⟨_, s, rfl, hQ⟩
  · rw [hw]
    exact ⟨_, s, rfl, hQ⟩

/-- The machine is `e` with the tables `t`, and only the pages in `S` may be stale. -/
structure At (e : Machine) (t : Tables) (S : Set Nat) (s : Mmu) : Prop where
  machine : s.machine = { e with tables := t }
  current : s.Current S

variable {e : Machine}

theorem At.tables (h : At e t S s) : s.tables = t := congrArg Machine.tables h.machine

theorem At.mono (h : At e t S s) (hS : S ⊆ S') : At e t S' s := ⟨h.machine, h.current.mono hS⟩

/-- **A load** reads what it reads without the cache. -/
theorem wp_load {Q : Page → Mmu → Prop} (h : At e t S s) (hS : a / 4096 ∉ S)
    (hl : t.load a = some p) (hQ : ∀ s', At e t S s' → Q p s') : (load a).wp Q s := by
  obtain ⟨tr, hw, hp⟩ := Option.map_eq_some_iff.mp hl
  refine Prog.wp_bind (wp_fills h.current ?_)
  intro s' hm hC
  have h' : At e t S s' := ⟨hm.trans h.machine, hC⟩
  refine Prog.wp_bind (wp_translate hC hS (by rw [h'.tables]; exact hw) (Prog.wp_read ?_))
  rw [h'.tables, hp]
  exact hQ s' h'

/-- The walks of the pages outside `S` stay, or there was none. -/
def Keeps (S : Set Nat) (t t' : Tables) : Prop :=
  ∀ u < 1048576, u ∉ S → t.walk (u * 4096) = none ∨ t'.walk (u * 4096) = t.walk (u * 4096)

theorem Current.setTables (hC : s.Current S) (hk : Keeps S s.tables t) :
    (s.setTables t).Current S := by
  intro c hc
  obtain ⟨hlt, hw⟩ := hC c hc
  refine ⟨hlt, ?_⟩
  intro hS
  rcases hk c.1 hlt hS with hnone | hsame
  · rw [hw hS] at hnone
    cases hnone
  · exact hsame.trans (hw hS)

/-- **A store** does what it does without the cache. -/
theorem wp_modify {Q : Unit → Mmu → Prop} (h : At e t S s) (hS : a / 4096 ∉ S)
    (hm : t.modify a f = some t') (hk : Keeps S t t') (hQ : ∀ s', At e t' S s' → Q () s') :
    (modify a f).wp Q s := by
  refine Prog.wp_bind (wp_fills h.current ?_)
  intro s' hm' hC
  have h' : At e t S s' := ⟨hm'.trans h.machine, hC⟩
  unfold Tables.modify at hm
  split at hm
  · rename_i tr hw
    split at hm
    · obtain rfl := Option.some.inj hm
      refine Prog.wp_bind (wp_translate hC hS (by rw [h'.tables]; exact hw) ?_)
      rw [if_pos ‹tr.rw = true›]
      refine Prog.wp_update (hQ _ ?_)
      rw [h'.tables]
      refine ⟨?_, hC.setTables (by rw [h'.tables]; exact hk)⟩
      rw [setTables, h'.machine]
    · cases hm
  · cases hm

theorem wp_tlbFlush {Q : Unit → Mmu → Prop} (h : At e t S s)
    (hQ : ∀ s', At e t (S \ {a / 4096}) s' → Q () s') : (tlbFlush a).wp Q s := by
  refine Prog.wp_bind (wp_fills h.current ?_)
  intro s' hm hC
  refine Prog.wp_update (hQ _ ⟨hm.trans h.machine, ?_⟩)
  rintro c ⟨hc, hne⟩
  obtain ⟨hlt, hw⟩ := hC c hc
  exact ⟨hlt, fun hn => hw fun hS => hn ⟨hS, hne⟩⟩

theorem wp_pmmAllocPage {Q : Nat → Mmu → Prop} {r : Nat} {e' : Machine} (h : At e e.tables S s)
    (ha : e.pmmAllocPage = (r, e')) (hQ : ∀ s', At e' e'.tables S s' → Q r s') :
    pmmAllocPage.wp Q s := by
  refine Prog.wp_bind (wp_fills h.current ?_)
  intro s' hm hC
  refine Prog.wp_choose ?_
  rintro r' s'' ⟨ha', ht⟩
  have hmachine : s'.machine = e := hm.trans h.machine
  rw [hmachine, ha] at ha'
  obtain ⟨rfl, he⟩ := Prod.mk.inj ha'
  refine hQ s'' ⟨he.symm, hC.of_machine ?_ ht⟩
  rw [tables, tables, ← he, hmachine]
  exact Machine.pmmAllocPage_tables ha

/-! ### The pages of a store -/

variable {virt i n phys flags : Nat}

/-- The page of table `i` in the window. -/
def windowPage (i : Nat) : Nat := 1047552 + i

theorem getPtePtr_page (hv : v < 4294967296) : getPtePtr v / 4096 = windowPage (v / 4194304) := by
  have hptr : getPtePtr v = 4290772992 + v / 4096 * 4 := u32_of_lt (by rw [ptBaseVaddr]; omega)
  rw [windowPage]
  omega

theorem getPdePtr_page (hv : v < 4294967296) : getPdePtr v / 4096 = 1048575 := by
  have hptr : getPdePtr v = 4294963200 + v / 4194304 * 4 := u32_of_lt (by rw [pdBaseVaddr]; omega)
  omega

/-- A store to the entry of a page changes the walk of no other page. -/
theorem keeps_pte (hI : t.Inv) (hv : Mappable virt) (hp : (t.pde (virt / 4194304)).present)
    (q q' : Page) :
    Keeps {virt / 4096} (t.set (t.pteWord virt) q) (t.set (t.pteWord virt) q') := by
  intro u hu hne
  have hne : u ≠ virt / 4096 := hne
  have hlt := hv.lt
  have hwalk : ∀ q, (t.set (t.pteWord virt) q).walk (u * 4096) = t.walk (u * 4096) := fun q =>
    hI.walk_entry_of hv.dir_lt hp (by omega) (by omega)
      ⟨fun h => hv.ne_kernel h.2, fun h => hv.ne_first h.2⟩
  exact .inr ((hwalk q').trans (hwalk q).symm)

/-- A store to a directory entry changes the walks of its 1024 pages, and of the page of
its table in the window. -/
theorem walk_set_pde (hI : t.Inv) (hi : i < 1023) (q : Page) {u : Nat} (hu : u < 1048576)
    (hdir : u / 1024 ≠ i) (hwin : u ≠ windowPage i) :
    (t.set (t.cr3 * 1024 + i) q).walk (u * 4096) = t.walk (u * 4096) := by
  have hdiv : u * 4096 / 4194304 % 1024 = u / 1024 := by omega
  have hmod : u * 4096 / 4096 % 1024 = u % 1024 := by omega
  refine walk_congr (set_pde_of_ne (by rw [hdiv]; omega)) fun hp => set_mem_of_ne ?_
  rw [hdiv] at hp ⊢
  rw [hmod]
  by_cases hw : u / 1024 = 1023
  · rw [hw, hI.recursive.frame]
    rw [windowPage] at hwin
    omega
  · have := hI.ne_dir (u / 1024) (by omega) hp
    omega

/-- The table in the frame of `q` has no entry, except perhaps that of page `u₀`. -/
def Clean (t : Tables) (q : Page) (u₀ : Nat) : Prop :=
  ∀ k < 1024, k ≠ u₀ % 1024 → (t.mem (q.frame * 1024 + k)).present = false

/-- While the table is not in the directory, or has no entries, its pages have no walk. -/
theorem walk_set_pde_none (hi : i < 1023) {q : Page} {u u₀ : Nat}
    (hq : q.present = true → (q.frame : Nat) ≠ t.cr3 ∧ Clean t q u₀) (hu : u < 1048576)
    (hdir : u / 1024 = i) (hdir₀ : u₀ / 1024 = i) (hne : u ≠ u₀) :
    (t.set (t.cr3 * 1024 + i) q).walk (u * 4096) = none := by
  have hdiv : u * 4096 / 4194304 % 1024 = i := by omega
  have hmod : u * 4096 / 4096 % 1024 = u % 1024 := by omega
  cases hp : q.present with
  | false =>
    refine walk_of_no_table ?_
    rw [hdiv, set_pde_self]
    exact hp
  | true =>
    obtain ⟨hframe, hclean⟩ := hq hp
    refine walk_of_no_entry ?_
    rw [hdiv, hmod, set_pde_self, set_mem_of_ne (by omega)]
    exact hclean _ (by omega) (by omega)

theorem keeps_pde (hI : t.Inv) (hi : i < 1023) {u₀ : Nat} (hdir₀ : u₀ / 1024 = i) {q : Page}
    (hq : q.present = true → (q.frame : Nat) ≠ t.cr3 ∧ Clean t q u₀) (q' : Page) :
    Keeps {windowPage i, u₀} (t.set (t.cr3 * 1024 + i) q) (t.set (t.cr3 * 1024 + i) q') := by
  intro u hu hS
  have hwin : u ≠ windowPage i := fun h => hS (.inl h)
  have hne : u ≠ u₀ := fun h => hS (.inr h)
  by_cases hdir : u / 1024 = i
  · exact .inl (walk_set_pde_none hi hq hu hdir hdir₀ hne)
  · refine .inr ?_
    rw [walk_set_pde hI hi q' hu hdir hwin, walk_set_pde hI hi q hu hdir hwin]

/-! ### The parts of the calls -/

theorem wp_modify_pte {Q : Unit → Mmu → Prop} (hI : t.Inv) (hv : Mappable virt)
    (hp : (t.pde (virt / 4194304)).present) {q : Page}
    (h : At e (t.set (t.pteWord virt) q) {virt / 4096} s)
    (hQ : ∀ s', At e (t.set (t.pteWord virt) (f q)) {virt / 4096} s' → Q () s') :
    (modify (getPtePtr virt) f).wp Q s := by
  have hi := hv.dir_lt
  have hlt := hv.lt
  have hrw := (hI.rights _ hi hv.ne_first hv.ne_kernel hp).1
  refine wp_modify h ?_ (modify_pte_set hI.recursive hlt hp hrw hi (hI.ne_dir _ hi hp) q f)
    (keeps_pte hI hv hp q (f q)) hQ
  rw [getPtePtr_page hlt, Set.mem_singleton_iff, windowPage]
  have := hv.ne_window
  omega

/-- **The entry is written** and its page flushed. -/
theorem wp_writeEntry {Q : Unit → Mmu → Prop} (hI : t.Inv) (hv : Mappable virt)
    (hp : (t.pde (virt / 4194304)).present) (h : At e t {virt / 4096} s)
    (hQ : ∀ t' s', ChoOS.writeEntry phys virt flags t = some t' → At e t' ∅ s' → Q () s') :
    (writeEntry phys virt flags).wp Q s := by
  have hi := hv.dir_lt
  have hrw := (hI.rights _ hi hv.ne_first hv.ne_kernel hp).1
  rw [← set_mem_eq t (t.pteWord virt)] at h
  refine Prog.wp_bind (wp_modify_pte hI hv hp h fun s' h => ?_)
  refine Prog.wp_bind (wp_modify_pte hI hv hp h fun s' h => ?_)
  refine Prog.wp_bind (wp_modify_pte hI hv hp h fun s' h => ?_)
  refine Prog.wp_bind (wp_modify_pte hI hv hp h fun s' h => ?_)
  refine wp_tlbFlush h fun s' h => ?_
  rw [Set.sdiff_self] at h
  exact hQ _ s' (writeEntry_spec hI.recursive hv.lt hp hrw hi (hI.ne_dir _ hi hp) phys flags) h

theorem wp_modify_pde {Q : Unit → Mmu → Prop} (hI : t.Inv) (hv : Mappable virt) {q : Page}
    (hq : q.present = true → (q.frame : Nat) ≠ t.cr3 ∧ Clean t q (virt / 4096))
    (h : At e (t.set (t.cr3 * 1024 + virt / 4194304) q)
      {windowPage (virt / 4194304), virt / 4096} s)
    (hQ : ∀ s', At e (t.set (t.cr3 * 1024 + virt / 4194304) (f q))
      {windowPage (virt / 4194304), virt / 4096} s' → Q () s') :
    (modify (getPdePtr virt) f).wp Q s := by
  have hi := hv.dir_lt
  have hlt := hv.lt
  refine wp_modify h ?_ (modify_pde_set hI.recursive hlt hi q f)
    (keeps_pde hI hi (by omega) hq (f q)) hQ
  rw [getPdePtr_page hlt, Set.mem_insert_iff, Set.mem_singleton_iff, windowPage]
  omega

/-- **Clearing the table** changes no walk, since there is nothing in it. -/
theorem wp_zeroWords {Q : Unit → Mmu → Prop} {u₀ : Nat} (hi : i < 1023) (h0 : i ≠ 0)
    (h768 : i ≠ 768) (hdir₀ : u₀ / 1024 = i) : ∀ (n k : Nat) (t : Tables) (s : Mmu), t.Inv →
    (t.pde i).present = true → Clean t (t.pde i) u₀ → k + n ≤ 1024 → At e t {u₀} s →
    (∀ t' s', ChoOS.zeroWords (4290772992 + i * 4096 + k * 4) n t = some t' → At e t' {u₀} s' →
      Q () s') → (zeroWords (4290772992 + i * 4096 + k * 4) n).wp Q s := by
  intro n
  induction n with
  | zero =>
    intro k t s _ _ _ _ h hQ
    exact Prog.wp_pure (hQ t s rfl h)
  | succ n ih =>
    intro k t s hI hp hclean hk h hQ
    obtain ⟨v, hv⟩ : ∃ v, v = i * 4194304 + k * 4096 := ⟨_, rfl⟩
    have hdir : v / 4194304 = i := by omega
    have ha : 4290772992 + i * 4096 + k * 4 = getPtePtr v := by
      rw [getPtePtr, u32_of_lt] <;> rw [ptBaseVaddr] <;> omega
    have hpv : (t.pde (v / 4194304)).present = true := by rw [hdir]; exact hp
    have hrw := (hI.rights _ (by omega) (by omega) (by omega) hpv).1
    have hm : t.modify (getPtePtr v) (fun _ => Page.zero)
        = some (t.set (t.pteWord v) Page.zero) := modify_pte hI.recursive (by omega) hpv hrw _
    have hkeeps : Keeps {u₀} t (t.set (t.pteWord v) Page.zero) := by
      intro u hu hne
      have hne : u ≠ u₀ := hne
      by_cases hsame : u = v / 4096
      · left
        have hdiv : u * 4096 / 4194304 % 1024 = i := by omega
        have hmod : u * 4096 / 4096 % 1024 = k := by omega
        refine walk_of_no_entry ?_
        rw [hdiv, hmod]
        exact hclean k (by omega) (by omega)
      · exact .inr (hI.walk_entry_of (by omega) hpv (by omega) (by omega) (by omega))
    have hpde : (t.set (t.pteWord v) Page.zero).pde i = t.pde i :=
      hI.pde_entry (by omega) hpv (by omega)
    refine Prog.wp_bind ?_
    rw [ha]
    refine wp_modify h ?_ hm hkeeps fun s' h' => ?_
    · rw [getPtePtr_page (by omega), Set.mem_singleton_iff, windowPage]
      omega
    rw [← ha, show 4290772992 + i * 4096 + k * 4 + 4 = 4290772992 + i * 4096 + (k + 1) * 4 by omega]
    refine ih (k + 1) _ s' (hI.entry (by omega) hpv) (by rw [hpde]; exact hp) ?_ (by omega) h' ?_
    · intro j hj hne
      rw [hpde]
      by_cases hw : (t.pde i).frame * 1024 + j = t.pteWord v
      · rw [hw, set_mem_self]
        rfl
      · rw [set_mem_of_ne hw]
        exact hclean j hj hne
    · intro t' s'' ht' h''
      refine hQ t' s'' ?_ h''
      rw [ChoOS.zeroWords, ha, hm, Option.bind_eq_bind, Option.bind_some, ← ha,
        show 4290772992 + i * 4096 + k * 4 + 4 = 4290772992 + i * 4096 + (k + 1) * 4 by omega]
      exact ht'

/-- **A new table** is made; the page of the address may be stale. -/
theorem wp_createTable {Q : Unit → Mmu → Prop} (hI : t.Inv) (hv : Mappable virt)
    (habs : (t.pde (virt / 4194304)).present = false) (hfresh : ¬ t.InUse (frameOf n))
    (hclean : ∀ k < 1024, k ≠ virt / 4096 % 1024 →
      (t.mem (frameOf n * 1024 + k)).present = false) (h : At e t ∅ s)
    (hQ : ∀ t' s', ChoOS.createTable n virt t = some t' → At e t' {virt / 4096} s' → Q () s') :
    (createTable n virt).wp Q s := by
  have hi := hv.dir_lt
  have hlt := hv.lt
  have hne : (frameOf n : Nat) ≠ t.cr3 := fun h => hfresh (.inl h)
  have h := h.mono (Set.empty_subset {windowPage (virt / 4194304), virt / 4096})
  rw [← set_mem_eq t (t.cr3 * 1024 + virt / 4194304)] at h
  have hnot {q : Page} (hq : q.present = false) : q.present = true →
      (q.frame : Nat) ≠ t.cr3 ∧ Clean t q (virt / 4096) := fun hp => by
    rw [hq] at hp
    cases hp
  have habs' : ((t.pde (virt / 4194304)).setFrame (frameOf n)).present = false := habs
  have hlinked {q : Page} (hq : q.frame = frameOf n) : q.present = true →
      (q.frame : Nat) ≠ t.cr3 ∧ Clean t q (virt / 4096) := fun _ => by
    rw [Clean, hq]
    exact ⟨hne, hclean⟩
  refine Prog.wp_bind (wp_modify_pde hI hv (hnot habs) h fun s' h => ?_)
  refine Prog.wp_bind (wp_modify_pde hI hv (hnot habs') h fun s' h => ?_)
  refine Prog.wp_bind (wp_modify_pde hI hv (hlinked rfl) h fun s' h => ?_)
  refine Prog.wp_bind (wp_modify_pde hI hv (hlinked rfl) h fun s' h => ?_)
  refine Prog.wp_bind (wp_tlbFlush h fun s' h => ?_)
  have hpage : pageRoundDown (getPtePtr virt) / 4096 = windowPage (virt / 4194304) := by
    rw [pageRoundDown, Nat.mul_div_cancel _ (by decide), getPtePtr_page hlt]
  have hrest : {windowPage (virt / 4194304), virt / 4096} \ {pageRoundDown (getPtePtr virt) / 4096}
      ⊆ ({virt / 4096} : Set Nat) := by
    rintro u ⟨hu | hu, hne⟩
    · exact absurd (hu.trans hpage.symm) hne
    · exact hu
  have h : At e (t.set (t.cr3 * 1024 + virt / 4194304) (newPde (t.pde (virt / 4194304)) n))
      {virt / 4096} s' := h.mono hrest
  have hself := set_pde_self (t := t) (i := virt / 4194304)
    (p := newPde (t.pde (virt / 4194304)) n)
  have hI₁ := hI.link hv hfresh (set_cr3 (t := t)) hself
    fun k hk hne => set_pde_of_ne (by omega)
  rw [pageRoundDown_getPtePtr hlt]
  refine wp_zeroWords hi hv.ne_first hv.ne_kernel (by omega) (pageSize / 4) 0 _ s' hI₁
    (by rw [hself]; rfl) ?_ (by decide) h ?_
  · intro k hk hne'
    have hframe : (newPde (t.pde (virt / 4194304)) n).frame = frameOf n := rfl
    rw [hself, hframe, set_mem_of_ne (by omega)]
    exact hclean k hk hne'
  · intro t' s'' ht' h''
    refine hQ t' s'' ?_ h''
    rw [createTable_eq hI.recursive hlt hi, pageRoundDown_getPtePtr hlt]
    exact ht'

/-! ### The calls -/

end Mmu

namespace Machine

variable {e e₁ : Machine} {virt phys flags r : Nat} {t₁ t' : Tables}

/-- The frame that `vmm_page_map` would take for a table has no word with the present bit,
except perhaps the entry of the address. -/
def CleanTable (e : Machine) (virt : Nat) : Prop :=
  (e.tables.pde (virt / 4194304)).present = false → e.pmmAllocPage.1 ≠ 0 →
    ∀ k < 1024, k ≠ virt / 4096 % 1024 →
      (e.tables.mem (frameOf e.pmmAllocPage.1 * 1024 + k)).present = false

theorem vmmPageMap_table (hR : e.tables.Recursive) (hv : virt < 4294967296)
    (hp : (e.tables.pde (virt / 4194304)).present = false) (ha : e.pmmAllocPage = (r, e₁))
    (h0 : r ≠ 0) (hcreate : createTable r virt e.tables = some t₁)
    (hwrite : writeEntry phys virt flags t₁ = some t') :
    e.vmmPageMap phys virt flags = some (0, { e₁ with tables := t' }) := by
  have hvmm : ChoOS.vmmPageMap Machine.pmmAllocPage phys virt flags e.tables e
      = some (0, t', e₁) := by
    rw [ChoOS.vmmPageMap, load_pde hR hv, Option.bind_eq_bind, Option.bind_some,
      if_neg (by rw [hp]; decide), ha]
    dsimp only
    rw [if_neg h0, hcreate, Option.bind_eq_bind, Option.bind_some, hwrite]
    rfl
  rw [Machine.vmmPageMap, hvmm]
  rfl

theorem vmmPageMap_noMemory (hR : e.tables.Recursive) (hv : virt < 4294967296)
    (hp : (e.tables.pde (virt / 4194304)).present = false) (ha : e.pmmAllocPage = (0, e₁)) :
    e.vmmPageMap phys virt flags = some (enomem, e₁) := by
  have hvmm : ChoOS.vmmPageMap Machine.pmmAllocPage phys virt flags e.tables e
      = some (enomem, e.tables, e₁) := by
    rw [ChoOS.vmmPageMap, load_pde hR hv, Option.bind_eq_bind, Option.bind_some,
      if_neg (by rw [hp]; decide), ha]
    rfl
  rw [Machine.vmmPageMap, hvmm, ← pmmAllocPage_tables ha]
  rfl

end Machine

namespace Mmu

variable {s : Mmu} {virt phys flags : Nat}

/-- **`vmm_page_map`** does not fault, does what it does without the cache, and leaves no
stale translation. -/
theorem map_current {Q : Int → Mmu → Prop} (hI : s.tables.Inv) (hC : s.Current ∅)
    (hv : Mappable virt) (hfresh : s.machine.FreshTable virt) (hclean : s.machine.CleanTable virt)
    (hQ : ∀ res s', s.machine.vmmPageMap phys virt flags = some (res, s'.machine) →
      s'.Current ∅ → Q res s') : (vmmPageMap phys virt flags).wp Q s := by
  have h : At s.machine s.tables ∅ s := ⟨rfl, hC⟩
  refine Prog.wp_bind (wp_load h (Set.notMem_empty _) (load_pde hI.recursive hv.lt) ?_)
  intro s₁ h
  by_cases hp : (s.tables.pde (virt / 4194304)).present = true
  · rw [if_pos hp]
    refine Prog.wp_bind (wp_writeEntry hI hv hp (h.mono (Set.empty_subset _)) ?_)
    intro t' s' hw h
    refine Prog.wp_pure (hQ 0 s' ?_ h.current)
    rw [h.machine]
    exact Machine.vmmPageMap_entry hI.recursive hv.lt hp hw
  · rw [if_neg hp]
    rw [Bool.not_eq_true] at hp
    obtain ⟨r, e₁, ha⟩ : ∃ r e₁, s.machine.pmmAllocPage = (r, e₁) := ⟨_, _, rfl⟩
    refine Prog.wp_bind (wp_pmmAllocPage h ha ?_)
    intro s₂ h
    by_cases h0 : r = 0
    · rw [if_pos h0]
      rw [h0] at ha
      refine Prog.wp_pure (hQ enomem s₂ ?_ h.current)
      rw [h.machine]
      exact Machine.vmmPageMap_noMemory hI.recursive hv.lt hp ha
    · rw [if_neg h0]
      rw [Machine.pmmAllocPage_tables ha] at h
      have hfresh' : ¬ s.tables.InUse (frameOf r) := by
        have := hfresh hp
        rw [ha] at this
        exact this h0
      have hclean' := hclean hp
      rw [ha] at hclean'
      refine Prog.wp_bind (wp_createTable hI hv hp hfresh' (hclean' h0) h ?_)
      intro t₁ s₃ hcreate h
      obtain ⟨t₁', hcreate', hI₁, -, hd₁, -⟩ := hI.createTable hv hp hfresh'
      obtain rfl := Option.some.inj (hcreate.symm.trans hcreate')
      have hp₁ : (t₁.pde (virt / 4194304)).present = true := by rw [hd₁]; rfl
      refine Prog.wp_bind (wp_writeEntry hI₁ hv hp₁ h ?_)
      intro t' s' hwrite h
      refine Prog.wp_pure (hQ 0 s' ?_ h.current)
      rw [h.machine]
      exact Machine.vmmPageMap_table hI.recursive hv.lt hp ha h0 hcreate hwrite

theorem unmap_current {Q : Int → Mmu → Prop} (hI : s.tables.Inv) (hC : s.Current ∅)
    (hv : Mappable virt) (hQ : ∀ res s', s.machine.vmmPageUnmap virt = some (res, s'.machine) →
      s'.Current ∅ → Q res s') : (vmmPageUnmap virt).wp Q s := by
  have hi := hv.dir_lt
  have hload := load_pde hI.recursive hv.lt
  have h : At s.machine s.tables ∅ s := ⟨rfl, hC⟩
  refine Prog.wp_bind (wp_load h (Set.notMem_empty _) hload ?_)
  intro s₁ h
  have hrun {res : Int} {t' : Tables} (hr : ChoOS.vmmPageUnmap virt s.tables = some (res, t')) :
      s.machine.vmmPageUnmap virt = some (res, { s.machine with tables := t' }) := by
    rw [Machine.vmmPageUnmap]
    change (ChoOS.vmmPageUnmap virt s.tables).bind _ = _
    rw [hr]
    rfl
  by_cases hp : (s.tables.pde (virt / 4194304)).present = true
  · rw [if_pos hp]
    have hrw := (hI.rights _ hi hv.ne_first hv.ne_kernel hp).1
    have hpte : s.tables.load (getPtePtr virt) = some (s.tables.mem (s.tables.pteWord virt)) :=
      load_pte hI.recursive hv.lt hp hrw
    refine Prog.wp_bind (wp_load h (Set.notMem_empty _) hpte ?_)
    intro s₂ h
    by_cases hq : (s.tables.mem (s.tables.pteWord virt)).present = true
    · rw [if_pos hq]
      have h := h.mono (Set.empty_subset {virt / 4096})
      have hset := modify_pte_set hI.recursive hv.lt hp hrw hi (hI.ne_dir _ hi hp)
      have hunmap : ChoOS.vmmPageUnmap virt s.tables = some (0, s.tables.set (s.tables.pteWord virt)
          (((s.tables.mem (s.tables.pteWord virt)).setPresent false).setFrame 0)) := by
        have hfirst := hset (s.tables.mem (s.tables.pteWord virt)) (.setPresent false)
        rw [set_mem_eq] at hfirst
        rw [ChoOS.vmmPageUnmap, hload, Option.bind_eq_bind, Option.bind_some, if_pos hp, hpte,
          Option.bind_some, if_pos hq, hfirst, Option.bind_eq_bind, Option.bind_some, hset]
        rfl
      rw [← set_mem_eq s.tables (s.tables.pteWord virt)] at h
      refine Prog.wp_bind (wp_modify_pte hI hv hp h fun s₃ h => ?_)
      refine Prog.wp_bind (wp_modify_pte hI hv hp h fun s₄ h => ?_)
      refine Prog.wp_bind (wp_tlbFlush h fun s₅ h => ?_)
      rw [Set.sdiff_self] at h
      refine Prog.wp_pure (hQ 0 s₅ ?_ h.current)
      rw [h.machine]
      exact hrun hunmap
    · rw [if_neg hq]
      refine Prog.wp_pure (hQ 0 s₂ ?_ h.current)
      rw [h.machine]
      refine hrun ?_
      rw [ChoOS.vmmPageUnmap, hload, Option.bind_eq_bind, Option.bind_some, if_pos hp, hpte,
        Option.bind_some, if_neg hq]
      rfl
  · rw [if_neg hp]
    refine Prog.wp_pure (hQ (-1) s₁ ?_ h.current)
    rw [h.machine]
    refine hrun ?_
    rw [ChoOS.vmmPageUnmap, hload, Option.bind_eq_bind, Option.bind_some, if_neg hp]
    rfl

/-! ### A fill in between -/

section Runs

variable {s : Mmu} {a n virt phys flags r k : Nat} {p : Page} {f : Page → Page} {t t' : Tables}

/-- `_tlb_flush` on the cached translations. -/
def flushed (addr : Nat) (tlb : Set (Nat × Translation)) : Set (Nat × Translation) :=
  {c ∈ tlb | c.1 ≠ addr / 4096}

theorem fills_idle (s : Mmu) : fills s (some ((), s)) :=
  Prog.choose_some ⟨rfl, subset_rfl, fun _ hc => .inl hc⟩

theorem fills_walk {u : Nat} {tr : Translation} (hu : u < 1048576)
    (hw : s.tables.walk (u * 4096) = some tr) :
    fills s (some ((), { s with tlb := insert (u, tr) s.tlb })) := by
  refine Prog.choose_some ⟨rfl, Set.subset_insert _ _, ?_⟩
  rintro c (rfl | hc)
  · exact .inr ⟨hu, hw⟩
  · exact .inl hc

theorem load_runs (h : s.tables.load a = some p) : load a s (some (p, s)) := by
  obtain ⟨tr, hw, rfl⟩ := Option.map_eq_some_iff.mp h
  have htr : translate a s (some (tr, s)) := .inr (by rw [hw]; rfl)
  exact Prog.bind_some (fills_idle s) (Prog.bind_some htr rfl)

theorem modify_runs (h : s.tables.modify a f = some t') :
    modify a f s (some ((), s.setTables t')) := by
  unfold Tables.modify at h
  split at h
  · rename_i tr hw
    split at h
    · obtain rfl := Option.some.inj h
      have htr : translate a s (some (tr, s)) := .inr (by rw [hw]; rfl)
      refine Prog.bind_some (fills_idle s) (Prog.bind_some htr ?_)
      rw [if_pos ‹tr.rw = true›]
      rfl
    · cases h
  · cases h

theorem tlbFlush_runs (s : Mmu) (a : Nat) :
    tlbFlush a s (some ((), { s with tlb := flushed a s.tlb })) :=
  Prog.bind_some (fills_idle s) rfl

theorem zeroWords_runs : ∀ (n a : Nat) (s : Mmu) {t' : Tables},
    ChoOS.zeroWords a n s.tables = some t' → zeroWords a n s (some ((), s.setTables t')) := by
  intro n
  induction n with
  | zero =>
    intro a s t' h
    obtain rfl := Option.some.inj h
    rfl
  | succ n ih =>
    intro a s t' h
    obtain ⟨t₁, h₁, h⟩ := Option.bind_eq_some_iff.mp h
    exact Prog.bind_some (modify_runs h₁) (ih (a + 4) (s.setTables t₁) h)

theorem writeEntry_runs (h : ChoOS.writeEntry phys virt flags s.tables = some t') :
    writeEntry phys virt flags s
      (some ((), { s.setTables t' with tlb := flushed virt s.tlb })) := by
  obtain ⟨t₁, h₁, h⟩ := Option.bind_eq_some_iff.mp h
  obtain ⟨t₂, h₂, h⟩ := Option.bind_eq_some_iff.mp h
  obtain ⟨t₃, h₃, h₄⟩ := Option.bind_eq_some_iff.mp h
  exact Prog.bind_some (modify_runs h₁) (Prog.bind_some (modify_runs (s := s.setTables t₁) h₂)
    (Prog.bind_some (modify_runs (s := s.setTables t₂) h₃)
      (Prog.bind_some (modify_runs (s := s.setTables t₃) h₄) (tlbFlush_runs (s.setTables t') virt))))

/-- The new table is made, and what its frame held for a page is cached before it is
cleared. -/
theorem createTable_runs {u : Nat} {tr : Translation} (hI : s.tables.Inv) (hv : Mappable virt)
    (hcreate : ChoOS.createTable r virt s.tables = some t') (hu : u < 1048576)
    (hw : (s.tables.set (s.tables.cr3 * 1024 + virt / 4194304)
      (newPde (s.tables.pde (virt / 4194304)) r)).walk (u * 4096) = some tr) :
    createTable r virt s (some ((), { s.setTables t' with
      tlb := flushed (pageRoundDown (getPtePtr virt)) (insert (u, tr) s.tlb) })) := by
  have hi := hv.dir_lt
  have hlt := hv.lt
  rw [createTable_eq hI.recursive hlt hi] at hcreate
  obtain ⟨w, hw₀⟩ : ∃ w, w = s.tables.cr3 * 1024 + virt / 4194304 := ⟨_, rfl⟩
  have hstep (q : Page) (f : Page → Page) : modify (getPdePtr virt) f
      (s.setTables (s.tables.set w q)) (some ((), s.setTables (s.tables.set w (f q)))) := by
    refine modify_runs ?_
    rw [hw₀]
    exact modify_pde_set hI.recursive hlt hi q f
  have hfirst := hstep (s.tables.pde (virt / 4194304)) (.setFrame (frameOf r))
  rw [Tables.pde, ← hw₀, set_mem_eq] at hfirst
  refine Prog.bind_some hfirst (Prog.bind_some (hstep _ _) (Prog.bind_some (hstep _ _)
    (Prog.bind_some (hstep _ _) (Prog.bind_some (Prog.bind_some (fills_walk hu ?_) rfl)
      (zeroWords_runs _ _ _ ?_)))))
  · rw [hw₀]
    exact hw
  · rw [hw₀]
    exact hcreate

theorem pmmAllocPage_runs {e : Machine} (h : s.machine.pmmAllocPage = (r, e)) :
    pmmAllocPage s (some (r, ⟨e, s.tlb⟩)) :=
  Prog.bind_some (fills_idle s) (Prog.choose_some ⟨h, rfl⟩)

/-- **A table whose frame was not clean** may leave a stale translation. -/
theorem stale_of_dirty (hI : s.tables.Inv) (hv : Mappable virt)
    (hfresh : s.machine.FreshTable virt) (hdirty : ¬ s.machine.CleanTable virt) (phys flags : Nat) :
    ∃ s', vmmPageMap phys virt flags s (some (0, s')) ∧
      ∃ p ∈ s'.tlb, s'.tables.walk (p.1 * 4096) = none := by
  have hi := hv.dir_lt
  have hlt := hv.lt
  simp only [Machine.CleanTable, Classical.not_imp, not_forall, Bool.not_eq_false] at hdirty
  obtain ⟨hp, h0, k, hk, hne, hpresent⟩ := hdirty
  change (s.tables.pde (virt / 4194304)).present = false at hp
  obtain ⟨r, e, ha⟩ : ∃ r e, s.machine.pmmAllocPage = (r, e) := ⟨_, _, rfl⟩
  have hnew := hfresh hp h0
  rw [ha] at hnew h0 hpresent
  have ht : (⟨e, s.tlb⟩ : Mmu).tables = s.tables := Machine.pmmAllocPage_tables ha
  obtain ⟨t₁, hcreate, hI₁, -, hd₁, -, hw₁⟩ := hI.createTable hv hp hnew
  have hp₁ : (t₁.pde (virt / 4194304)).present := by rw [hd₁]; rfl
  obtain ⟨t', hwrite, -, hm, -⟩ := hI₁.writeEntry hv hp₁ phys flags
  -- the page whose translation the frame held
  obtain ⟨u, hu⟩ : ∃ u, u = virt / 4194304 * 1024 + k := ⟨_, rfl⟩
  have hdiv : u * 4096 / 4194304 % 1024 = virt / 4194304 := by omega
  have hmod : u * 4096 / 4096 % 1024 = k := by omega
  have hbelow : u * 4096 < ptBaseVaddr := by
    have hbase : ptBaseVaddr = 4290772992 := rfl
    omega
  have hold : s.tables.walk (u * 4096) = none := walk_of_no_table (by rw [hdiv]; exact hp)
  obtain ⟨tr, htr⟩ : ∃ tr, (s.tables.set (s.tables.cr3 * 1024 + virt / 4194304)
      (newPde (s.tables.pde (virt / 4194304)) r)).walk (u * 4096) = some tr := by
    have hframe : (newPde (s.tables.pde (virt / 4194304)) r).frame = frameOf r := rfl
    have hcr3 : (frameOf r : Nat) ≠ s.tables.cr3 := fun he => hnew (.inl he)
    have hentry : (s.tables.set (s.tables.cr3 * 1024 + virt / 4194304)
        (newPde (s.tables.pde (virt / 4194304)) r)).mem (frameOf r * 1024 + k)
        = s.tables.mem (frameOf r * 1024 + k) := set_mem_of_ne (by omega)
    simp only [walk, hdiv, hmod, set_pde_self, hframe, hentry]
    exact ⟨_, if_pos hpresent⟩
  apply Exists.intro
  constructor
  · refine Prog.bind_some (load_runs (load_pde hI.recursive hlt)) ?_
    rw [if_neg (by rw [hp]; decide)]
    refine Prog.bind_some (pmmAllocPage_runs ha) ?_
    rw [if_neg h0]
    rw [← ht] at hI hcreate htr
    exact Prog.bind_some (createTable_runs hI hv hcreate (by omega) htr)
      (Prog.bind_some (writeEntry_runs hwrite) rfl)
  · have hwin : pageRoundDown (getPtePtr virt) / 4096 = windowPage (virt / 4194304) := by
      rw [pageRoundDown, Nat.mul_div_cancel _ (by decide), getPtePtr_page hlt]
    refine ⟨(u, tr), ⟨⟨.inl rfl, ?_⟩, ?_⟩, ?_⟩
    · rw [hwin, windowPage]
      omega
    · dsimp only
      omega
    · have hnone : t'.walk (u * 4096) = none := by
        rw [hm.others _ hbelow (by omega), hw₁ _ hbelow]
        exact hold
      exact hnone

end Runs

/-! ### Runs -/

end Mmu

/-- The calls, with their results, and what the hardware does between them. -/
inductive MmuEvent
  | fills
  | vmmPageMap (phys virt flags : Nat) (res : Int)
  | vmmPageUnmap (virt : Nat) (res : Int)

inductive MmuStep : Mmu → MmuEvent → Mmu → Prop
  | fills {s s' : Mmu} : Mmu.fills s (some ((), s')) → MmuStep s .fills s'
  | vmmPageMap {s s' : Mmu} {phys virt flags : Nat} {res : Int} : Mappable virt →
      Mmu.vmmPageMap phys virt flags s (some (res, s')) →
      MmuStep s (.vmmPageMap phys virt flags res) s'
  | vmmPageUnmap {s s' : Mmu} {virt : Nat} {res : Int} : Mappable virt →
      Mmu.vmmPageUnmap virt s (some (res, s')) → MmuStep s (.vmmPageUnmap virt res) s'

/-- A frame that is taken for a table is clean. -/
def MmuEvent.Clean (s : Mmu) : MmuEvent → Prop
  | .vmmPageMap _ virt _ _ => s.machine.CleanTable virt
  | _ => True

/-- One step, with clean tables only. -/
def CleanStep (s : Mmu) (ev : MmuEvent) (s' : Mmu) : Prop := ev.Clean s ∧ MmuStep s ev s'

section Runs

variable {s s' : Mmu} {ev : MmuEvent} {virt phys flags : Nat}

theorem CleanStep.current {held : Set Nat} (hO : s.machine.Ok held) (hC : s.Current ∅)
    (hs : CleanStep s ev s') : s'.Current ∅ ∧ ∃ held', s'.machine.Ok held' := by
  obtain ⟨hclean, hs⟩ := hs
  cases hs with
  | fills h =>
    obtain ⟨_, _, heq, hm, hC'⟩ := Mmu.wp_fills (Q := fun _ s' => s'.machine = s.machine ∧
      s'.Current ∅) hC (fun _ hm hC' => ⟨hm, hC'⟩) _ h
    obtain ⟨-, rfl⟩ := Prod.mk.inj (Option.some.inj heq)
    exact ⟨hC', held, by rw [hm]; exact hO⟩
  | @vmmPageMap _ phys virt flags res hv h =>
    have hwp := Mmu.map_current hO.tables hC hv hO.freshTable hclean fun res s'
      (hrun : s.machine.vmmPageMap phys virt flags = some (res, s'.machine)) hC' =>
        And.intro hrun hC'
    obtain ⟨_, _, heq, hrun, hC'⟩ := hwp _ h
    obtain ⟨rfl, rfl⟩ := Prod.mk.inj (Option.some.inj heq)
    obtain ⟨res', e', held', hrun', hO', -⟩ := hO.vmmPageMap hv phys flags
    obtain ⟨-, rfl⟩ := Prod.mk.inj (Option.some.inj (hrun.symm.trans hrun'))
    exact ⟨hC', held', hO'⟩
  | vmmPageUnmap hv h =>
    obtain ⟨_, _, heq, hrun, hC'⟩ := Mmu.unmap_current hO.tables hC hv
      (fun _ _ hrun hC' => And.intro hrun hC') _ h
    obtain ⟨rfl, rfl⟩ := Prod.mk.inj (Option.some.inj heq)
    exact ⟨hC', held, (hO.vmmPageUnmap hv hrun).1⟩

/-- **One call of `vmm_page_map`** leaves no stale translation, however the hardware fills
the cache, exactly when the frame of a new table is clean. -/
theorem map_current_iff {held : Set Nat} (hO : s.machine.Ok held) (hC : s.Current ∅)
    (hv : Mappable virt) (phys flags : Nat) :
    (∀ res s', Mmu.vmmPageMap phys virt flags s (some (res, s')) →
      ∀ p ∈ s'.tlb, s'.tables.walk (p.1 * 4096) = some p.2) ↔ s.machine.CleanTable virt := by
  constructor
  · intro h
    by_contra hdirty
    obtain ⟨s', hrun, p, hp, hnone⟩ :=
      Mmu.stale_of_dirty hO.tables hv hO.freshTable hdirty phys flags
    have hwalk := h 0 s' hrun p hp
    rw [hnone] at hwalk
    cases hwalk
  · intro hclean res s' h p hp
    have hs : CleanStep s (.vmmPageMap phys virt flags res) s' := ⟨hclean, .vmmPageMap hv h⟩
    exact ((hs.current hO hC).1 p hp).2 (Set.notMem_empty _)

variable {magic kernelEnd : Nat} {mbd : Multiboot} {mem : Nat → Page} {f : Frames}
  {t₀ : Tables} {ram : Nat → UInt8} {es : List PagingEvent} {c : PagingClient}
  {tlb : Set (Nat × Translation)} {evs : List MmuEvent}

/-- **No stale translation survives.**  From any state that the calls of the paging code
reach, with a cache that agrees with the tables: when every frame that is taken for a table
is clean, the cache agrees with them after every call of the run.  And where the next frame
is not clean, the next call may leave a stale translation. -/
theorem tlb_current (hinit : pmmDirectoryInit magic kernelEnd mbd mem = some (f, t₀))
    (hcalls : Trace PagingStep ⟨Machine.start f t₀ ram, ∅⟩ es c)
    (hC : Mmu.Current ∅ ⟨c.machine, tlb⟩) (hrun : Trace CleanStep ⟨c.machine, tlb⟩ evs s) :
    (∀ p ∈ s.tlb, s.tables.walk (p.1 * 4096) = some p.2) ∧
    ∀ phys virt flags, Mappable virt →
      ((∀ res s', Mmu.vmmPageMap phys virt flags s (some (res, s')) →
        ∀ p ∈ s'.tlb, s'.tables.walk (p.1 * 4096) = some p.2) ↔ s.machine.CleanTable virt) := by
  obtain ⟨held, hO⟩ := paging_run_ok hinit hcalls
  obtain ⟨hC', held', hO'⟩ := hrun.invariant
    (I := fun s => s.Current ∅ ∧ ∃ held, s.machine.Ok held) ⟨hC, held, hO.machine⟩
    fun s ev s' ⟨hC, held, hO⟩ hs => hs.current hO hC
  exact ⟨fun p hp => (hC' p hp).2 (Set.notMem_empty _),
    fun phys virt flags hv => map_current_iff hO' hC' hv phys flags⟩

theorem tlb_current_zeroed : ∃ f t₀ s,
    pmmDirectoryInit multibootBootloaderMagic 0xC0120000 (entryMap 64) (fun _ => .zero)
      = some (f, t₀) ∧
    Trace MmuStep ⟨Machine.start f t₀ fun _ => 0, ∅⟩ [.fills] s ∧
    (0xC0000, ⟨0, true, false⟩) ∈ s.tlb ∧
    ∀ res s', Mmu.vmmPageMap 0x300000 0x10000000 3 s (some (res, s')) →
      ∀ p ∈ s'.tlb, s'.tables.walk (p.1 * 4096) = some p.2 := by
  obtain ⟨f, t₀, hdir, -, held, hO⟩ := exists_spare_frame (fun _ => .zero) 0x10000000
  have hkernel : t₀.walk (0xC0000 * 4096) = some ⟨0, true, false⟩ :=
    (pmmDirectoryInit_walk hdir).2 _ (by decide) (by decide)
  have hfill := Mmu.fills_walk (s := ⟨Machine.start f t₀ fun _ => 0, ∅⟩) (by decide) hkernel
  have hrun : Trace CleanStep ⟨Machine.start f t₀ fun _ => 0, ∅⟩ [.fills] _ :=
    .single ⟨trivial, .fills hfill⟩
  have hclean : (Machine.start f t₀ fun _ => 0).CleanTable 0x10000000 := by
    intro hp h0 k hk _
    have hmem := pmmDirectoryInit_mem hdir (hO.freshTable hp h0) hk
    exact congrArg Page.present hmem
  have hC : Mmu.Current ∅ ⟨Machine.start f t₀ fun _ => 0, ∅⟩ := fun _ hc => absurd hc (by simp)
  refine ⟨f, t₀, _, hdir, hrun.mono fun _ _ _ h => h.2, .inl rfl, ?_⟩
  exact ((tlb_current hdir .nil hC hrun).2 0x300000 0x10000000 3
    ⟨by decide, by decide, by decide, by decide⟩).mpr hclean

/-- A page that the frame held before. -/
def oldEntry : Page := { Page.zero with present := true, frame := frameOf 0x7000 }

/-- The memory of a new table held entries, and one of them is still a translation when the
call returns. -/
theorem tlb_stale : ∃ f t₀ s,
    pmmDirectoryInit multibootBootloaderMagic 0xC0120000 (entryMap 64) (fun _ => oldEntry)
      = some (f, t₀) ∧
    Trace MmuStep ⟨Machine.start f t₀ fun _ => 0, ∅⟩ [.vmmPageMap 0x300000 0x10000000 3 0] s ∧
    ∃ p ∈ s.tlb, s.tables.walk (p.1 * 4096) ≠ some p.2 := by
  obtain ⟨f, t₀, hdir, hspare, held, hO⟩ := exists_spare_frame (fun _ => oldEntry) 0x10000000
  have hv : Mappable 0x10000000 := ⟨by decide, by decide, by decide, by decide⟩
  obtain ⟨d, e, hd⟩ := pmmDirectoryInit_spec hdir
  have habs : (t₀.pde (0x10000000 / 4194304)).present = false :=
    hd.empty _ (by decide) (by decide) (by decide)
  have h0 : (Machine.start f t₀ fun _ => 0).pmmAllocPage.1 ≠ 0 := fun h0 => hspare ⟨habs, h0⟩
  have hdirty : ¬ (Machine.start f t₀ fun _ => 0).CleanTable 0x10000000 := by
    intro hclean
    have hmem := pmmDirectoryInit_mem hdir (hO.freshTable habs h0) (show 1 < 1024 by decide)
    have hpresent : oldEntry.present = false :=
      (congrArg Page.present hmem).symm.trans (hclean habs h0 1 (by decide) (by decide))
    cases hpresent
  obtain ⟨s, hrun, p, hp, hnone⟩ := Mmu.stale_of_dirty (s := ⟨Machine.start f t₀ fun _ => 0, ∅⟩)
    hO.tables hv hO.freshTable hdirty 0x300000 3
  refine ⟨f, t₀, s, hdir, .single (.vmmPageMap hv hrun), p, hp, ?_⟩
  rw [hnone]
  exact nofun

end Runs

end ChoOS
