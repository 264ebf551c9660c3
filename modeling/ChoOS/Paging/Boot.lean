import ChoOS.Paging.Account

/-!
# From the boot tables to the first directory

The paging part of `boot.S`, with the loop over the entries of `boot_page_table1`, and
what becomes of its tables when `pmm_directory_init` runs on them.  The stores of
`boot.S` go to physical addresses, paging is off.  `.bss` is zero, as the bootloader
leaves it.

`bootMem_walk` is the translation of the boot tables: the first 1023 frames at
their own addresses and at `KERNEL_VIRT_OFFSET`.  `boot_handover` is the change of
`CR3`.  `pmm_directory_init` reaches its two new frames through the boot tables and
leaves these alone, so the kernel stands on them until it loads `CR3`; and behind the
load every address below the recursive window is translated as before.
-/

namespace ChoOS

/-! ### The code -/

/-- The bit-field of `paging.h` in a word. -/
def Page.ofWord (w : Nat) : Page where
  present := w.testBit 0
  rw := w.testBit 1
  user := w.testBit 2
  wThrough := w.testBit 3
  cacheDis := w.testBit 4
  accessed := w.testBit 5
  dirty := w.testBit 6
  pat := w.testBit 7
  global := w.testBit 8
  available := ⟨w / 512 % 8, Nat.mod_lt _ (by decide)⟩
  frame := frameOf w

/-- `movl v, (a)` -/
def storeWord (a v : Nat) (mem : Nat → Page) : Nat → Page :=
  Function.update mem (a / 4) (Page.ofWord v)

/-- The registers of the loop, and the memory. -/
structure BootLoop where
  edi : Nat
  esi : Nat
  ecx : Nat
  mem : Nat → Page

/-- From the label to `loop`; `edx` is `esi` with the two flags. -/
def bootEntry (b : BootLoop) : BootLoop where
  mem := storeWord b.edi (b.esi ||| 0x003) b.mem
  esi := u32 (b.esi + 4096)
  edi := u32 (b.edi + 4)
  ecx := b.ecx

/-- The loop, with at most so many rounds. -/
def bootLoop : Nat → BootLoop → Option BootLoop
  | 0, _ => none
  | fuel + 1, b =>
    let b := bootEntry b
    let b := { b with ecx := sub32 b.ecx 1 }
    if b.ecx ≠ 0 then bootLoop fuel b else some b

/-- `ecx` is back at zero after so many rounds, whatever it was. -/
def bootRounds : Nat := 4294967296

/-- `_start`, up to the load of `CR0`; the arguments are `boot_page_directory` and
`boot_page_table1`. -/
def bootStart (directory table : Nat) (mem : Nat → Page) : Option Tables := do
  let b ← bootLoop bootRounds ⟨sub32 table 0xC0000000, 0, 1023, mem⟩
  -- the `;` in front of this store ends an empty statement
  let mem := storeWord (u32 (sub32 table 0xC0000000 + 1023 * 4)) (0x000B8000 ||| 0x003) b.mem
  let entry := u32 (sub32 table 0xC0000000 + 0x003)
  let mem := storeWord (sub32 directory 0xC0000000) entry mem
  let mem := storeWord (u32 (sub32 directory 0xC0000000 + 768 * 4)) entry mem
  return ⟨mem, frameOf (sub32 directory 0xC0000000)⟩

/-- Where the linker puts the tables: aligned, apart, and inside of the image. -/
structure BootImage (directory table kernelEnd : Nat) : Prop where
  ofDirectory : directory % 4096 = 0 ∧ 0xC0100000 ≤ directory ∧ directory + 4096 ≤ kernelEnd
  ofTable : table % 4096 = 0 ∧ 0xC0100000 ≤ table ∧ table + 4096 ≤ kernelEnd
  apart : directory ≠ table
  bound : kernelEnd < 0x100000000

/-! ### Entries -/

variable {mem : Nat → Page} {k v w : Nat} {b : BootLoop}

theorem or_flags (k : Nat) : k * 4096 ||| 3 = k * 4096 + 3 := by
  have h := Nat.two_pow_add_eq_or_of_lt (show 3 < 2 ^ 12 by decide) k
  rw [show 2 ^ 12 * k = k * 4096 by omega] at h
  exact h.symm

theorem ofWord_flags (k : Nat) : (Page.ofWord (k * 4096 + 3)).present ∧
    (Page.ofWord (k * 4096 + 3)).rw ∧ (Page.ofWord (k * 4096 + 3)).user = false ∧
    (Page.ofWord (k * 4096 + 3)).frame = frameOf (k * 4096) := by
  have hbit : ∀ j < 12, (k * 4096 + 3).testBit j = (3).testBit j := by
    intro j hj
    rw [show k * 4096 + 3 = 2 ^ 12 * k + 3 by omega,
      Nat.testBit_two_pow_mul_add k (by decide) j, if_pos hj]
  have hframe : (k * 4096 + 3) / 4096 = k * 4096 / 4096 := by omega
  simp only [Page.ofWord, hbit 0 (by decide), hbit 1 (by decide), hbit 2 (by decide), frameOf, hframe]
  decide

theorem storeWord_self : storeWord (4 * k) v mem k = Page.ofWord v := by
  rw [storeWord, show 4 * k / 4 = k by omega, Function.update_self]

theorem storeWord_of_ne (h : w ≠ k) : storeWord (4 * k) v mem w = mem w := by
  rw [storeWord, show 4 * k / 4 = k by omega, Function.update_of_ne h]

/-! ### The loop -/

theorem bootLoop_eq : ∀ (n fuel : Nat) (b : BootLoop) (i f : Nat), b.ecx = n + 1 → n < fuel →
    b.edi = 4 * i → b.esi = f * 4096 → i + n + 1 < 1073741824 → f + n + 1 < 1048576 →
    ∃ b', bootLoop fuel b = some b' ∧ ∀ w, b'.mem w =
      if i ≤ w ∧ w < i + (n + 1) then Page.ofWord ((f + (w - i)) * 4096 + 3) else b.mem w := by
  intro n
  induction n with
  | zero =>
    intro fuel b i f hecx hfuel hedi hesi hi hf
    obtain ⟨fuel, rfl⟩ : ∃ m, fuel = m + 1 := ⟨fuel - 1, by omega⟩
    have hdone : sub32 b.ecx 1 = 0 := by rw [hecx]; decide
    refine ⟨{ bootEntry b with ecx := sub32 b.ecx 1 }, ?_, ?_⟩
    · rw [bootLoop]
      exact if_neg (not_not.mpr hdone)
    · intro w
      simp only [bootEntry, hedi, hesi, or_flags]
      by_cases hw : w = i
      · rw [hw, storeWord_self, if_pos (by omega), Nat.sub_self]
        rfl
      · rw [storeWord_of_ne hw, if_neg (by omega)]
  | succ n ih =>
    intro fuel b i f hecx hfuel hedi hesi hi hf
    obtain ⟨fuel, rfl⟩ : ∃ m, fuel = m + 1 := ⟨fuel - 1, by omega⟩
    have hnext : sub32 b.ecx 1 = n + 1 := by
      rw [hecx, sub32_of_le (by omega) (by omega)]
      omega
    obtain ⟨b', hloop, hmem⟩ := ih fuel { bootEntry b with ecx := sub32 b.ecx 1 } (i + 1) (f + 1)
      hnext (by omega) (by
        show u32 (b.edi + 4) = 4 * (i + 1)
        rw [hedi, u32_of_lt (by omega)]
        omega) (by
        show u32 (b.esi + 4096) = (f + 1) * 4096
        rw [hesi, u32_of_lt (by omega)]
        omega) (by omega) (by omega)
    refine ⟨b', ?_, ?_⟩
    · rw [bootLoop]
      refine (if_pos ?_).trans hloop
      show sub32 b.ecx 1 ≠ 0
      omega
    · intro w
      rw [hmem]
      simp only [bootEntry, hedi, hesi, or_flags]
      by_cases hw : w = i
      · rw [hw, if_neg (by omega), storeWord_self, if_pos (by omega), Nat.sub_self]
        rfl
      · rw [storeWord_of_ne hw]
        by_cases hin : i + 1 ≤ w ∧ w < i + 1 + (n + 1)
        · rw [if_pos hin, if_pos (by omega), show f + 1 + (w - (i + 1)) = f + (w - i) by omega]
        · rw [if_neg hin, if_neg (by omega)]

/-- The frame of a table of the image. -/
def imageFrame (addr : Nat) : Nat := (addr - 0xC0000000) / 4096

/-- What the boot code leaves in the memory. -/
def bootMem (d e : Nat) (mem : Nat → Page) (w : Nat) : Page :=
  if w = d * 1024 ∨ w = d * 1024 + 768 then Page.ofWord (e * 4096 + 3)
  else if w = e * 1024 + 1023 then Page.ofWord (0xB8 * 4096 + 3)
  else if w / 1024 = e then Page.ofWord (w % 1024 * 4096 + 3)
  else mem w

section Image

variable {directory table kernelEnd : Nat}

theorem bootStart_eq (h : BootImage directory table kernelEnd) (mem : Nat → Page) :
    bootStart directory table mem = some ⟨bootMem (imageFrame directory) (imageFrame table) mem,
      frameOf (imageFrame directory * 4096)⟩ := by
  obtain ⟨hd, hd₁, hd₂⟩ := h.ofDirectory
  obtain ⟨he, he₁, he₂⟩ := h.ofTable
  have hbound := h.bound
  obtain ⟨d, hdir⟩ : ∃ d, directory = d * 4096 + 3221225472 :=
    ⟨(directory - 3221225472) / 4096, by omega⟩
  obtain ⟨e, htab⟩ : ∃ e, table = e * 4096 + 3221225472 := ⟨(table - 3221225472) / 4096, by omega⟩
  have hdf : imageFrame directory = d := by rw [imageFrame]; omega
  have hef : imageFrame table = e := by rw [imageFrame]; omega
  have hne : d ≠ e := by
    rintro rfl
    exact h.apart (hdir.trans htab.symm)
  have hsd : sub32 directory 3221225472 = 4 * (d * 1024) := by
    rw [sub32_of_le (by omega) (by omega)]
    omega
  have hst : sub32 table 3221225472 = 4 * (e * 1024) := by
    rw [sub32_of_le (by omega) (by omega)]
    omega
  obtain ⟨b, hloop, hmem⟩ := bootLoop_eq 1022 bootRounds ⟨4 * (e * 1024), 0, 1023, mem⟩
    (e * 1024) 0 rfl (by decide) rfl rfl (by omega) (by decide)
  have hvga : u32 (4 * (e * 1024) + 1023 * 4) = 4 * (e * 1024 + 1023) := by
    rw [u32_of_lt (by omega)]
    omega
  have hhigh : u32 (4 * (d * 1024) + 768 * 4) = 4 * (d * 1024 + 768) := by
    rw [u32_of_lt (by omega)]
    omega
  have hentry : u32 (4 * (e * 1024) + 0x003) = e * 4096 + 3 := by
    rw [u32_of_lt (by omega)]
    omega
  have hvalue : 0x000B8000 ||| 0x003 = 0xB8 * 4096 + 3 := by decide
  rw [bootStart, hst, hsd, hloop]
  simp only [hvga, hhigh, hentry, hvalue, hdf, hef, Option.bind_eq_bind, Option.bind_some]
  rw [congrArg frameOf (show 4 * (d * 1024) = d * 4096 by omega)]
  refine congrArg (fun m => some (Tables.mk m (frameOf (d * 4096)))) (funext fun w => ?_)
  rw [bootMem]
  by_cases h1 : w = d * 1024 + 768
  · rw [h1, storeWord_self, if_pos (.inr rfl)]
  rw [storeWord_of_ne h1]
  by_cases h2 : w = d * 1024
  · rw [h2, storeWord_self, if_pos (.inl rfl)]
  rw [storeWord_of_ne h2, if_neg (not_or.mpr ⟨h2, h1⟩)]
  by_cases h3 : w = e * 1024 + 1023
  · rw [h3, storeWord_self, if_pos rfl]
  rw [storeWord_of_ne h3, if_neg h3, hmem]
  by_cases h4 : w / 1024 = e
  · rw [if_pos (by omega), if_pos h4, show 0 + (w - e * 1024) = w % 1024 by omega]
  · rw [if_neg (by omega), if_neg h4]

theorem bootMem_pde {d e i : Nat} (hd : d < 1048576) (hne : d ≠ e)
    (hbss : ∀ k < 1024, mem (d * 1024 + k) = Page.zero) (hlt : i < 1024) :
    Tables.pde ⟨bootMem d e mem, frameOf (d * 4096)⟩ i =
      if i = 0 ∨ i = 768 then Page.ofWord (e * 4096 + 3) else Page.zero := by
  rw [Tables.pde, frameOf_mul hd]
  change bootMem d e mem (d * 1024 + i) = _
  rw [bootMem]
  by_cases h : i = 0 ∨ i = 768
  · rw [if_pos (by omega), if_pos h]
  · rw [if_neg (by omega), if_neg (by omega), if_neg (by omega), if_neg h, hbss i hlt]

/-- **The boot tables** map the first frames twice, and nothing else. -/
theorem bootMem_walk {d e : Nat} (hd : d < 1048576) (he : e < 1048576) (hne : d ≠ e)
    (hbss : ∀ k < 1024, mem (d * 1024 + k) = Page.zero) (hv : v < 4294967296)
    (hlast : v / 4096 % 1024 < 1023) :
    Tables.walk ⟨bootMem d e mem, frameOf (d * 4096)⟩ v =
      if v / 4194304 = 0 ∨ v / 4194304 = 768 then some ⟨frameOf (v % 4194304), true, false⟩
      else none := by
  obtain ⟨i, hi⟩ : ∃ i, i = v / 4194304 := ⟨_, rfl⟩
  have hlt : i < 1024 := by omega
  have hmod : v / 4194304 % 1024 = i := by omega
  have hpde := bootMem_pde hd hne hbss hlt
  rw [← hi]
  by_cases h : i = 0 ∨ i = 768
  · obtain ⟨hp, hrw, huser, hframe⟩ := ofWord_flags e
    obtain ⟨hp', hrw', huser', hframe'⟩ := ofWord_flags (v / 4096 % 1024)
    have hpte : bootMem d e mem (e * 1024 + v / 4096 % 1024)
        = Page.ofWord (v / 4096 % 1024 * 4096 + 3) := by
      rw [bootMem, if_neg (by omega), if_neg (by omega), if_pos (by omega),
        show (e * 1024 + v / 4096 % 1024) % 1024 = v / 4096 % 1024 by omega]
    have hnum : frameOf (v / 4096 % 1024 * 4096) = frameOf (v % 4194304) :=
      congrArg (Fin.ofNat 1048576) (show v / 4096 % 1024 * 4096 / 4096 = v % 4194304 / 4096 by omega)
    rw [if_pos h] at hpde ⊢
    simp only [Tables.walk, hmod, hpde, hp, hframe, frameOf_mul he, hpte, hp', hrw, hrw', huser,
      huser', hframe', hnum, if_true, Bool.and_self]
  · rw [if_neg h] at hpde ⊢
    simp only [Tables.walk, hmod, hpde]
    rfl

/-! ### The first directory -/

/-- **The first directory** maps the same frames, one more at each of the two places. -/
theorem firstTables_walk {d e : Nat} (hd : d < 1048576) (he : e < 1048576) (hne : d ≠ e)
    (mem : Nat → Page) (hv : v < ptBaseVaddr) :
    Tables.walk ⟨firstTables d e mem, frameOf (d * 4096)⟩ v =
      if v / 4194304 = 0 ∨ v / 4194304 = 768 then some ⟨frameOf (v % 4194304), true, false⟩
      else none := by
  have hbase : ptBaseVaddr = 4290772992 := rfl
  rw [hbase] at hv
  obtain ⟨i, hi⟩ : ∃ i, i = v / 4194304 := ⟨_, rfl⟩
  have hmod : v / 4194304 % 1024 = i := by omega
  have hpde := firstTables_pde mem hd hne (show i < 1024 by omega)
  rw [if_neg (show i ≠ 1023 by omega)] at hpde
  rw [← hi]
  by_cases h : i = 0 ∨ i = 768
  · rw [if_pos h.symm] at hpde
    rw [if_pos h]
    obtain ⟨p, hp⟩ := fillFirstTable_self e (fun w =>
      if w / 1024 = e then Page.zero else if w / 1024 = d then Page.zero else mem w)
      (show v / 4096 % 1024 < 1024 by omega)
    have hpte : firstTables d e mem (e * 1024 + v / 4096 % 1024)
        = (((p.setFrame (Fin.ofNat 1048576 (v / 4096 % 1024))).setPresent true).setRw true).setUser
          false := by
      rw [firstTables, setEntry_of_ne (by omega), setEntry_of_ne (by omega),
        setEntry_of_ne (by omega)]
      exact hp
    have hnum : Fin.ofNat 1048576 (v / 4096 % 1024) = frameOf (v % 4194304) :=
      congrArg (Fin.ofNat 1048576) (show v / 4096 % 1024 = v % 4194304 / 4096 by omega)
    have hframe : ((frameOf (e * 4096) : Fin 1048576) : Nat) = e := frameOf_mul he
    simp only [Tables.walk, hmod, hpde, Page.setUser, Page.setRw, Page.setPresent, Page.setFrame,
      hframe, hpte, hnum, if_true, Bool.and_self]
  · rw [if_neg (fun h' => h h'.symm)] at hpde
    rw [if_neg h]
    simp only [Tables.walk, hmod, hpde]
    rfl

/-- A frame of the image is not one that `pmm_alloc_frame_int` gives. -/
theorem imageFrame_ne {addr a : Nat} {mbd : Multiboot} {bitmap set : Bitmap} {kernelEnd : Nat}
    (hinit : pmmFramesInit kernelEnd mbd = some bitmap) (hlo : 0xC0100000 ≤ addr)
    (hhi : addr + 4096 ≤ kernelEnd) (hbound : kernelEnd < 0x100000000)
    (ht : Taken set bitmap (a * 4096)) : imageFrame addr ≠ a := by
  rintro rfl
  have hres := ht.notReserved
  have hidx : kernelEndIdx kernelEnd = (kernelEnd - 3221225472) / 4096 + 1 := by
    rw [kernelEndIdx, kernelVirtOffset, sub32_of_le (by omega) (by omega), pageSize,
      u32_of_lt (by omega)]
  rw [Nat.mul_div_cancel _ (by decide), pmmFramesInit_protected hinit (.inr
    ⟨by rw [hidx, imageFrame]; omega, by rw [imageFrame]; omega⟩)] at hres
  exact absurd hres (by decide)

/-- **The first load of `CR3`.**  `boot.S` leaves tables that map the first 4 MiB at their own
addresses and at `KERNEL_VIRT_OFFSET`, as far as the loop fills them.  `pmm_directory_init`
leaves them alone, reaches the two frames it writes through them at their own addresses, and
hands over a directory that gives the same translation below the recursive window. -/
theorem boot_handover (himage : BootImage directory table kernelEnd)
    (hbss : ∀ k < 1024, mem (sub32 directory 0xC0000000 / 4 + k) = Page.zero) :
    ∃ t₀, bootStart directory table mem = some t₀ ∧
      (∀ v < 4294967296, v / 4096 % 1024 < 1023 → t₀.walk v =
        if v / 4194304 = 0 ∨ v / 4194304 = 768 then some ⟨frameOf (v % 4194304), true, false⟩
        else none) ∧
      ∀ magic mbd s t, pmmDirectoryInit magic kernelEnd mbd t₀.mem = some (s, t) →
        (∀ v < 4294967296, v / 4096 % 1024 < 1023 → Tables.walk ⟨t.mem, t₀.cr3⟩ v = t₀.walk v) ∧
        (∀ f, t.InUse f → ∀ x < 4096, ∃ n : Fin 1048576, (n : Nat) = f ∧
          t₀.walk (f * 4096 + x) = some ⟨n, true, false⟩) ∧
        ∀ v < ptBaseVaddr, v / 4096 % 1024 < 1023 → t.walk v = t₀.walk v := by
  obtain ⟨hd, hd₁, hd₂⟩ := himage.ofDirectory
  obtain ⟨he, he₁, he₂⟩ := himage.ofTable
  have hbound := himage.bound
  have hbase : ptBaseVaddr = 4290772992 := rfl
  have hboot := bootStart_eq himage mem
  obtain ⟨db, hdb⟩ : ∃ d, d = imageFrame directory := ⟨_, rfl⟩
  obtain ⟨eb, heb⟩ : ∃ e, e = imageFrame table := ⟨_, rfl⟩
  have hdlt : db < 1048576 := by rw [hdb, imageFrame]; omega
  have helt : eb < 1048576 := by rw [heb, imageFrame]; omega
  have hne : db ≠ eb := by
    have := himage.apart
    rw [hdb, heb, imageFrame, imageFrame]
    omega
  have hzero : ∀ k < 1024, mem (db * 1024 + k) = Page.zero := by
    intro k hk
    rw [← hbss k hk, sub32_of_le (by omega) (by omega), hdb, imageFrame]
    exact congrArg mem (by omega)
  rw [← hdb, ← heb] at hboot
  have hwalk : ∀ v < 4294967296, v / 4096 % 1024 < 1023 →
      Tables.walk ⟨bootMem db eb mem, frameOf (db * 4096)⟩ v =
        if v / 4194304 = 0 ∨ v / 4194304 = 768 then some ⟨frameOf (v % 4194304), true, false⟩
        else none :=
    fun v hv hlast => bootMem_walk hdlt helt hne hzero hv hlast
  refine ⟨_, hboot, hwalk, fun magic mbd s t hinit => ?_⟩
  obtain ⟨d, e, hinitial⟩ := pmmDirectoryInit_spec hinit
  obtain ⟨bitmap, hb, hI⟩ := hinitial.owned
  have hfree : ∀ addr, 0xC0100000 ≤ addr → addr + 4096 ≤ kernelEnd →
      ¬ t.InUse (imageFrame addr) := by
    intro addr hlo hhi hu
    have htaken := hI.owned.heldTaken
    rcases hinitial.inUse hu with h | h
    · exact imageFrame_ne hb hlo hhi hbound (htaken _ (by simp)) h
    · exact imageFrame_ne hb hlo hhi hbound (htaken _ (by simp)) h
  have hkeep : ∀ f, f = db ∨ f = eb → ∀ k < 1024,
      t.mem (f * 1024 + k) = bootMem db eb mem (f * 1024 + k) := by
    rintro f (rfl | rfl) k hk
    · exact pmmDirectoryInit_mem hinit (hdb ▸ hfree directory hd₁ hd₂) hk
    · exact pmmDirectoryInit_mem hinit (heb ▸ hfree table he₁ he₂) hk
  refine ⟨fun v hv _ => ?_, fun f hu x hx => ?_, fun v hv hlast => ?_⟩
  · have hpde := bootMem_pde hdlt hne hzero (show v / 4194304 % 1024 < 1024 by omega)
    refine Tables.walk_congr ?_ fun hp => ?_
    · rw [Tables.pde, Tables.pde, frameOf_mul hdlt]
      exact hkeep db (.inl rfl) _ (by omega)
    · rw [hpde] at hp ⊢
      split at hp
      · rename_i h
        rw [if_pos h, (ofWord_flags eb).2.2.2, frameOf_mul helt]
        exact hkeep eb (.inr rfl) _ (by omega)
      · exact absurd hp (by decide)
  · have hf : f < 1023 := by
      have := hinitial.d_lt
      have := hinitial.e_lt
      rcases hinitial.inUse hu with rfl | rfl <;> omega
    have hnum : (frameOf ((f * 4096 + x) % 4194304) : Nat) = f := by
      rw [frameOf, Fin.val_ofNat]
      omega
    refine ⟨_, hnum, ?_⟩
    rw [hwalk _ (by omega) (by omega), if_pos (by omega)]
  · obtain ⟨_, d', e', -, -, hne', hd', he', ht, -⟩ := pmmDirectoryInit_eq hinit
    rw [ht, firstTables_walk (by omega) (by omega) hne' _ hv, hwalk v (by omega) hlast]

theorem boot_handover_entryMap : ∃ t₀ s t, bootStart 0xC0110000 0xC0111000 (fun _ => .zero) = some t₀ ∧
    pmmDirectoryInit multibootBootloaderMagic 0xC0120000 (entryMap 64) t₀.mem = some (s, t) ∧
    t.walk 0xC0100123 = t₀.walk 0xC0100123 := by
  have himage : BootImage 0xC0110000 0xC0111000 0xC0120000 :=
    ⟨by decide, by decide, by decide, by decide⟩
  have hbss : ∀ mem : Nat → Page, mem = (fun _ => .zero) →
      ∀ k < 1024, mem (sub32 0xC0110000 0xC0000000 / 4 + k) = Page.zero := by
    rintro mem rfl k -
    rfl
  obtain ⟨t₀, hboot, -, hinit⟩ := boot_handover himage (hbss _ rfl)
  obtain ⟨s, t, hdir, -⟩ := pmmDirectoryInit_entryMap (n := 64) (by decide) (by decide) t₀.mem
  exact ⟨t₀, s, t, hboot, hdir, (hinit _ _ s t hdir).2.2 _ (by decide) (by decide)⟩

end Image

end ChoOS
