import Mathlib.Data.List.Induction
import ChoOS.Lib.Descriptor
import ChoOS.Interrupts.Idt

/-!
# The global descriptor table

The code of `gdt.c`, with `gdt_flush.S` and `tss_flush.S`.  `GdtEntry.bits` is the
packed structure, and the processor reads it as a segment.

`segment_gdtGateSets` is the table behind any calls of `gdt_gate_set`: a segment
has the base of its last call, the low twenty bits of the limit, the access byte,
and the high half of the granularity.  `interrupt_delivered` is about the tables
that the kernel sets up: the segments that it loads are flat, and an interrupt
gets from any privilege to its stub.
-/

namespace ChoOS

/-- `GdtEntry` -/
structure GdtEntry where
  limit : BitVec 16
  baseLow : BitVec 16
  baseMiddle : BitVec 8
  access : BitVec 8
  flags : BitVec 8
  baseHigh : BitVec 8

/-- The packed structure. -/
def GdtEntry.bits (e : GdtEntry) : BitVec 64 :=
  e.baseHigh ++ e.flags ++ e.access ++ e.baseMiddle ++ e.baseLow ++ e.limit

/-- `enum GdtSegmentType` -/
inductive GdtSegmentType
  | null
  | kcode
  | kdata
  | ucode
  | udata
  | tss
  deriving DecidableEq

/-- The enumerators are numbered from 0. -/
def GdtSegmentType.num : GdtSegmentType → Fin 6
  | null => 0
  | kcode => 1
  | kdata => 2
  | ucode => 3
  | udata => 4
  | tss => 5

/-- `gdt_entries` -/
abbrev GdtEntries : Type := Fin 6 → GdtEntry

/-- `GDT_ACCESS_KCODE` -/
def gdtAccessKcode : BitVec 8 := 0x9A

/-- `GDT_ACCESS_KDATA` -/
def gdtAccessKdata : BitVec 8 := 0x92

/-- `GDT_ACCESS_UCODE` -/
def gdtAccessUcode : BitVec 8 := 0xFA

/-- `GDT_ACCESS_UDATA` -/
def gdtAccessUdata : BitVec 8 := 0xF2

/-- `GDT_FLAGS_MAX_4G` -/
def gdtFlagsMax4G : BitVec 8 := 0xCF

/-- `GDT_SEL_KDATA` -/
def gdtSelKdata : BitVec 16 := 0x10

/-- `RPL_USER_RING3` -/
def rplUserRing3 : BitVec 16 := 0x3

def gdtGateSet (num : Fin 6) (base limit : BitVec 32) (access gran : BitVec 8) (t : GdtEntries) :
    GdtEntries :=
  Function.update t num
    { access := access
      baseLow := (base &&& 0xFFFF).setWidth 16
      baseMiddle := ((base >>> 16) &&& 0xFF).setWidth 8
      baseHigh := ((base >>> 24) &&& 0xFF).setWidth 8
      limit := (limit &&& 0xFFFF).setWidth 16
      flags := ((limit >>> 16) &&& 0x0F).setWidth 8 ||| (gran &&& 0xF0) }

/-- `struct TssEntry` -/
structure TssEntry where
  prevTss : BitVec 32
  esp0 : BitVec 32
  ss0 : BitVec 32
  esp1 : BitVec 32
  ss1 : BitVec 32
  esp2 : BitVec 32
  ss2 : BitVec 32
  cr3 : BitVec 32
  eip : BitVec 32
  eflags : BitVec 32
  eax : BitVec 32
  ecx : BitVec 32
  edx : BitVec 32
  ebx : BitVec 32
  esp : BitVec 32
  ebp : BitVec 32
  esi : BitVec 32
  edi : BitVec 32
  es : BitVec 32
  cs : BitVec 32
  ss : BitVec 32
  ds : BitVec 32
  fs : BitVec 32
  gs : BitVec 32
  ldt : BitVec 32
  trap : BitVec 32
  iomapBase : BitVec 32

/-- The words of the packed structure. -/
def TssEntry.words (t : TssEntry) : List (BitVec 32) :=
  [t.prevTss, t.esp0, t.ss0, t.esp1, t.ss1, t.esp2, t.ss2, t.cr3, t.eip, t.eflags, t.eax, t.ecx,
    t.edx, t.ebx, t.esp, t.ebp, t.esi, t.edi, t.es, t.cs, t.ss, t.ds, t.fs, t.gs, t.ldt, t.trap,
    t.iomapBase]

/-- After `memset`. -/
def TssEntry.zero : TssEntry :=
  ⟨0, 0, 0, 0, 0, 0, 0, 0, 0, 0, 0, 0, 0, 0, 0, 0, 0, 0, 0, 0, 0, 0, 0, 0, 0, 0, 0⟩

/-- `gdt_entries`, `tss_entry`, and the address of the latter. -/
structure GdtState where
  entries : GdtEntries
  tss : TssEntry
  tssAddr : BitVec 32

/-- `sizeof(tss_entry)` -/
def sizeofTssEntry : Nat := 4 * 27

def tssWrite (num : Fin 6) (ss0 : BitVec 16) (esp0 : BitVec 32) (g : GdtState) : GdtState :=
  let sel : BitVec 16 := gdtSelKdata ||| rplUserRing3
  { g with
    entries := gdtGateSet num g.tssAddr (BitVec.ofNat 32 (sizeofTssEntry - 1)) 0xE9 0x0 g.entries
    tss :=
      { TssEntry.zero with
        ss0 := ss0.setWidth 32
        esp0 := esp0
        cs := (gdtOffsetKernelCode ||| rplUserRing3).setWidth 32
        ss := sel.setWidth 32
        ds := sel.setWidth 32
        es := sel.setWidth 32
        fs := sel.setWidth 32
        gs := sel.setWidth 32 } }

def gdtInit (g : GdtState) : GdtState :=
  let max : BitVec 32 := 0xFFFFFFFF
  let e := gdtGateSet GdtSegmentType.null.num 0 0 0 0 g.entries
  let e := gdtGateSet GdtSegmentType.kcode.num 0 max gdtAccessKcode gdtFlagsMax4G e
  let e := gdtGateSet GdtSegmentType.kdata.num 0 max gdtAccessKdata gdtFlagsMax4G e
  let e := gdtGateSet GdtSegmentType.ucode.num 0 max gdtAccessUcode gdtFlagsMax4G e
  let e := gdtGateSet GdtSegmentType.udata.num 0 max gdtAccessUdata gdtFlagsMax4G e
  tssWrite GdtSegmentType.tss.num gdtSelKdata 0x0 { g with entries := e }

/-- `gdt_ptr`, and the table that it points to. -/
def GdtState.table (g : GdtState) : DescriptorTable where
  limit := 8 * 6 - 1
  word i := if h : i < 6 then (g.entries ⟨i, h⟩).bits else 0

/-- `_gdt_flush`: the segment registers, and the jump to the kernel code.  `none`
is a fault. -/
def gdtFlush (t : DescriptorTable) : Option (Segment × Segment × Segment) := do
  let data ← t.loadData 0 0x10
  let stack ← t.loadStack 0 0x10
  let code ← t.loadCode 0 0x08
  return (data, stack, code)

/-- `_tss_flush` -/
def tssFlush (t : DescriptorTable) : Option Segment := t.loadTask 0x2B

/-- The arguments of a call of `gdt_gate_set`. -/
structure GdtGateCall where
  num : Fin 6
  base : BitVec 32
  limit : BitVec 32
  access : BitVec 8
  gran : BitVec 8

def gdtGateSets (calls : List GdtGateCall) (t : GdtEntries) : GdtEntries :=
  calls.foldl (fun t c => gdtGateSet c.num c.base c.limit c.access c.gran t) t

variable {t : GdtEntries} {calls : List GdtGateCall} {num : Fin 6} {base limit : BitVec 32}
  {access gran : BitVec 8} {g : GdtState}

/-! ### One entry -/

theorem GdtEntry.bits_base (e : GdtEntry) :
    e.bits.extractLsb' 56 8 ++ e.bits.extractLsb' 16 24 = e.baseHigh ++ (e.baseMiddle ++ e.baseLow) := by
  congr 1
  · ext i hi
    simp [bits]
    grind
  · ext i hi
    simp [bits]
    grind

theorem GdtEntry.bits_limit (e : GdtEntry) :
    e.bits.extractLsb' 48 4 ++ e.bits.extractLsb' 0 16 = e.flags.extractLsb' 0 4 ++ e.limit := by
  congr 1
  · ext i hi
    simp [bits]
    grind
  · ext i hi
    simp [bits]
    grind

theorem GdtEntry.bits_access (e : GdtEntry) : e.bits.extractLsb' 40 8 = e.access := by
  ext i hi
  simp [bits]
  grind

theorem GdtEntry.bits_flags (e : GdtEntry) : e.bits.extractLsb' 52 4 = e.flags.extractLsb' 4 4 := by
  ext i hi
  simp [bits]
  grind

theorem GdtEntry.decode_bits (e : GdtEntry) : Segment.decode e.bits =
    ⟨e.baseHigh ++ (e.baseMiddle ++ e.baseLow), e.flags.extractLsb' 0 4 ++ e.limit, e.access,
      e.flags.extractLsb' 4 4⟩ := by
  rw [Segment.decode, e.bits_base, e.bits_limit, e.bits_access, e.bits_flags]

theorem base_parts (base : BitVec 32) :
    ((base >>> 24) &&& 0xFF).setWidth 8 ++ (((base >>> 16) &&& 0xFF).setWidth 8 ++
      (base &&& 0xFFFF).setWidth 16) = base := by
  rw [setWidth_and_mask (by decide), setWidth_and_mask (by decide), setWidth_and_mask (by decide)]
  ext i hi
  simp
  grind

/-- The low half of the flags is the top of the limit, the high half the granularity. -/
theorem flags_low (limit : BitVec 32) (gran : BitVec 8) :
    (((limit >>> 16) &&& 0x0F).setWidth 8 ||| (gran &&& 0xF0)).extractLsb' 0 4
      = (limit >>> 16).setWidth 4 := by
  have hgran : (gran &&& 0xF0).extractLsb' 0 4 = 0 := by
    rw [BitVec.extractLsb'_and, show (0xF0 : BitVec 8).extractLsb' 0 4 = 0 by decide]
    exact BitVec.and_zero
  have hlimit : ((limit >>> 16) &&& 0x0F).extractLsb' 0 4 = (limit >>> 16).setWidth 4 := by
    rw [BitVec.extractLsb'_and,
      show (0x0F : BitVec 32).extractLsb' 0 4 = BitVec.allOnes 4 by decide, BitVec.and_allOnes]
    rfl
  rw [BitVec.extractLsb'_or, BitVec.extractLsb'_setWidth_of_le (by omega), hgran, hlimit]
  exact BitVec.or_zero

theorem flags_high (limit : BitVec 32) (gran : BitVec 8) :
    (((limit >>> 16) &&& 0x0F).setWidth 8 ||| (gran &&& 0xF0)).extractLsb' 4 4
      = gran.extractLsb' 4 4 := by
  have hgran : (gran &&& 0xF0).extractLsb' 4 4 = gran.extractLsb' 4 4 := by
    rw [BitVec.extractLsb'_and,
      show (0xF0 : BitVec 8).extractLsb' 4 4 = BitVec.allOnes 4 by decide, BitVec.and_allOnes]
  have hlimit : ((limit >>> 16) &&& 0x0F).extractLsb' 4 4 = 0 := by
    rw [BitVec.extractLsb'_and, show (0x0F : BitVec 32).extractLsb' 4 4 = 0 by decide]
    exact BitVec.and_zero
  rw [BitVec.extractLsb'_or, BitVec.extractLsb'_setWidth_of_le (by omega), hgran, hlimit]
  exact BitVec.zero_or

theorem limit_parts (limit : BitVec 32) :
    (limit >>> 16).setWidth 4 ++ (limit &&& 0xFFFF).setWidth 16 = limit.setWidth 20 := by
  rw [setWidth_and_mask (by decide)]
  ext i hi
  simp
  grind

theorem decode_gdtGateSet (t : GdtEntries) (num : Fin 6) (base limit : BitVec 32)
    (access gran : BitVec 8) : Segment.decode (gdtGateSet num base limit access gran t num).bits =
      ⟨base, limit.setWidth 20, access, gran.extractLsb' 4 4⟩ := by
  rw [GdtEntry.decode_bits, gdtGateSet, Function.update_self]
  simp only [base_parts, flags_low, flags_high, limit_parts]

/-! ### The table -/

/-- The last call for an entry. -/
def lastGdtCall (calls : List GdtGateCall) (num : Fin 6) : Option GdtGateCall :=
  calls.reverse.find? fun c => c.num = num

/-- What the processor makes of a call. -/
def GdtGateCall.segment (c : GdtGateCall) : Segment :=
  ⟨c.base, c.limit.setWidth 20, c.access, c.gran.extractLsb' 4 4⟩

theorem decode_gdtGateSets (calls : List GdtGateCall) (t : GdtEntries) (num : Fin 6) :
    Segment.decode (gdtGateSets calls t num).bits =
      match lastGdtCall calls num with
      | some c => c.segment
      | none => Segment.decode (t num).bits := by
  induction calls using List.reverseRecOn with
  | nil => rfl
  | append_singleton calls c ih =>
    have hstep : gdtGateSets (calls ++ [c]) t
        = gdtGateSet c.num c.base c.limit c.access c.gran (gdtGateSets calls t) := by
      simp [gdtGateSets]
    rw [hstep, lastGdtCall, List.reverse_append, List.reverse_singleton, List.singleton_append,
      List.find?_cons]
    by_cases hn : c.num = num
    · subst hn
      simp only [decide_true]
      exact decode_gdtGateSet _ _ _ _ _ _
    · rw [gdtGateSet, Function.update_of_ne (Ne.symm hn)]
      simpa [hn, lastGdtCall] using ih

/-- **Any calls of `gdt_gate_set`.**  A selector finds what the last call for its entry
says, with the limit cut to twenty bits and the low half of the granularity dropped;
the other entries are as they were, and there are no others. -/
theorem segment_gdtGateSets (calls : List GdtGateCall) (g : GdtState) (sel : BitVec 16) :
    { g with entries := gdtGateSets calls g.entries }.table.segment sel =
      if h : sel.getLsbD 2 = false ∧ 0 < selectorIndex sel ∧ selectorIndex sel < 6 then
        some <| match lastGdtCall calls ⟨selectorIndex sel, h.2.2⟩ with
          | some c => c.segment
          | none => Segment.decode (g.entries ⟨selectorIndex sel, h.2.2⟩).bits
      else none := by
  have hlimit : ∀ n, 8 * n + 7 ≤ 8 * 6 - 1 ↔ n < 6 := by omega
  simp only [DescriptorTable.segment, GdtState.table, hlimit]
  by_cases h : sel.getLsbD 2 = false ∧ 0 < selectorIndex sel ∧ selectorIndex sel < 6
  · rw [if_pos h, dif_pos h.2.2, dif_pos h, decode_gdtGateSets]
  · rw [if_neg h, dif_neg h]

/-! ### The tables of the kernel -/

/-- Where an interrupt goes: the first instruction, and the stack of the kernel
when the privilege changes. -/
structure Delivery where
  cs : BitVec 16
  eip : BitVec 32
  stack : Option (BitVec 16 × BitVec 32)
  deriving DecidableEq

/-- The processor takes the interrupt `v` at privilege `cpl`; `soft` is `int`.
`none` is a fault. -/
def deliver (gdt : DescriptorTable) (idt : IdtRegister) (tss : TssEntry) (cpl : BitVec 2)
    (soft : Bool) (v : BitVec 8) : Option Delivery := do
  let gate ← idt.gate v
  if soft ∧ gate.dpl < cpl then none
  else
    let code ← gdt.gateCode cpl gate.selector
    let eip ← code.linear gate.offset
    if code.dpl = cpl then return ⟨gate.selector, eip, none⟩
    else
      let ss := tss.ss0.setWidth 16
      let _ ← gdt.loadStack code.dpl ss
      return ⟨gate.selector, eip, some (ss, tss.esp0)⟩

/-- The calls of `gdt_gate_set` in `gdt_init`. -/
def gdtInitCalls (tssAddr : BitVec 32) : List GdtGateCall :=
  [⟨GdtSegmentType.null.num, 0, 0, 0, 0⟩,
    ⟨GdtSegmentType.kcode.num, 0, 0xFFFFFFFF, gdtAccessKcode, gdtFlagsMax4G⟩,
    ⟨GdtSegmentType.kdata.num, 0, 0xFFFFFFFF, gdtAccessKdata, gdtFlagsMax4G⟩,
    ⟨GdtSegmentType.ucode.num, 0, 0xFFFFFFFF, gdtAccessUcode, gdtFlagsMax4G⟩,
    ⟨GdtSegmentType.udata.num, 0, 0xFFFFFFFF, gdtAccessUdata, gdtFlagsMax4G⟩,
    ⟨GdtSegmentType.tss.num, tssAddr, 107, 0xE9, 0⟩]

theorem gdtInit_entries (g : GdtState) :
    (gdtInit g).entries = gdtGateSets (gdtInitCalls g.tssAddr) g.entries := rfl

/-- A segment that spans the memory. -/
def flatSegment (access : BitVec 8) : Segment := ⟨0, 0xFFFFF, access, 0xC⟩

theorem flatSegment_flat (access : BitVec 8) : (flatSegment access).Flat :=
  ⟨rfl, by simp [flatSegment, Segment.last]⟩

theorem gdtInit_segment (g : GdtState) {sel : BitVec 16} {i : Fin 6} {c : GdtGateCall}
    (hsel : sel.getLsbD 2 = false ∧ selectorIndex sel = i) (hi : 0 < i.val)
    (h : lastGdtCall (gdtInitCalls g.tssAddr) i = some c) : (gdtInit g).table.segment sel =
      some ⟨c.base, c.limit.setWidth 20, c.access, c.gran.extractLsb' 4 4⟩ := by
  obtain ⟨hti, hindex⟩ := hsel
  have hlt := i.isLt
  have hlimit : 8 * i.val + 7 ≤ (gdtInit g).table.limit := by
    show 8 * i.val + 7 ≤ 8 * 6 - 1
    omega
  have hword : (gdtInit g).table.word i = ((gdtInit g).entries i).bits := by
    simp [GdtState.table]
  rw [DescriptorTable.segment, hindex, if_pos ⟨hti, hi, hlimit⟩, hword, gdtInit_entries,
    decode_gdtGateSets, h]
  rfl

theorem gdtInit_kcode (g : GdtState) :
    (gdtInit g).table.segment gdtOffsetKernelCode = some (flatSegment gdtAccessKcode) := by
  rw [gdtInit_segment g (i := 1) (by decide) (by decide) rfl]
  rfl

theorem gdtInit_kdata (g : GdtState) :
    (gdtInit g).table.segment gdtSelKdata = some (flatSegment gdtAccessKdata) := by
  rw [gdtInit_segment g (i := 2) (by decide) (by decide) rfl]
  rfl

theorem gdtInit_tss (g : GdtState) :
    (gdtInit g).table.segment 0x2B = some ⟨g.tssAddr, 107, 0xE9, 0⟩ := by
  have hlimit : (107 : BitVec 32).setWidth 20 = 107 := by decide
  have hflags : (0 : BitVec 8).extractLsb' 4 4 = 0 := by decide
  rw [gdtInit_segment g (i := 5) (by decide) (by decide) rfl]
  simp only [hlimit, hflags]

theorem gdtInit_loads (g : GdtState) : gdtFlush (gdtInit g).table =
      some (flatSegment gdtAccessKdata, flatSegment gdtAccessKdata, flatSegment gdtAccessKcode) ∧
    tssFlush (gdtInit g).table = some ⟨g.tssAddr, 107, 0xE9, 0⟩ := by
  have hcode := gdtInit_kcode g
  have hdata := gdtInit_kdata g
  simp only [gdtOffsetKernelCode, gdtSelKdata] at hcode hdata
  constructor
  · simp only [gdtFlush, DescriptorTable.loadData, DescriptorTable.loadStack,
      DescriptorTable.loadCode, hcode, hdata]
    rfl
  · have haccess : (0xE9 : BitVec 8).getLsbD 7 && decide ((0xE9 : BitVec 8).extractLsb' 0 5 = 9) := by
      decide
    rw [tssFlush, DescriptorTable.loadTask, gdtInit_tss]
    exact Option.filter_some_pos haccess

/-- **An interrupt gets to its stub**, from every privilege: as a flat address in
the code of the kernel, on the stack of `tss_entry` when it comes from a task of
less privilege. -/
theorem interrupt_delivered (g : GdtState) (addr : Stub → BitVec 32) (esp0 : BitVec 32)
    (cpl : BitVec 2) (soft : Bool) (v : BitVec 8) :
    if v.toNat < 48 ∨ v = 128 ∨ v = 177 then
      ∃ stub, (v, stub) ∈ idtInitStubs ∧ stub.code = v.setWidth 32 ∧
        deliver (gdtInit g).table (idtInit addr) { (gdtInit g).tss with esp0 := esp0 } cpl soft v =
          some ⟨gdtOffsetKernelCode, addr stub,
            if cpl = 0 then none else some (gdtSelKdata, esp0)⟩
    else
      deliver (gdtInit g).table (idtInit addr) { (gdtInit g).tss with esp0 := esp0 } cpl soft v =
        none := by
  have hdispatch := idt_dispatch addr v
  split
  next hv =>
    rw [if_pos hv] at hdispatch
    obtain ⟨stub, hmem, hcode, hgate⟩ := hdispatch
    refine ⟨stub, hmem, hcode, ?_⟩
    have hcpl := cpl.isLt
    have hdpl : ¬ (soft ∧ (3 : BitVec 2) < cpl) := by
      rintro ⟨-, h⟩
      have h3 : (3 : BitVec 2).toNat = 3 := rfl
      rw [BitVec.lt_def] at h
      omega
    have hkcode : (gdtInit g).table.gateCode cpl gdtOffsetKernelCode
        = some (flatSegment gdtAccessKcode) := by
      have hle : (flatSegment gdtAccessKcode).dpl ≤ cpl := by
        rw [BitVec.le_def]
        exact Nat.zero_le _
      rw [DescriptorTable.gateCode, gdtInit_kcode]
      exact Option.filter_some_pos (by rw [decide_eq_true hle]; decide)
    have hstack : (gdtInit g).table.loadStack 0 ((gdtInit g).tss.ss0.setWidth 16)
        = some (flatSegment gdtAccessKdata) := by
      rw [show (gdtInit g).tss.ss0.setWidth 16 = gdtSelKdata from rfl, DescriptorTable.loadStack,
        gdtInit_kdata]
      rfl
    have heip := (flatSegment_flat gdtAccessKcode).linear (addr stub)
    have hring : (flatSegment gdtAccessKcode).dpl = 0 := by decide
    simp only [deliver, hgate, hkcode, heip, hring, Option.bind_eq_bind, Option.bind_some,
      if_neg hdpl, hstack]
    by_cases h0 : cpl = 0
    · rw [if_pos h0, if_pos h0.symm]
      rfl
    · rw [if_neg h0, if_neg (Ne.symm h0)]
      rfl
  next hv =>
    rw [if_neg hv] at hdispatch
    rw [deliver, hdispatch]
    rfl

end ChoOS
