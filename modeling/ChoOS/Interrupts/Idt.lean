import Mathlib.Data.List.Induction
import ChoOS.Lib.Descriptor
import ChoOS.Interrupts.Stubs

/-!
# The interrupt descriptor table

The code of `idt.c` that fills `idt_entries`.  The processor reads an entry as
eight bytes; `IdtEntry.bits` is the packed structure and `IdtRegister.gate` is
what the processor makes of it.

`gate_idtGateSets` is the table behind any calls of `idt_gate_set`: a vector
leads where its last call says, with its user access, if the flags of that call
make a present interrupt gate.  `idt_dispatch` is about the table of `idt_init`:
a vector leads to a stub that pushes the number of the vector, or nowhere.
-/

namespace ChoOS

/-- `IdtEntry` -/
structure IdtEntry where
  baseLow : BitVec 16
  sel : BitVec 16
  always0 : BitVec 8
  flags : BitVec 8
  baseHigh : BitVec 16

/-- The packed structure. -/
def IdtEntry.bits (e : IdtEntry) : BitVec 64 :=
  e.baseHigh ++ e.flags ++ e.always0 ++ e.sel ++ e.baseLow

/-- An entry after `memset`. -/
def IdtEntry.zero : IdtEntry := ⟨0, 0, 0, 0, 0⟩

/-- `idt_entries` -/
abbrev IdtEntries : Type := BitVec 8 → IdtEntry

/-- `GDT_OFFSET_KERNEL_CODE` -/
def gdtOffsetKernelCode : BitVec 16 := 0x08

/-- `IDT_FLAG_KERNEL_INTERRUPT_GATE` -/
def idtFlagKernelInterruptGate : BitVec 8 := 0x80 ||| 0x00 ||| 0x0E

/-- `IDT_FLAG_USER_ACCESS` -/
def idtFlagUserAccess : BitVec 8 := 0x60

def idtGateSet (num : BitVec 8) (base : BitVec 32) (sel : BitVec 16) (flags : BitVec 8)
    (t : IdtEntries) : IdtEntries :=
  Function.update t num
    { baseLow := (base &&& 0xFFFF).setWidth 16
      baseHigh := ((base >>> 16) &&& 0xFFFF).setWidth 16
      sel := sel
      always0 := 0
      flags := flags ||| idtFlagUserAccess }

/-- `idt_ptr`, and the table that it points to. -/
structure IdtRegister where
  limit : Nat
  entries : IdtEntries

/-- The processor looks a vector up. -/
def IdtRegister.gate (r : IdtRegister) (v : BitVec 8) : Option Gate :=
  if 8 * v.toNat + 7 ≤ r.limit then Gate.decode (r.entries v).bits else none

/-- The arguments of a call of `idt_gate_set`. -/
structure IdtGateCall where
  num : BitVec 8
  base : BitVec 32
  sel : BitVec 16
  flags : BitVec 8

/-- Calls of `idt_gate_set`, after the `memset` of `idt_init`. -/
def idtGateSets (calls : List IdtGateCall) : IdtRegister where
  limit := 8 * 256 - 1
  entries := calls.foldl (fun t c => idtGateSet c.num c.base c.sel c.flags t) fun _ => IdtEntry.zero

/-- The entry points of `interrupts.S`. -/
inductive Stub
  | isr (num : BitVec 8)
  | irq (line : Fin 16)
  deriving DecidableEq

/-- What a stub pushes for `int_no`. -/
def Stub.code : Stub → BitVec 32
  | isr num => num.setWidth 32
  | irq line => irqCode line

/-- The calls of `idt_gate_set` in `idt_init`. -/
def idtInitStubs : List (BitVec 8 × Stub) :=
  [(0, .isr 0), (1, .isr 1), (2, .isr 2), (3, .isr 3), (4, .isr 4), (5, .isr 5), (6, .isr 6),
    (7, .isr 7), (8, .isr 8), (9, .isr 9), (10, .isr 10), (11, .isr 11), (12, .isr 12),
    (13, .isr 13), (14, .isr 14), (15, .isr 15), (16, .isr 16), (17, .isr 17), (18, .isr 18),
    (19, .isr 19), (20, .isr 20), (21, .isr 21), (22, .isr 22), (23, .isr 23), (24, .isr 24),
    (25, .isr 25), (26, .isr 26), (27, .isr 27), (28, .isr 28), (29, .isr 29), (30, .isr 30),
    (31, .isr 31), (32, .irq 0), (33, .irq 1), (34, .irq 2), (35, .irq 3), (36, .irq 4),
    (37, .irq 5), (38, .irq 6), (39, .irq 7), (40, .irq 8), (41, .irq 9), (42, .irq 10),
    (43, .irq 11), (44, .irq 12), (45, .irq 13), (46, .irq 14), (47, .irq 15), (128, .isr 128),
    (177, .isr 177)]

/-- `idt_init`, with the addresses of the stubs in the linked kernel. -/
def idtInit (addr : Stub → BitVec 32) : IdtRegister :=
  idtGateSets <| idtInitStubs.map fun g =>
    ⟨g.1, addr g.2, gdtOffsetKernelCode, idtFlagKernelInterruptGate⟩

variable {t : IdtEntries} {calls : List IdtGateCall} {num v : BitVec 8} {base : BitVec 32}
  {sel : BitVec 16} {flags : BitVec 8}

/-! ### One entry -/

theorem IdtEntry.bits_offset (e : IdtEntry) :
    e.bits.extractLsb' 48 16 ++ e.bits.extractLsb' 0 16 = e.baseHigh ++ e.baseLow := by
  congr 1
  · ext i hi
    simp [bits]
    grind
  · ext i hi
    simp [bits]
    grind

theorem IdtEntry.bits_sel (e : IdtEntry) : e.bits.extractLsb' 16 16 = e.sel := by
  ext i hi
  simp [bits]
  grind

theorem IdtEntry.bits_flags (e : IdtEntry) {k w : Nat} (h : k + w ≤ 8) :
    e.bits.extractLsb' (40 + k) w = e.flags.extractLsb' k w := by
  ext i hi
  simp [bits]
  grind

theorem IdtEntry.decode_bits (e : IdtEntry) : Gate.decode e.bits =
    if e.flags.extractLsb' 0 5 = 0xE ∧ e.flags.extractLsb' 7 1 = 1 then
      some ⟨e.baseHigh ++ e.baseLow, e.sel, e.flags.extractLsb' 5 2⟩ else none := by
  have h0 := e.bits_flags (k := 0) (w := 5) (by omega)
  have h5 := e.bits_flags (k := 5) (w := 2) (by omega)
  have h7 := e.bits_flags (k := 7) (w := 1) (by omega)
  simp only [Nat.reduceAdd] at h0 h5 h7
  rw [Gate.decode, h0, h5, h7, e.bits_offset, e.bits_sel]

theorem userAccess_gate : ∀ flags : BitVec 8,
    ((flags ||| idtFlagUserAccess).extractLsb' 0 5 = 0xE ∧
      (flags ||| idtFlagUserAccess).extractLsb' 7 1 = 1) ↔ flags &&& 0x9F = 0x8E := by
  decide

theorem userAccess_dpl (flags : BitVec 8) : (flags ||| idtFlagUserAccess).extractLsb' 5 2 = 3 := by
  revert flags
  decide

theorem base_halves (base : BitVec 32) :
    ((base >>> 16) &&& 0xFFFF).setWidth 16 ++ (base &&& 0xFFFF).setWidth 16 = base := by
  rw [setWidth_and_mask (by decide), setWidth_and_mask (by decide), extractLsb'_eq_setWidth,
    ← BitVec.ushiftRight_zero base, extractLsb'_eq_setWidth, BitVec.ushiftRight_zero]
  exact BitVec.extractLsb'_append_extractLsb'

theorem decode_idtGateSet (base : BitVec 32) (sel : BitVec 16) (flags : BitVec 8)
    (t : IdtEntries) (num : BitVec 8) : Gate.decode (idtGateSet num base sel flags t num).bits =
      if flags &&& 0x9F = 0x8E then some ⟨base, sel, 3⟩ else none := by
  rw [IdtEntry.decode_bits, idtGateSet, Function.update_self]
  simp only [userAccess_gate, userAccess_dpl, base_halves]

/-! ### The table -/

/-- The last call for a vector. -/
def lastGateCall (calls : List IdtGateCall) (v : BitVec 8) : Option IdtGateCall :=
  calls.reverse.find? fun c => c.num = v

theorem idtEntries_eq (calls : List IdtGateCall) (v : BitVec 8) :
    Gate.decode ((idtGateSets calls).entries v).bits = (lastGateCall calls v).bind fun c =>
      if c.flags &&& 0x9F = 0x8E then some ⟨c.base, c.sel, 3⟩ else none := by
  induction calls using List.reverseRecOn with
  | nil =>
    have hzero : Gate.decode IdtEntry.zero.bits = none := by decide
    simpa [idtGateSets, lastGateCall] using hzero
  | append_singleton calls c ih =>
    have hstep : (idtGateSets (calls ++ [c])).entries
        = idtGateSet c.num c.base c.sel c.flags (idtGateSets calls).entries := by
      simp [idtGateSets]
    rw [hstep, lastGateCall, List.reverse_append, List.reverse_singleton, List.singleton_append,
      List.find?_cons]
    by_cases hv : c.num = v
    · subst hv
      simp only [decide_true, Option.bind_some]
      exact decode_idtGateSet _ _ _ _ _
    · rw [idtGateSet, Function.update_of_ne (Ne.symm hv)]
      simpa [hv, lastGateCall] using ih

theorem gate_eq_decode (calls : List IdtGateCall) (v : BitVec 8) :
    (idtGateSets calls).gate v = Gate.decode ((idtGateSets calls).entries v).bits := by
  have hv := v.isLt
  have hlimit : 8 * v.toNat + 7 ≤ (idtGateSets calls).limit := by
    simp only [idtGateSets]
    omega
  rw [IdtRegister.gate, if_pos hlimit]

/-- **Any calls of `idt_gate_set`.**  The processor finds the address and the
selector of the last call for a vector, open to the user, when the flags of that
call make an interrupt gate, and nothing for a vector without a call. -/
theorem gate_idtGateSets (calls : List IdtGateCall) (v : BitVec 8) :
    (idtGateSets calls).gate v = (lastGateCall calls v).bind fun c =>
      if c.flags &&& 0x9F = 0x8E then some ⟨c.base, c.sel, 3⟩ else none := by
  rw [gate_eq_decode, idtEntries_eq]

/-! ### The stubs -/

theorem idtInitStubs_code : ∀ g ∈ idtInitStubs, g.2.code = g.1.setWidth 32 := by
  decide

theorem idtInitStubs_vectors (v : BitVec 8) :
    v ∈ idtInitStubs.map (·.1) ↔ v.toNat < 48 ∨ v = 128 ∨ v = 177 := by
  have hlist : idtInitStubs.map (·.1) = (List.range 48 ++ [128, 177]).map (BitVec.ofNat 8) := by
    decide
  rw [hlist]
  simp only [List.mem_map, List.mem_append, List.mem_range, List.mem_pair]
  constructor
  · rintro ⟨n, hn | rfl | rfl, rfl⟩
    · left
      simp only [BitVec.toNat_ofNat]
      omega
    · exact .inr (.inl rfl)
    · exact .inr (.inr rfl)
  · rintro (hv | rfl | rfl)
    · exact ⟨v.toNat, .inl hv, by simp⟩
    · exact ⟨128, .inr (.inl rfl), rfl⟩
    · exact ⟨177, .inr (.inr rfl), rfl⟩

/-- **Where a vector leads.** -/
theorem idt_dispatch (addr : Stub → BitVec 32) (v : BitVec 8) :
    if v.toNat < 48 ∨ v = 128 ∨ v = 177 then
      ∃ stub, (v, stub) ∈ idtInitStubs ∧ stub.code = v.setWidth 32 ∧
        (idtInit addr).gate v = some ⟨addr stub, gdtOffsetKernelCode, 3⟩
    else (idtInit addr).gate v = none := by
  rw [idtInit, gate_eq_decode, idtEntries_eq]
  have hmem := idtInitStubs_vectors v
  have hcode := idtInitStubs_code
  have hgate : idtFlagKernelInterruptGate &&& 0x9F = 0x8E := by decide
  generalize idtInitStubs = gates at hmem hcode ⊢
  rw [lastGateCall, ← List.map_reverse, List.find?_map]
  cases hfind : gates.reverse.find? ((fun c : IdtGateCall => decide (c.num = v)) ∘ fun g =>
    ⟨g.1, addr g.2, gdtOffsetKernelCode, idtFlagKernelInterruptGate⟩) with
  | none =>
    have hno : v ∉ gates.map (·.1) := by
      intro hv
      obtain ⟨g, hg, rfl⟩ := List.mem_map.mp hv
      have := List.find?_eq_none.mp hfind g (List.mem_reverse.mpr hg)
      simp at this
    rw [if_neg (by rwa [hmem] at hno)]
    rfl
  | some g =>
    have hg := List.mem_reverse.mp (List.mem_of_find?_eq_some hfind)
    have hv : g.1 = v := by simpa using List.find?_some hfind
    subst hv
    rw [if_pos (hmem.mp (List.mem_map_of_mem hg))]
    exact ⟨g.2, hg, hcode g hg, by rw [Option.map_some, Option.bind_some, if_pos hgate]⟩

end ChoOS
