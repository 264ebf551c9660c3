import ChoOS.Lib.Stack

/-!
# Interrupt entry and exit

The code of `interrupts.S`, one transfer after the other.  `I386` holds the
registers that the stubs name and the memory.  All of the kernel runs in ring 0
with flat segments, so an interrupt pushes `eflags`, `cs` and `eip` on the stack
that is in use and an address is the same through every segment register.  `eip`
is only followed where an interrupt saves it and `iret` loads it, and the
arithmetic flags of `addl` are left out: `iret` overwrites them.

`isrEntry` and `irqEntry` run from the interrupt to the first instruction of the
C handler, `isrExit` and `irqExit` from its return to the `iret`.  `frame` are
the words that `struct Registers` is laid over, `stacked_enter` says that the
handler finds them, and `restore_of_stacked` that the exit takes them back.

The two common stubs differ in one operand.  `_isr_common_stub` drops `int_no`
and `err_code` with `add 8, %esp`, which adds the word at address 8.
-/

namespace ChoOS

structure I386 where
  eax : BitVec 32
  ecx : BitVec 32
  edx : BitVec 32
  ebx : BitVec 32
  esp : BitVec 32
  ebp : BitVec 32
  esi : BitVec 32
  edi : BitVec 32
  ds : BitVec 16
  es : BitVec 16
  fs : BitVec 16
  gs : BitVec 16
  cs : BitVec 16
  cr2 : BitVec 32
  eip : BitVec 32
  eflags : BitVec 32
  mem : ByteMem

/-- `struct Registers` -/
structure Registers where
  cr2 : BitVec 32
  ds : BitVec 32
  edi : BitVec 32
  esi : BitVec 32
  ebp : BitVec 32
  esp : BitVec 32
  ebx : BitVec 32
  edx : BitVec 32
  ecx : BitVec 32
  eax : BitVec 32
  intNo : BitVec 32
  errCode : BitVec 32
  eip : BitVec 32
  cs : BitVec 32
  eflags : BitVec 32
  useresp : BitVec 32
  ss : BitVec 32

/-- The structure that a pointer leads to. -/
def Registers.read (m : ByteMem) (p : BitVec 32) : Registers where
  cr2 := wordAt m p
  ds := wordAt m (p + 4)
  edi := wordAt m (p + 8)
  esi := wordAt m (p + 12)
  ebp := wordAt m (p + 16)
  esp := wordAt m (p + 20)
  ebx := wordAt m (p + 24)
  edx := wordAt m (p + 28)
  ecx := wordAt m (p + 32)
  eax := wordAt m (p + 36)
  intNo := wordAt m (p + 40)
  errCode := wordAt m (p + 44)
  eip := wordAt m (p + 48)
  cs := wordAt m (p + 52)
  eflags := wordAt m (p + 56)
  useresp := wordAt m (p + 60)
  ss := wordAt m (p + 64)

namespace I386

/-! ### Instructions -/

def pushl (c : I386) (v : BitVec 32) : I386 :=
  { c with esp := c.esp - 4, mem := setWord c.mem (c.esp - 4) v }

/-- `popl`, with the word that is taken. -/
def popl (c : I386) : BitVec 32 × I386 := (wordAt c.mem c.esp, { c with esp := c.esp + 4 })

/-- The word for `esp` is the one from before the first push. -/
def pushal (c : I386) : I386 :=
  let esp := c.esp
  let c := c.pushl c.eax
  let c := c.pushl c.ecx
  let c := c.pushl c.edx
  let c := c.pushl c.ebx
  let c := c.pushl esp
  let c := c.pushl c.ebp
  let c := c.pushl c.esi
  c.pushl c.edi

/-- The word for `esp` is dropped. -/
def popal (c : I386) : I386 :=
  let (v, c) := c.popl
  let c := { c with edi := v }
  let (v, c) := c.popl
  let c := { c with esi := v }
  let (v, c) := c.popl
  let c := { c with ebp := v }
  let (_, c) := c.popl
  let (v, c) := c.popl
  let c := { c with ebx := v }
  let (v, c) := c.popl
  let c := { c with edx := v }
  let (v, c) := c.popl
  let c := { c with ecx := v }
  let (v, c) := c.popl
  { c with eax := v }

def cli (c : I386) : I386 := { c with eflags := c.eflags &&& ~~~0x200#32 }

def sti (c : I386) : I386 := { c with eflags := c.eflags ||| 0x200#32 }

def iret (c : I386) : I386 :=
  let (v, c) := c.popl
  let c := { c with eip := v }
  let (v, c) := c.popl
  let c := { c with cs := v.setWidth 16 }
  let (v, c) := c.popl
  { c with eflags := v }

/-- The four moves of a half word to the segment registers. -/
def loadSegments (c : I386) (v : BitVec 16) : I386 :=
  { c with ds := v, es := v, fs := v, gs := v }

/-- What the processor does on an interrupt through an interrupt gate: `TF`,
`IF`, `NT`, `RF` and `VM` are cleared, and some exceptions push an error code. -/
def interrupt (c : I386) (err : Option (BitVec 32)) : I386 :=
  let eflags := c.eflags
  let c := c.pushl eflags
  let c := c.pushl (c.cs.setWidth 32)
  let c := c.pushl c.eip
  let c := { c with eflags := eflags &&& ~~~0x34300#32 }
  match err with
  | none => c
  | some e => c.pushl e

/-! ### `interrupts.S` -/

/-- From `pushal` to the `call`; `ret` is the address behind it. -/
def saveAndCall (ret : BitVec 32) (c : I386) : I386 :=
  let c := c.pushal
  let c := { c with eax := c.ds.setWidth 32 }
  let c := c.pushl c.eax
  let c := { c with eax := c.cr2 }
  let c := c.pushl c.eax
  -- `movw $0x10, %ax`
  let c := { c with eax := (c.eax &&& 0xffff0000#32) ||| 0x10#32 }
  let c := c.loadSegments (c.eax.setWidth 16)
  let c := c.pushl c.esp
  c.pushl ret

/-- From behind the `call` to `popal`. -/
def restore (c : I386) : I386 :=
  let c := { c with esp := c.esp + 8 }
  let (v, c) := c.popl
  let c := { c with ebx := v }
  let c := c.loadSegments (c.ebx.setWidth 16)
  c.popal

/-- `_irq_common_stub` behind the `call`. -/
def irqExit (c : I386) : I386 :=
  let c := c.restore
  let c := { c with esp := c.esp + 8 }
  c.sti.iret

/-- `_isr_common_stub` behind the `call`. -/
def isrExit (c : I386) : I386 :=
  let c := c.restore
  -- `add 8, %esp`: the operand is not an immediate
  let c := { c with esp := c.esp + wordAt c.mem 8 }
  c.sti.iret

/-- The macro `IRQ`, with its code. -/
def irqStub (c : I386) (code : BitVec 32) : I386 := (c.cli.pushl 0).pushl code

/-- The macro `ISR_NOERRCODE` -/
def isrNoErrCode (c : I386) (num : BitVec 32) : I386 := (c.cli.pushl 0).pushl num

/-- The macro `ISR_ERRCODE` -/
def isrErrCode (c : I386) (num : BitVec 32) : I386 := c.cli.pushl num

end I386

/-- The codes of `irq0` to `irq15`. -/
def irqCodes : List (BitVec 32) := [32, 33, 34, 35, 36, 37, 38, 39, 40, 41, 42, 43, 44, 45, 46, 47]

def irqCode (line : Fin 16) : BitVec 32 := irqCodes.get line

/-- The numbers of the `isr` stubs, and whether the macro is `ISR_ERRCODE`. -/
def isrs : List (BitVec 32 × Bool) :=
  [(0, false), (1, false), (2, false), (3, false), (4, false), (5, false), (6, false), (7, false),
    (8, true), (9, false), (10, true), (11, true), (12, true), (13, true), (14, true),
    (15, false), (16, false), (17, false), (18, false), (19, false), (20, false), (21, false),
    (22, false), (23, false), (24, false), (25, false), (26, false), (27, false), (28, false),
    (29, false), (30, false), (31, false), (128, false), (177, false)]

namespace I386

/-- From the interrupt on `line` to the entry of `irq_handler`. -/
def irqEntry (ret : BitVec 32) (line : Fin 16) (c : I386) : I386 :=
  ((c.interrupt none).irqStub (irqCode line)).saveAndCall ret

/-- From an interrupt or an exception to the entry of `isr_handler`. -/
def isrEntry (ret : BitVec 32) (isr : BitVec 32 × Bool) (err : Option (BitVec 32)) (c : I386) :
    I386 :=
  let c := c.interrupt err
  let c := if isr.2 then c.isrErrCode isr.1 else c.isrNoErrCode isr.1
  c.saveAndCall ret

/-- An interrupt without an error code, up to the entry of the handler. -/
def enter (ret num : BitVec 32) (c : I386) : I386 :=
  ((c.interrupt none).isrNoErrCode num).saveAndCall ret

/-- The macros `IRQ` and `ISR_NOERRCODE` do the same. -/
theorem irqEntry_eq (ret : BitVec 32) (line : Fin 16) (c : I386) :
    c.irqEntry ret line = c.enter ret (irqCode line) := rfl

/-- The argument, at the entry of a function. -/
def argument (c : I386) : BitVec 32 := wordAt c.mem (c.esp + 4)

end I386

/-! ### `idt.c` -/

def exceptionMessages : List String :=
  ["division by zero", "debug", "non maskable interrupt", "breakpoint",
    "into detected overflow", "out of bounds", "invalid opcode", "no coprocessor",
    "double fault", "coprocessor segment overrun", "bad tss", "segment not present",
    "stack fault", "general protection fault", "page fault", "unknown interrupt",
    "coprocessor fault", "alignment fault", "machine check", "reserved", "reserved",
    "reserved", "reserved", "reserved", "reserved", "reserved", "reserved", "reserved",
    "reserved", "reserved", "reserved", "reserved"]

/-- `isr_handler`: the message that it aborts with, or a return. -/
def isrHandler (regs : Registers) : Except String Unit :=
  if regs.intNo.toNat < 32 then .error (exceptionMessages.getD regs.intNo.toNat "") else .ok ()

namespace I386

/-! ### The frame -/

/-- The words from the argument of the handler on, after an interrupt of `c`
without an error code. -/
def frame (num : BitVec 32) (c : I386) : List (BitVec 32) :=
  [c.cr2, c.ds.setWidth 32, c.edi, c.esi, c.ebp, c.esp - 20, c.ebx, c.edx, c.ecx, c.eax, num, 0,
    c.eip, c.cs.setWidth 32, c.eflags]

/-- Where the frame starts: the pointer that the handler gets. -/
def framePtr (c : I386) : BitVec 32 := c.esp - 60

variable {c r : I386} {ret num : BitVec 32} {line : Fin 16}

/-- The words that a common stub pushes, the last one first. -/
def pushed (ret : BitVec 32) (c : I386) : List (BitVec 32) :=
  [ret, c.esp - 40, c.cr2, c.ds.setWidth 32, c.edi, c.esi, c.ebp, c.esp, c.ebx, c.edx, c.ecx, c.eax]

theorem saveAndCall_mem (ret : BitVec 32) (c : I386) :
    (c.saveAndCall ret).mem = pushAll c.mem c.esp (c.pushed ret).reverse := by
  have hptr : c.esp - 40 = c.esp - 4 - 4 - 4 - 4 - 4 - 4 - 4 - 4 - 4 - 4 := by bv_omega
  rw [pushed, hptr]
  simp only [saveAndCall, pushal, pushl, loadSegments, List.reverse_cons, List.reverse_nil,
    List.nil_append, List.cons_append, pushAll]

theorem saveAndCall_esp (ret : BitVec 32) (c : I386) :
    (c.saveAndCall ret).esp = c.esp - 48 := by
  simp only [saveAndCall, pushal, pushl, loadSegments]
  bv_omega

theorem stacked_saveAndCall {ws : List (BitVec 32)} (h : Stacked c.mem c.esp ws)
    (hn : ws.length ≤ 5) (ret : BitVec 32) :
    Stacked (c.saveAndCall ret).mem (c.esp - 48) (c.pushed ret ++ ws) := by
  have hlen : (c.pushed ret).reverse.length = 12 := rfl
  have hpush := stacked_pushAll (c.pushed ret).reverse h (by omega)
  rw [List.reverse_reverse, hlen] at hpush
  rw [saveAndCall_mem]
  exact hpush

theorem saveAndCall_argument (ret : BitVec 32) (c : I386) :
    (c.saveAndCall ret).argument = c.esp - 40 := by
  have h : Stacked c.mem c.esp [] := trivial
  have hptr : wordAt (c.saveAndCall ret).mem (c.esp - 48 + 4) = c.esp - 40 :=
    (stacked_saveAndCall h (by decide) ret).2.1
  rw [argument, saveAndCall_esp, hptr]

theorem saveAndCall_intNo (h : wordAt c.mem c.esp = num) (ret : BitVec 32) :
    (Registers.read (c.saveAndCall ret).mem (c.saveAndCall ret).argument).intNo = num := by
  have htop : Stacked c.mem c.esp [num] := ⟨h, trivial⟩
  have hnum : wordAt (c.saveAndCall ret).mem (c.esp - 48 + BitVec.ofNat 32 48) = num :=
    (stacked_saveAndCall htop (by simp) ret).get (i := 12) rfl
  have haddr : c.esp - 40 + 40 = c.esp - 48 + BitVec.ofNat 32 48 := by bv_omega
  rw [saveAndCall_argument, Registers.read, haddr, hnum]

theorem isrNoErrCode_mem (c : I386) (num : BitVec 32) :
    ((c.interrupt none).isrNoErrCode num).mem
      = pushAll c.mem c.esp [c.eflags, c.cs.setWidth 32, c.eip, 0, num] := rfl

theorem isrNoErrCode_esp (c : I386) (num : BitVec 32) :
    ((c.interrupt none).isrNoErrCode num).esp = c.esp - 20 := by
  simp only [isrNoErrCode, interrupt, cli, pushl]
  bv_omega

theorem isrNoErrCode_pushed (ret : BitVec 32) (c : I386) (num : BitVec 32) :
    ((c.interrupt none).isrNoErrCode num).pushed ret
      = [ret, c.framePtr, c.cr2, c.ds.setWidth 32, c.edi, c.esi, c.ebp, c.esp - 20, c.ebx, c.edx,
        c.ecx, c.eax] := by
  have hptr : c.esp - 20 - 40 = c.framePtr := by
    unfold framePtr
    bv_omega
  rw [pushed, isrNoErrCode_esp, hptr]
  simp only [isrNoErrCode, interrupt, cli, pushl]

/-- **The frame on the stack**, at the entry of the handler. -/
theorem stacked_enter (ret num : BitVec 32) (c : I386) :
    Stacked (c.enter ret num).mem (c.framePtr - 8)
      (ret :: c.framePtr :: c.frame num) := by
  have h5 := @stacked_pushAll [c.eflags, c.cs.setWidth 32, c.eip, 0, num] c.mem c.esp [] trivial
    (by simp)
  have h : Stacked ((c.interrupt none).isrNoErrCode num).mem
      ((c.interrupt none).isrNoErrCode num).esp [num, 0, c.eip, c.cs.setWidth 32, c.eflags] := by
    rw [isrNoErrCode_mem, isrNoErrCode_esp]
    exact h5
  have hstack := stacked_saveAndCall h (by simp) ret
  have hp : c.esp - 20 - 48 = c.framePtr - 8 := by
    unfold framePtr
    bv_omega
  rw [isrNoErrCode_pushed, isrNoErrCode_esp, hp] at hstack
  exact hstack

theorem enter_argument (ret num : BitVec 32) (c : I386) :
    (c.enter ret num).argument = c.framePtr := by
  rw [enter, saveAndCall_argument, isrNoErrCode_esp]
  unfold framePtr
  bv_omega

theorem enter_esp (ret num : BitVec 32) (c : I386) :
    (c.enter ret num).esp = c.framePtr - 8 := by
  rw [enter, saveAndCall_esp, isrNoErrCode_esp]
  unfold framePtr
  bv_omega

/-- What the handler reads: every register of the interrupted code. -/
structure Saved (c : I386) (num : BitVec 32) (regs : Registers) : Prop where
  cr2 : regs.cr2 = c.cr2
  ds : regs.ds = c.ds.setWidth 32
  edi : regs.edi = c.edi
  esi : regs.esi = c.esi
  ebp : regs.ebp = c.ebp
  ebx : regs.ebx = c.ebx
  edx : regs.edx = c.edx
  ecx : regs.ecx = c.ecx
  eax : regs.eax = c.eax
  intNo : regs.intNo = num
  errCode : regs.errCode = 0
  eip : regs.eip = c.eip
  cs : regs.cs = c.cs.setWidth 32
  eflags : regs.eflags = c.eflags

/-- The interrupted code goes on with its registers. -/
structure Resumed (c c' : I386) : Prop where
  eax : c'.eax = c.eax
  ecx : c'.ecx = c.ecx
  edx : c'.edx = c.edx
  ebx : c'.ebx = c.ebx
  esp : c'.esp = c.esp
  ebp : c'.ebp = c.ebp
  esi : c'.esi = c.esi
  edi : c'.edi = c.edi
  ds : c'.ds = c.ds
  eip : c'.eip = c.eip
  cs : c'.cs = c.cs
  eflags : c'.eflags = c.eflags

theorem saved_of_stacked {m : ByteMem} (h : Stacked m c.framePtr (c.frame num)) :
    c.Saved num (Registers.read m c.framePtr) := by
  simp only [frame, Stacked, BitVec.add_assoc, BitVec.reduceAdd] at h
  obtain ⟨hcr2, hds, hedi, hesi, hebp, -, hebx, hedx, hecx, heax, hint, herr, heip, hcs, hfl, -⟩ := h
  exact ⟨hcr2, hds, hedi, hesi, hebp, hebx, hedx, hecx, heax, hint, herr, heip, hcs, hfl⟩

/-- **The exit takes the frame back**, up to `int_no` and `err_code`. -/
theorem restore_of_stacked (hesp : r.esp = c.framePtr - 4)
    (h : Stacked r.mem c.framePtr (c.frame num)) :
    r.restore = { r with
      eax := c.eax, ecx := c.ecx, edx := c.edx, ebx := c.ebx, esp := c.esp - 20, ebp := c.ebp,
      esi := c.esi, edi := c.edi, ds := c.ds, es := c.ds, fs := c.ds, gs := c.ds } := by
  simp only [frame, Stacked, BitVec.add_assoc, BitVec.reduceAdd] at h
  obtain ⟨hcr2, hds, hedi, hesi, hebp, -, hebx, hedx, hecx, heax, -⟩ := h
  have h8 : c.framePtr - 4 + 8 = c.framePtr + 4 := by bv_omega
  have hlast : c.framePtr + 40#32 = c.esp - 20#32 := by
    unfold framePtr
    bv_omega
  simp only [restore, popl, popal, loadSegments, hesp, h8, BitVec.add_assoc, BitVec.reduceAdd, hds,
    hedi, hesi, hebp, hebx, hedx, hecx, heax]
  simp [hlast]

/-- **`_irq_common_stub` goes back to the interrupted code.** -/
theorem irqExit_resumed (hesp : r.esp = c.framePtr - 4)
    (h : Stacked r.mem c.framePtr (c.frame num)) : c.Resumed r.irqExit := by
  have hrestore := restore_of_stacked hesp h
  have h48 : c.esp - 20 + 8 = c.framePtr + 48#32 := by
    unfold framePtr
    bv_omega
  have hend : c.framePtr + 60#32 = c.esp := by
    unfold framePtr
    bv_omega
  simp only [frame, Stacked, BitVec.add_assoc, BitVec.reduceAdd] at h
  obtain ⟨-, -, -, -, -, -, -, -, -, -, -, -, heip, hcs, hfl, -⟩ := h
  simp only [irqExit, hrestore, sti, iret, popl, h48, BitVec.add_assoc, BitVec.reduceAdd, heip,
    hcs, hfl, hend]
  constructor <;> simp

/-- `_isr_common_stub` does what `_irq_common_stub` does when the word at
address 8 is 8. -/
theorem isrExit_resumed_iff (hesp : r.esp = c.framePtr - 4)
    (h : Stacked r.mem c.framePtr (c.frame num)) : c.Resumed r.isrExit ↔ wordAt r.mem 8 = 8 := by
  have hrestore := restore_of_stacked hesp h
  constructor
  · intro hres
    have hesp := hres.esp
    simp only [isrExit, hrestore, sti, iret, popl] at hesp
    bv_omega
  · intro h8
    have heq : r.isrExit = r.irqExit := by
      simp only [isrExit, irqExit, hrestore, h8]
    rw [heq]
    exact irqExit_resumed hesp h

/-! ### Interrupts through `_isr_common_stub` -/

/-- A C function that was entered in `e` returns in `r`. -/
structure Cdecl (e r : I386) : Prop where
  esp : r.esp = e.esp + 4
  ebx : r.ebx = e.ebx
  esi : r.esi = e.esi
  edi : r.edi = e.edi
  ebp : r.ebp = e.ebp

/-- The `struct Registers` that a handler was called with, at its entry. -/
def registers (e : I386) : Registers := Registers.read e.mem e.argument

/-- A handler returns that does not write to the structure. -/
structure HandlerReturns (e r : I386) : Prop extends Cdecl e r where
  kept : Registers.read r.mem e.argument = e.registers

theorem isrEntry_intNo (ret : BitVec 32) (isr : BitVec 32 × Bool) (err : Option (BitVec 32))
    (c : I386) : (c.isrEntry ret isr err).registers.intNo = isr.1 := by
  rw [registers, isrEntry]
  apply saveAndCall_intNo
  split
  · exact wordAt_setWord_self _ _ _
  · exact wordAt_setWord_self _ _ _

/-- **`isr_handler` returns for two of the vectors.** -/
theorem isrHandler_returns_iff {isr : BitVec 32 × Bool} (hisr : isr ∈ isrs) (ret : BitVec 32)
    (err : Option (BitVec 32)) (c : I386) :
    isrHandler (c.isrEntry ret isr err).registers = .ok () ↔ isr.1 = 128 ∨ isr.1 = 177 := by
  have hnums : ∀ isr ∈ isrs, ¬ isr.1.toNat < 32 ↔ isr.1 = 128 ∨ isr.1 = 177 := by
    simp [isrs]
  rw [← hnums isr hisr, isrHandler, isrEntry_intNo]
  split
  · simp_all
  · simp_all

theorem HandlerReturns.stacked
    (hr : HandlerReturns (c.enter ret num) r) :
    Stacked r.mem c.framePtr (c.frame num) := by
  have h := (stacked_enter ret num c).2.2
  have hkept := hr.kept
  rw [registers, enter_argument] at hkept
  simp only [Registers.read, Registers.mk.injEq, BitVec.ofNat_eq_ofNat] at hkept
  have hp : c.framePtr - 8 + 4 + 4 = c.framePtr := by bv_omega
  rw [hp] at h
  simp only [frame, Stacked, BitVec.add_assoc, BitVec.reduceAdd, BitVec.ofNat_eq_ofNat,
    hkept] at h ⊢
  exact h

theorem isrEntry_eq {isr : BitVec 32 × Bool} (hisr : isr ∈ isrs)
    (h : isr.1 = 128 ∨ isr.1 = 177) (ret : BitVec 32) (c : I386) :
    c.isrEntry ret isr none = c.enter ret isr.1 := by
  have hmacro : ∀ isr ∈ isrs, isr.1 = 128 ∨ isr.1 = 177 → isr.2 = false := by
    simp [isrs]
  rw [isrEntry, hmacro isr hisr h]
  rfl

theorem HandlerReturns.esp_eq
    (hr : HandlerReturns (c.enter ret num) r) :
    r.esp = c.framePtr - 4 := by
  rw [hr.esp, enter_esp]
  bv_omega

/-- The entry leaves the words alone that its seventeen pushes do not reach. -/
theorem stacked_of_enter {p : BitVec 32} {ws : List (BitVec 32)}
    (h : Stacked c.mem p ws) (hp : Beyond c.esp 0 p (ws.length + 17)) (ret num : BitVec 32) :
    Stacked (c.enter ret num).mem p ws := by
  obtain ⟨-, hp⟩ := hp
  have h5 : Stacked ((c.interrupt none).isrNoErrCode num).mem p ws := by
    rw [isrNoErrCode_mem]
    refine h.pushes _ ⟨by omega, ?_⟩
    simp only [List.length_cons, List.length_nil]
    omega
  rw [enter, saveAndCall_mem]
  refine h5.pushes _ ⟨by omega, ?_⟩
  have hlen : ((((c.interrupt none).isrNoErrCode num).pushed ret).reverse).length = 12 := rfl
  rw [hlen, isrNoErrCode_esp]
  bv_omega

/-- **A return through `_isr_common_stub`.**  `isr_handler` returns for the
vectors 128 and 177, and then the interrupted code goes on with its registers
exactly when the word at address 8 is 8: at the return of the handler, and so at
the interrupt where nobody wrote to it in between. -/
theorem isr_transparent {isr : BitVec 32 × Bool} (hisr : isr ∈ isrs) (ret : BitVec 32) (c : I386) :
    (∀ err, isrHandler (c.isrEntry ret isr err).registers = .ok () ↔
      isr.1 = 128 ∨ isr.1 = 177) ∧
    (isrHandler (c.isrEntry ret isr none).registers = .ok () →
      ∀ r, HandlerReturns (c.isrEntry ret isr none) r →
        (c.Resumed r.isrExit ↔ wordAt r.mem 8 = 8) ∧
        (Beyond c.esp 0 8 18 → wordAt r.mem 8 = wordAt (c.isrEntry ret isr none).mem 8 →
          (c.Resumed r.isrExit ↔ wordAt c.mem 8 = 8))) := by
  refine ⟨fun err => isrHandler_returns_iff hisr ret err c, ?_⟩
  intro hok r hr
  rw [isrHandler_returns_iff hisr] at hok
  rw [isrEntry_eq hisr hok] at hr ⊢
  have hiff := isrExit_resumed_iff hr.esp_eq hr.stacked
  refine ⟨hiff, ?_⟩
  intro hlow hkept
  have hword : Stacked c.mem 8 [wordAt c.mem 8] := ⟨rfl, trivial⟩
  have hentry := (stacked_of_enter hword hlow ret isr.1).1
  rw [hiff, hkept, hentry]

/-- The kernel somewhere with its stack below `0x1000`. -/
def kernelAt (m : ByteMem) : I386 :=
  { eax := 1, ecx := 2, edx := 3, ebx := 4, esp := 0x1000, ebp := 5, esi := 6, edi := 7,
    ds := 0x10, es := 0x10, fs := 0x10, gs := 0x10, cs := 8, cr2 := 0, eip := 0x100000,
    eflags := 0x202, mem := m }

/-- The plain `ret` of a function that does nothing. -/
def returned (e : I386) : I386 := { e with esp := e.esp + 4 }

theorem handlerReturns_returned (e : I386) : HandlerReturns e e.returned :=
  ⟨⟨rfl, rfl, rfl, rfl, rfl⟩, rfl⟩

theorem isr_transparent_int128 :
    (kernelAt (setWord (fun _ => 0) 8 8)).Resumed
      ((kernelAt (setWord (fun _ => 0) 8 8)).isrEntry 0x100100 (128, false) none).returned.isrExit := by
  have h := @isr_transparent (128, false) (by decide) 0x100100
    (kernelAt (setWord (fun _ => 0) 8 8))
  have hok := (h.1 none).mpr (.inl rfl)
  have hr := (h.2 hok _ (handlerReturns_returned _)).2
  exact (hr (by decide) rfl).mpr (wordAt_setWord_self _ _ _)

/-- Where the word at address 8 is 0, `iret` takes `int_no` for `eip`. -/
theorem isrExit_eip_of_zero (hesp : r.esp = c.framePtr - 4)
    (h : Stacked r.mem c.framePtr (c.frame num)) (h8 : wordAt r.mem 8 = 0) :
    r.isrExit.eip = num := by
  have hrestore := restore_of_stacked hesp h
  have hnum : wordAt r.mem (c.framePtr + BitVec.ofNat 32 40) = num := h.get (i := 10) rfl
  have haddr : c.esp - 20 + 0 = c.framePtr + BitVec.ofNat 32 40 := by
    unfold framePtr
    bv_omega
  simp only [isrExit, hrestore, sti, iret, popl, h8]
  rw [haddr, hnum]

theorem returned_isrExit_of_zero (hlow : Beyond c.esp 0 8 18) (h0 : wordAt c.mem 8 = 0)
    (ret num : BitVec 32) :
    ¬ c.Resumed (c.enter ret num).returned.isrExit ∧
      (c.enter ret num).returned.isrExit.eip = num := by
  have hr := handlerReturns_returned (c.enter ret num)
  have hword : Stacked c.mem 8 [0] := ⟨h0, trivial⟩
  have h8 : wordAt (c.enter ret num).returned.mem 8 = 0 :=
    (stacked_of_enter hword hlow ret num).1
  refine ⟨?_, isrExit_eip_of_zero hr.esp_eq hr.stacked h8⟩
  rw [isrExit_resumed_iff hr.esp_eq hr.stacked, h8]
  decide

/-- `int $0x80` with an empty memory: `iret` takes the wrong words, the vector for `eip` and
the error code for `cs`. -/
theorem isr_not_transparent :
    let c := kernelAt fun _ => 0
    let e := c.isrEntry 0x100100 (128, false) none
    isrHandler e.registers = .ok () ∧ HandlerReturns e e.returned ∧
      ¬ c.Resumed e.returned.isrExit ∧ e.returned.isrExit.eip = 0x80 := by
  intro c e
  have hisr : ((128, false) : BitVec 32 × Bool) ∈ isrs := by decide
  have he : e = c.enter 0x100100 128 :=
    isrEntry_eq hisr (.inl rfl) _ c
  refine ⟨(isrHandler_returns_iff hisr _ none c).mpr (.inl rfl), handlerReturns_returned e, ?_⟩
  rw [he]
  exact returned_isrExit_of_zero (by decide) (by decide) _ _

end I386

end ChoOS
