import Mathlib.Data.Fintype.Card
import ChoOS.Lib.Pic
import ChoOS.Lib.Trace
import ChoOS.Interrupts.Idt

/-!
# Interrupt requests

The code of `idt.c` behind a hardware interrupt, from the request of a device to
the end of its service: the controllers as `idt_init` leaves them, the gate of
the vector, the stub behind the gate, and `irq_handler` with the handlers that
`irq_install_handler` put into `irq_routines`.

A device may raise its line at any time.  When the processor acknowledges, the
vector leads through the table to a stub and into `irq_handler`, which calls the
handler of the line and then writes an end of interrupt to every controller that
serves it (`accept`, `call`, `outb`).  `live` are the interrupts that are not
over, the innermost first; an interrupt may come at any point of another one.
Handlers are installed and removed at any time.

`irq_service` says that the ends of interrupt are never given to another
interrupt than their own, `irq_dispatched` that the handler that is called is the
one that was installed last, and `irq_pending` that no request is lost.
-/

namespace ChoOS

/-- `PIC1` -/
def pic1 : BitVec 16 := 0x20

/-- `PIC2` -/
def pic2 : BitVec 16 := 0xA0

/-- `PIC1_DATA` -/
def pic1Data : BitVec 16 := pic1 + 1

/-- `PIC2_DATA` -/
def pic2Data : BitVec 16 := pic2 + 1

/-- `PIC_EOI` -/
def picEoi : BitVec 8 := 0x20

/-- `ICW1_DEFAULT` -/
def icw1Default : BitVec 8 := 0x10 ||| 0x01

/-- `PIC1_VECTOR_OFFSET` -/
def pic1VectorOffset : BitVec 8 := 0x20

/-- `PIC2_VECTOR_OFFSET` -/
def pic2VectorOffset : BitVec 8 := 0x28

/-- `ICW3_SLAVE_ON_IRQ2` -/
def icw3SlaveOnIrq2 : BitVec 8 := 0x04

/-- `ICW3_IS_SLAVE` -/
def icw3IsSlave : BitVec 8 := 0x02

/-- `ICW4_8086_MODE` -/
def icw48086Mode : BitVec 8 := 0x01

/-- `PIC_IMR_UNMASK_ALL` -/
def picImrUnmaskAll : BitVec 8 := 0x00

/-- The writes of `idt_init` to the controllers. -/
def picWrites : List (BitVec 16 × BitVec 8) :=
  [(pic1, icw1Default), (pic2, icw1Default), (pic1Data, pic1VectorOffset),
    (pic2Data, pic2VectorOffset), (pic1Data, icw3SlaveOnIrq2), (pic2Data, icw3IsSlave),
    (pic1Data, icw48086Mode), (pic2Data, icw48086Mode), (pic1Data, picImrUnmaskAll),
    (pic2Data, picImrUnmaskAll)]

def picInit (p : Pics) : Pics := picWrites.foldl (fun p w => p.write w.1 w.2) p

/-- What `irq_handler` does, one call after the other. -/
inductive IrqEffect (η : Type)
  | call (handler : η)
  | outb (port : BitVec 16) (value : BitVec 8)

variable {η : Type}

/-- `irq_handler`.  It has a result when `int_no` is in the table. -/
def irqHandler (irqRoutines : Fin 16 → Option η) (regs : Registers) :
    Option (List (IrqEffect η)) :=
  let index := (regs.intNo - 32).toNat
  if h : index < 16 then
    some ((match irqRoutines ⟨index, h⟩ with
        | some handler => [.call handler]
        | none => []) ++
      (if 40 ≤ regs.intNo.toNat then [.outb pic2 picEoi] else []) ++ [.outb pic1 picEoi])
  else none

def irqInstallHandler (irq : Int) (handler : Option η) (irqRoutines : Fin 16 → Option η) :
    Option (Fin 16 → Option η) :=
  if h : 0 ≤ irq ∧ irq < 16 then
    some (Function.update irqRoutines ⟨irq.toNat, by omega⟩ handler)
  else none

def irqUninstallHandler (irq : Int) (irqRoutines : Fin 16 → Option η) :
    Option (Fin 16 → Option η) :=
  irqInstallHandler irq none irqRoutines

/-- The linked kernel: where the stubs are. -/
structure KernelImage where
  addr : Stub → BitVec 32
  code : BitVec 32 → Option Stub
  placed : ∀ stub, code (addr stub) = some stub

/-- An interrupt that is not over, with what is left of its `irq_handler`. -/
structure Request (η : Type) where
  line : Fin 16
  todo : List (IrqEffect η)

structure IrqState (η : Type) where
  pics : Pics
  irqRoutines : Fin 16 → Option η
  live : List (Request η)

inductive IrqEvent (η : Type)
  | raise (line : Fin 16)
  | accept (line : Fin 16)
  | call (line : Fin 16) (handler : η)
  | outb (line : Fin 16) (port : BitVec 16) (value : BitVec 8)
  | iret (line : Fin 16)
  | install (irq : Int) (handler : Option η)
  | uninstall (irq : Int)

inductive IrqStep (k : KernelImage) (ret : BitVec 32) : IrqState η → IrqEvent η → IrqState η → Prop
  | raise {s : IrqState η} {line : Fin 16} : line ≠ 2 →
      IrqStep k ret s (.raise line) { s with pics := s.pics.raise line }
  | accept {s : IrqState η} {v : BitVec 8} {pics : Pics} {g : Gate} {line : Fin 16}
      {todo : List (IrqEffect η)} {c : I386} : s.pics.acknowledge = some (v, pics) →
      (idtInit k.addr).gate v = some g → k.code g.offset = some (.irq line) →
      irqHandler s.irqRoutines (c.irqEntry ret line).registers = some todo →
      IrqStep k ret s (.accept line) { s with pics := pics, live := ⟨line, todo⟩ :: s.live }
  | call {s : IrqState η} {line : Fin 16} {handler : η} {todo : List (IrqEffect η)}
      {l : List (Request η)} : s.live = ⟨line, .call handler :: todo⟩ :: l →
      IrqStep k ret s (.call line handler) { s with live := ⟨line, todo⟩ :: l }
  | outb {s : IrqState η} {line : Fin 16} {port : BitVec 16} {value : BitVec 8}
      {todo : List (IrqEffect η)} {l : List (Request η)} :
      s.live = ⟨line, .outb port value :: todo⟩ :: l →
      IrqStep k ret s (.outb line port value)
        { s with pics := s.pics.write port value, live := ⟨line, todo⟩ :: l }
  | iret {s : IrqState η} {line : Fin 16} {l : List (Request η)} : s.live = ⟨line, []⟩ :: l →
      IrqStep k ret s (.iret line) { s with live := l }
  | install {s : IrqState η} {irq : Int} {handler : Option η} {t : Fin 16 → Option η} :
      irqInstallHandler irq handler s.irqRoutines = some t →
      IrqStep k ret s (.install irq handler) { s with irqRoutines := t }
  | uninstall {s : IrqState η} {irq : Int} {t : Fin 16 → Option η} :
      irqUninstallHandler irq s.irqRoutines = some t →
      IrqStep k ret s (.uninstall irq) { s with irqRoutines := t }

/-- Behind `idt_init`, whatever the controllers were before. -/
def IrqState.boot (p : Pics) : IrqState η := ⟨picInit p, fun _ => none, []⟩

open Pics (masterInput slaveInput)

variable {k : KernelImage} {ret : BitVec 32} {s s' : IrqState η} {es : List (IrqEvent η)}
  {line l : Fin 16} {a : Request η} {todo : List (IrqEffect η)} {handler : Option η}
  {port : BitVec 16} {value : BitVec 8} {pics : Pics} {c : I386}

/-! ### `idt_init` -/

theorem picInit_ready (p : Pics) : (picInit p).Ready 0x20 := by
  constructor <;> rfl

theorem picInit_clear (p : Pics) (i : Fin 8) :
    (picInit p).master.isr i = false ∧ (picInit p).slave.isr i = false ∧
      (picInit p).master.irr i = false ∧ (picInit p).slave.irr i = false :=
  ⟨rfl, rfl, rfl, rfl⟩

theorem picInit_unmasked (p : Pics) (i : Fin 8) :
    (picInit p).master.imr i = false ∧ (picInit p).slave.imr i = false := by
  have hmask : (0#8).getLsbD i = false := by simp
  exact ⟨hmask, hmask⟩

/-! ### `irq_handler` -/

theorem irqEntry_saved (ret : BitVec 32) (line : Fin 16) (c : I386) :
    c.Saved (irqCode line) (c.irqEntry ret line).registers := by
  have hframe := (I386.stacked_enter ret (irqCode line) c).2.2
  have hp : c.framePtr - 8 + 4 + 4 = c.framePtr := by bv_omega
  rw [hp] at hframe
  rw [I386.registers, I386.irqEntry_eq, I386.enter_argument]
  exact I386.saved_of_stacked hframe

/-- What `irq_handler` does for a line with a handler. -/
def irqProgram (handler : Option η) (line : Fin 16) : List (IrqEffect η) :=
  (match handler with
    | some handler => [.call handler]
    | none => []) ++
  (if (slaveInput line).isSome then [.outb pic2 picEoi] else []) ++ [.outb pic1 picEoi]

theorem irqCode_index : ∀ line : Fin 16, (irqCode line - 32).toNat = line ∧
    (40 ≤ (irqCode line).toNat ↔ (slaveInput line).isSome) := by
  decide

theorem irqHandler_eq {t : Fin 16 → Option η} {regs : Registers} (h : regs.intNo = irqCode line) :
    irqHandler t regs = some (irqProgram (t line) line) := by
  obtain ⟨hindex, hslave⟩ := irqCode_index line
  have hlt : (irqCode line - 32).toNat < 16 := by
    rw [hindex]
    exact line.isLt
  have hline : (⟨(irqCode line - 32).toNat, hlt⟩ : Fin 16) = line := Fin.ext hindex
  simp only [irqHandler, h, dif_pos hlt, hline, hslave, irqProgram]

/-- A write of `irq_handler` is an end of interrupt, the one to `PIC1` the last. -/
theorem outb_of_suffix (h : .outb port value :: todo <:+ irqProgram handler line) :
    value = picEoi ∧ (port = pic1 ∧ todo = [] ∨
      port = pic2 ∧ todo = [.outb pic1 picEoi] ∧ (slaveInput line).isSome) := by
  unfold irqProgram at h
  cases handler <;> cases hs : slaveInput line <;>
    simp [hs, List.suffix_cons_iff] at h <;> grind

/-! ### The invariant -/

def IrqEffect.isEoi (port : BitVec 16) : IrqEffect η → Bool
  | .call _ => false
  | .outb p v => p = port && v = picEoi

/-- The end of interrupt at a port is still to come. -/
def Request.owes (port : BitVec 16) (a : Request η) : Bool := a.todo.any (·.isEoi port)

/-- The input of the master that a request keeps in service. -/
def Request.master (a : Request η) : Option (Fin 8) :=
  if a.owes pic1 then some (masterInput a.line) else none

def Request.slave (a : Request η) : Option (Fin 8) :=
  if a.owes pic2 then slaveInput a.line else none

/-- The handler that is in the table behind some events. -/
def installed (es : List (IrqEvent η)) (line : Fin 16) : Option η :=
  es.foldl (fun h e =>
    match e with
    | .install irq handler => if irq = line.val then handler else h
    | .uninstall irq => if irq = line.val then none else h
    | _ => h) none

/-- The line was raised since it was accepted the last time. -/
def raised (es : List (IrqEvent η)) (line : Fin 16) : Bool :=
  es.foldl (fun b e =>
    match e with
    | .raise l => b || decide (line = l)
    | .accept l => b && !decide (line = l)
    | _ => b) false

/-- **The controllers serve the requests that are live**, as a stack. -/
structure IrqState.Inv (es : List (IrqEvent η)) (s : IrqState η) : Prop where
  ready : s.pics.Ready 0x20
  unmasked : ∀ i, s.pics.master.imr i = false ∧ s.pics.slave.imr i = false
  master : s.pics.master.Serves (s.live.filterMap Request.master)
  slave : s.pics.slave.Serves (s.live.filterMap Request.slave)
  todo : ∀ a ∈ s.live, ∃ handler, a.todo <:+ irqProgram handler a.line
  routines : s.irqRoutines = installed es
  requested : ∀ line, line ≠ 2 → s.pics.requested line = raised es line

theorem irqState_boot (p : Pics) : IrqState.Inv (η := η) [] (.boot p) where
  ready := picInit_ready p
  unmasked := picInit_unmasked p
  master := Pic.serves_nil fun i => (picInit_clear p i).1
  slave := Pic.serves_nil fun i => (picInit_clear p i).2.1
  todo := by simp [IrqState.boot]
  routines := rfl
  requested line h2 := by
    unfold Pics.requested
    split
    · exact (picInit_clear p _).2.2.1
    · exact (picInit_clear p _).2.2.2

/-! ### The steps -/

theorem installed_concat (es : List (IrqEvent η)) (e : IrqEvent η) (line : Fin 16) :
    installed (es ++ [e]) line =
      match e with
      | .install irq handler => if irq = line.val then handler else installed es line
      | .uninstall irq => if irq = line.val then none else installed es line
      | _ => installed es line := by
  simp [installed, List.foldl_append]

theorem raised_concat (es : List (IrqEvent η)) (e : IrqEvent η) (line : Fin 16) :
    raised (es ++ [e]) line =
      match e with
      | .raise l => raised es line || decide (line = l)
      | .accept l => raised es line && !decide (line = l)
      | _ => raised es line := by
  simp [raised, List.foldl_append]

theorem irqProgram_owes (handler : Option η) (line : Fin 16) :
    Request.owes pic1 ⟨line, irqProgram handler line⟩ = true ∧
      Request.owes pic2 ⟨line, irqProgram handler line⟩ = (slaveInput line).isSome := by
  have hports : pic1 ≠ pic2 := by decide
  cases handler <;> cases hs : slaveInput line <;>
    simp [irqProgram, Request.owes, IrqEffect.isEoi, hs, hports]

theorem irq_vector : ∀ g ∈ idtInitStubs, ∀ line : Fin 16,
    g.1 = 0x20 ||| BitVec.ofNat 8 line → g.2 = .irq line := by
  decide

theorem irq_gate (k : KernelImage) (line : Fin 16) :
    (idtInit k.addr).gate (0x20 ||| BitVec.ofNat 8 line)
      = some ⟨k.addr (.irq line), gdtOffsetKernelCode, 3⟩ := by
  have hv : ∀ line : Fin 16, (0x20 ||| BitVec.ofNat 8 line : BitVec 8).toNat < 48 := by decide
  have hdispatch := idt_dispatch k.addr (0x20 ||| BitVec.ofNat 8 line)
  rw [if_pos (.inl (hv line))] at hdispatch
  obtain ⟨stub, hmem, -, hgate⟩ := hdispatch
  obtain rfl : stub = .irq line := irq_vector _ hmem line rfl
  exact hgate

/-- **What the processor accepts**: a line that may be served, and the handler
that is in the table. -/
theorem IrqStep.accepted (h : IrqStep k ret s (.accept line) s') (hr : s.pics.Ready 0x20) :
    line ≠ 2 ∧ s.pics.Servable line ∧ s' =
      { s with
        pics := s.pics.accept line
        live := ⟨line, irqProgram (s.irqRoutines line) line⟩ :: s.live } := by
  cases h with
  | @accept v pics g _ todo c hack hgate hcode htodo =>
    obtain ⟨l, h2, hserve, rfl, rfl⟩ := Pics.acknowledge_spec hr hack
    -- the gate of the vector leads to the stub of the line
    rw [irq_gate k l] at hgate
    obtain rfl := Option.some.inj hgate
    rw [k.placed] at hcode
    obtain rfl := Stub.irq.inj (Option.some.inj hcode)
    rw [irqHandler_eq (irqEntry_saved ret l c).intNo] at htodo
    obtain rfl := Option.some.inj htodo
    exact ⟨h2, hserve, rfl⟩

theorem IrqState.Inv.accept (h : s.Inv es) (h2 : line ≠ 2) (hs : s.pics.Servable line)
    (handler : Option η) : IrqState.Inv (es ++ [.accept line])
      { s with
        pics := s.pics.accept line
        live := ⟨line, irqProgram handler line⟩ :: s.live } where
  ready := h.ready.accept line
  unmasked i := by
    obtain ⟨hm, hsl⟩ := Pics.imr_accept s.pics line
    simpa [hm, hsl] using h.unmasked i
  master := by
    have hhead : Request.master ⟨line, irqProgram handler line⟩ = some (masterInput line) := by
      rw [Request.master, if_pos (irqProgram_owes handler line).1]
    rw [List.filterMap_cons_some hhead]
    exact h.master.acknowledge h.ready.masterEoi hs.masterFree
  slave := by
    have howes := (irqProgram_owes handler line).2
    cases hsl : slaveInput line with
    | none =>
      have hhead : Request.slave ⟨line, irqProgram handler line⟩ = none := by
        simp [Request.slave, howes, hsl]
      rw [List.filterMap_cons_none hhead]
      simpa [Pics.accept, hsl] using h.slave
    | some j =>
      have hhead : Request.slave ⟨line, irqProgram handler line⟩ = some j := by
        simp [Request.slave, howes, hsl]
      rw [List.filterMap_cons_some hhead]
      simpa [Pics.accept, hsl] using h.slave.acknowledge h.ready.slaveEoi (hs.slaveFree j hsl)
  todo := by
    intro a ha
    rcases List.mem_cons.mp ha with rfl | ha
    · exact ⟨handler, List.suffix_refl _⟩
    · exact h.todo a ha
  routines := by
    rw [h.routines]
    funext l
    rw [installed_concat]
  requested l hl := by
    rw [Pics.requested_accept h2 hl, h.requested l hl, raised_concat]

theorem IrqState.Inv.raise (h : s.Inv es) (h2 : line ≠ 2) :
    IrqState.Inv (es ++ [.raise line]) { s with pics := s.pics.raise line } where
  ready := h.ready.raise h2
  unmasked i := by
    obtain ⟨hm, hsl⟩ := Pics.imr_raise s.pics line
    simpa [hm, hsl] using h.unmasked i
  master := h.master.of_isr (Pics.isr_raise s.pics line).1
  slave := h.slave.of_isr (Pics.isr_raise s.pics line).2
  todo := h.todo
  routines := by
    rw [h.routines]
    funext l
    rw [installed_concat]
  requested l hl := by
    rw [Pics.requested_raise h2, h.requested l hl, raised_concat]

theorem IrqState.Inv.of_live {e : IrqEvent η} {live : List (Request η)} (h : s.Inv es)
    (hready : pics.Ready 0x20) (himr : pics.master.imr = s.pics.master.imr ∧
      pics.slave.imr = s.pics.slave.imr)
    (hirr : pics.requested = s.pics.requested)
    (hmaster : pics.master.Serves (live.filterMap Request.master))
    (hslave : pics.slave.Serves (live.filterMap Request.slave))
    (htodo : ∀ a ∈ live, ∃ handler, a.todo <:+ irqProgram handler a.line)
    (hinst : installed (es ++ [e]) = installed es) (hraise : raised (es ++ [e]) = raised es) :
    IrqState.Inv (es ++ [e]) { s with pics := pics, live := live } where
  ready := hready
  unmasked i := by simpa [himr.1, himr.2] using h.unmasked i
  master := hmaster
  slave := hslave
  todo := htodo
  routines := by rw [hinst, h.routines]
  requested l hl := by rw [hirr, hraise, h.requested l hl]

theorem IrqState.Inv.call {h : η} {rest : List (Request η)} (hI : s.Inv es)
    (hl : s.live = ⟨line, .call h :: todo⟩ :: rest) :
    IrqState.Inv (es ++ [.call line h]) { s with live := ⟨line, todo⟩ :: rest } := by
  have howes : ∀ port, Request.owes port ⟨line, .call h :: todo⟩ = Request.owes port ⟨line, todo⟩ :=
    fun port => rfl
  have hmaster := hI.master
  have hslave := hI.slave
  have htodo := hI.todo
  rw [hl] at hmaster hslave htodo
  refine hI.of_live hI.ready ⟨rfl, rfl⟩ rfl ?_ ?_ ?_ ?_ ?_
  · simpa [List.filterMap_cons, Request.master, howes] using hmaster
  · simpa [List.filterMap_cons, Request.slave, howes] using hslave
  · intro a ha
    rcases List.mem_cons.mp ha with rfl | ha
    · obtain ⟨handler, hs⟩ := htodo _ List.mem_cons_self
      exact ⟨handler, (List.suffix_cons _ _).trans hs⟩
    · exact htodo a (List.mem_cons_of_mem _ ha)
  · funext l
    rw [installed_concat]
  · funext l
    rw [raised_concat]

theorem IrqState.Inv.iret {rest : List (Request η)} (hI : s.Inv es)
    (hl : s.live = ⟨line, []⟩ :: rest) :
    IrqState.Inv (es ++ [.iret line]) { s with live := rest } := by
  have hmaster := hI.master
  have hslave := hI.slave
  have htodo := hI.todo
  rw [hl] at hmaster hslave htodo
  refine hI.of_live hI.ready ⟨rfl, rfl⟩ rfl hmaster hslave ?_ ?_ ?_
  · exact fun a ha => htodo a (List.mem_cons_of_mem _ ha)
  · funext l
    rw [installed_concat]
  · funext l
    rw [raised_concat]

/-- What an end of interrupt of a live request does: it ends its own service. -/
theorem IrqState.Inv.outb {rest : List (Request η)} (hI : s.Inv es)
    (hl : s.live = ⟨line, .outb port value :: todo⟩ :: rest) :
    (port = pic1 ∧ s.pics.master.serving = some (masterInput line) ∨
        port = pic2 ∧ s.pics.slave.serving = slaveInput line ∧ (slaveInput line).isSome) ∧
      IrqState.Inv (es ++ [.outb line port value])
        { s with pics := s.pics.write port value, live := ⟨line, todo⟩ :: rest } := by
  have hmaster := hI.master
  have hslave := hI.slave
  have htodo := hI.todo
  rw [hl] at hmaster hslave htodo
  obtain ⟨handler, hs⟩ := htodo _ List.mem_cons_self
  have htodo' : ∀ a ∈ ⟨line, todo⟩ :: rest, ∃ handler, a.todo <:+ irqProgram handler a.line := by
    intro a ha
    rcases List.mem_cons.mp ha with rfl | ha
    · exact ⟨handler, (List.suffix_cons _ _).trans hs⟩
    · exact htodo a (List.mem_cons_of_mem _ ha)
  have hinst : installed (es ++ [.outb line port value]) = installed es := by
    funext l
    rw [installed_concat]
  have hraise : raised (es ++ [.outb line port value]) = raised es := by
    funext l
    rw [raised_concat]
  have hports : pic1 ≠ pic2 := by decide
  have hports' : pic2 ≠ pic1 := by decide
  obtain ⟨rfl, ⟨rfl, rfl⟩ | ⟨rfl, rfl, hline⟩⟩ := outb_of_suffix hs
  · have hm : s.pics.master.Serves (masterInput line :: rest.filterMap Request.master) := by
      simpa [List.filterMap_cons, Request.master, Request.owes, IrqEffect.isEoi] using hmaster
    refine ⟨.inl ⟨rfl, hm.serving⟩, ?_⟩
    rw [show s.pics.write pic1 picEoi = _ from Pics.write_masterEoi s.pics]
    refine hI.of_live hI.ready.masterEnd ⟨Pic.imr_eoi _, rfl⟩
      (Pics.requested_masterEnd _) ?_ ?_ htodo' hinst hraise
    · simpa [List.filterMap_cons, Request.master, Request.owes] using hm.eoi
    · simpa [List.filterMap_cons, Request.slave, Request.owes, IrqEffect.isEoi, hports]
        using hslave
  · obtain ⟨j, hj⟩ := Option.isSome_iff_exists.mp hline
    have hsl : s.pics.slave.Serves (j :: rest.filterMap Request.slave) := by
      simpa [List.filterMap_cons, Request.slave, Request.owes, IrqEffect.isEoi, hj] using hslave
    refine ⟨.inr ⟨rfl, hsl.serving.trans hj.symm, hline⟩, ?_⟩
    rw [show s.pics.write pic2 picEoi = _ from Pics.write_slaveEoi s.pics]
    refine hI.of_live hI.ready.slaveEnd ⟨rfl, Pic.imr_eoi _⟩
      (Pics.requested_slaveEnd _) ?_ ?_ htodo' hinst hraise
    · simpa [List.filterMap_cons, Request.master, Request.owes, IrqEffect.isEoi, hports']
        using hmaster
    · simpa [List.filterMap_cons, Request.slave, Request.owes, IrqEffect.isEoi, hports]
        using hsl.eoi

theorem IrqState.Inv.install {irq : Int} {t : Fin 16 → Option η} {e : IrqEvent η} (hI : s.Inv es)
    (ht : irqInstallHandler irq handler s.irqRoutines = some t)
    (hinst : ∀ l, installed (es ++ [e]) l = if irq = l.val then handler else installed es l)
    (hraise : raised (es ++ [e]) = raised es) :
    IrqState.Inv (es ++ [e]) { s with irqRoutines := t } where
  ready := hI.ready
  unmasked := hI.unmasked
  master := hI.master
  slave := hI.slave
  todo := hI.todo
  routines := by
    unfold irqInstallHandler at ht
    split at ht
    next hirq =>
      obtain rfl := Option.some.inj ht
      funext l
      have hiff : l = ⟨irq.toNat, by omega⟩ ↔ irq = l.val := by
        simp only [Fin.ext_iff]
        omega
      simp only [hinst l, ← hI.routines, Function.update_apply, hiff]
    next => simp at ht
  requested l hl := by rw [hraise, hI.requested l hl]

theorem IrqStep.inv {e : IrqEvent η} (h : IrqStep k ret s e s') (hI : s.Inv es) :
    s'.Inv (es ++ [e]) := by
  cases e with
  | accept line =>
    obtain ⟨h2, hs, rfl⟩ := h.accepted hI.ready
    exact hI.accept h2 hs _
  | raise line =>
    cases h with
    | raise h2 => exact hI.raise h2
  | call line handler =>
    cases h with
    | call hl => exact hI.call hl
  | outb line port value =>
    cases h with
    | outb hl => exact (hI.outb hl).2
  | iret line =>
    cases h with
    | iret hl => exact hI.iret hl
  | install irq handler =>
    cases h with
    | install ht =>
      exact hI.install ht (fun l => installed_concat _ _ l) (funext fun l => raised_concat _ _ l)
  | uninstall irq =>
    cases h with
    | uninstall ht =>
      exact hI.install ht (fun l => installed_concat _ _ l) (funext fun l => raised_concat _ _ l)

theorem irqState_inv {p : Pics} (h : Trace (IrqStep k ret) (.boot p) es s) : s.Inv es :=
  h.history (I := IrqState.Inv) (irqState_boot p) fun _ _ _ _ hI he => he.inv hI

/-! ### The whole of a service -/

theorem IrqState.Inv.master_iff (hI : s.Inv es) (i : Fin 8) :
    s.pics.master.isr i ↔ ∃ a ∈ s.live, a.owes pic1 ∧ masterInput a.line = i := by
  rw [hI.master.isr, List.mem_filterMap]
  simp [Request.master]

theorem IrqState.Inv.slave_iff (hI : s.Inv es) (j : Fin 8) :
    s.pics.slave.isr j ↔ ∃ a ∈ s.live, a.owes pic2 ∧ slaveInput a.line = some j := by
  rw [hI.slave.isr, List.mem_filterMap]
  simp [Request.slave]

theorem IrqState.Inv.acknowledged {v : BitVec 8} {q : Pics} (hI : s.Inv es)
    (hack : s.pics.acknowledge = some (v, q)) (k : KernelImage) (ret : BitVec 32) :
    ∃ line s', IrqStep k ret s (.accept line) s' ∧
      (idtInit k.addr).gate v = some ⟨k.addr (.irq line), gdtOffsetKernelCode, 3⟩ ∧
      ∀ c : I386, irqHandler s.irqRoutines (c.irqEntry ret line).registers
        = some (irqProgram (installed es line) line) := by
  obtain ⟨line, -, -, hv, -⟩ := Pics.acknowledge_spec hI.ready hack
  have hgate := irq_gate k line
  rw [← hv] at hgate
  have htodo : ∀ c : I386, irqHandler s.irqRoutines (c.irqEntry ret line).registers
      = some (irqProgram (installed es line) line) := by
    intro c
    rw [irqHandler_eq (irqEntry_saved ret line c).intNo, hI.routines]
  have c₀ := I386.kernelAt fun _ => 0
  exact ⟨line, _, .accept hack hgate (k.placed _) (htodo c₀), hgate, htodo⟩

theorem IrqState.Inv.idle (hI : s.Inv es) (hlive : ∀ a ∈ s.live, a.owes pic1 = false ∧
    a.owes pic2 = false) (h2 : line ≠ 2) (hr : raised es line) :
    ∃ v q, s.pics.acknowledge = some (v, q) := by
  rw [← hI.requested line h2] at hr
  refine Pics.acknowledge_of_requested hI.ready h2 hr ?_ ?_
  · intro i
    refine ⟨(hI.unmasked i).1, ?_⟩
    by_contra hne
    obtain ⟨a, ha, howes, -⟩ := (hI.master_iff i).mp (by simpa using hne)
    simp [(hlive a ha).1] at howes
  · intro j
    refine ⟨(hI.unmasked j).2, ?_⟩
    by_contra hne
    obtain ⟨a, ha, howes, -⟩ := (hI.slave_iff j).mp (by simpa using hne)
    simp [(hlive a ha).2] at howes

/-- A device raises its line while nothing is live and nothing waits: the
processor accepts it. -/
theorem irqState_raise_accept {p : Pics} (h : Trace (IrqStep k ret) (.boot p) es s)
    (hlive : s.live = []) (hquiet : ∀ l, raised es l = false) (h2 : line ≠ 2) :
    Trace (IrqStep k ret) (.boot p) (es ++ [.raise line]) { s with pics := s.pics.raise line } ∧
      ∃ s', IrqStep k ret { s with pics := s.pics.raise line } (.accept line) s' := by
  have hraise := h.snoc (.raise h2)
  have hI := irqState_inv hraise
  have hraised : ∀ l, raised (es ++ [.raise line]) l = decide (l = line) := fun l => by
    simp [raised_concat, hquiet]
  obtain ⟨v, q, hack⟩ := hI.idle (by simp [hlive]) h2 (by simp [hraised])
  obtain ⟨l, s', hstep, -⟩ := hI.acknowledged hack k ret
  obtain ⟨hl2, hserve, -⟩ := hstep.accepted hI.ready
  have hreq := hserve.requested
  rw [hI.requested l hl2, hraised, decide_eq_true_eq] at hreq
  obtain rfl := hreq
  exact ⟨hraise, s', hstep⟩

/-- The stubs one behind the other. -/
def stubsInRow : KernelImage where
  addr
    | .irq line => BitVec.ofNat 32 (256 + line)
    | .isr num => num.setWidth 32
  code a :=
    if a.toNat < 256 then some (.isr (a.setWidth 8))
    else if h : a.toNat - 256 < 16 then some (.irq ⟨a.toNat - 256, h⟩) else none
  placed stub := by
    cases stub with
    | isr num =>
      have hlt : (num.setWidth 32).toNat < 256 := by
        rw [BitVec.toNat_setWidth]
        omega
      rw [if_pos hlt]
      simp
    | irq line =>
      revert line
      decide

/-- The controllers as firmware leaves them, its timer interrupt in service. -/
def firmwarePics : Pics where
  master := ⟨.mask, false, true, 0x08, 0x04, false, fun _ => false, fun i => i.val == 3,
    fun i => i.val == 0⟩
  slave := ⟨.mask, false, true, 0x70, 0x02, false, fun _ => false, fun _ => true, fun _ => false⟩

/-- **Every end of interrupt is given to its own interrupt.**  What is in service
are the requests whose end of interrupt is still to come, at both controllers.
Only a request before all of these is accepted, so there are never more than
eight, and an end of interrupt ends the service of the request that writes it. -/
theorem irq_service {p : Pics} (h : Trace (IrqStep k ret) (.boot p) es s) :
    (∀ i, s.pics.master.isr i ↔ ∃ a ∈ s.live, a.owes pic1 ∧ masterInput a.line = i) ∧
    (∀ j, s.pics.slave.isr j ↔ ∃ a ∈ s.live, a.owes pic2 ∧ slaveInput a.line = some j) ∧
    (∀ line s', IrqStep k ret s (.accept line) s' →
      ∀ a ∈ s.live, a.owes pic1 → masterInput line < masterInput a.line) ∧
    (s.live.filter (·.owes pic1)).length ≤ 8 ∧
    (∀ line port value s', IrqStep k ret s (.outb line port value) s' →
      port = pic1 ∧ s.pics.master.serving = some (masterInput line) ∨
        port = pic2 ∧ s.pics.slave.serving = slaveInput line ∧ (slaveInput line).isSome) := by
  have hI := irqState_inv h
  refine ⟨hI.master_iff, hI.slave_iff, ?_, ?_, ?_⟩
  · intro line s' hstep a ha howes
    obtain ⟨-, hs, -⟩ := hstep.accepted hI.ready
    exact Pic.free_iff.mp hs.masterFree _ ((hI.master_iff _).mpr ⟨a, ha, howes, rfl⟩)
  · have hlist : s.live.filterMap Request.master
        = (s.live.filter (·.owes pic1)).map fun a => masterInput a.line := by
      rw [← List.filterMap_eq_map, ← List.filterMap_eq_filter, List.filterMap_filterMap]
      congr 1
      funext a
      by_cases ha : a.owes pic1 <;> simp [Request.master, ha, Option.guard]
    have hnodup := hI.master.sorted.imp fun {i j} (hij : i < j) => hij.ne
    have hcard := List.Nodup.length_le_card hnodup
    rwa [hlist, List.length_map, Fintype.card_fin] at hcard
  · intro line port value s' hstep
    cases hstep with
    | outb hl => exact (hI.outb hl).1

/-- Line 9 in service: at the slave and at its input of the master. -/
theorem irq_service_slave : ∃ s : IrqState Unit,
    Trace (IrqStep stubsInRow 0x100100) (.boot firmwarePics) [.raise 9, .accept 9] s ∧
      s.pics.slave.isr 1 ∧ s.pics.master.isr 2 := by
  have hboot : Trace (IrqStep stubsInRow 0x100100) (.boot firmwarePics) []
      (.boot firmwarePics : IrqState Unit) := .nil
  obtain ⟨hraise, s, hstep⟩ := irqState_raise_accept hboot rfl (fun l => rfl)
    (show (9 : Fin 16) ≠ 2 by decide)
  have htrace := hraise.snoc hstep
  obtain ⟨-, -, hs⟩ := hstep.accepted (irqState_inv hraise).ready
  have hlive : ⟨9, irqProgram none 9⟩ ∈ s.live := by
    rw [hs]
    exact List.mem_cons_self
  obtain ⟨hmaster, hslave, -⟩ := irq_service htrace
  exact ⟨s, htrace, (hslave 1).mpr ⟨_, hlive, by decide, rfl⟩,
    (hmaster 2).mpr ⟨_, hlive, by decide, rfl⟩⟩

/-- **The handler of the last install is called**, with the registers of the
interrupted code.  Whatever the controllers ask for leads through the table and
the stub of a line into `irq_handler`. -/
theorem irq_dispatched {p : Pics} (h : Trace (IrqStep k ret) (.boot p) es s) :
    (∀ line s', IrqStep k ret s (.accept line) s' →
      s'.live = ⟨line, irqProgram (installed es line) line⟩ :: s.live) ∧
    (∀ v q, s.pics.acknowledge = some (v, q) → ∃ line s', IrqStep k ret s (.accept line) s' ∧
      (idtInit k.addr).gate v = some ⟨k.addr (.irq line), gdtOffsetKernelCode, 3⟩ ∧
      ∀ c : I386, c.Saved (irqCode line) (c.irqEntry ret line).registers ∧
        irqHandler s.irqRoutines (c.irqEntry ret line).registers
          = some (irqProgram (installed es line) line)) := by
  have hI := irqState_inv h
  constructor
  · intro line s' hstep
    obtain ⟨-, -, rfl⟩ := hstep.accepted hI.ready
    rw [hI.routines]
  · intro v q hack
    obtain ⟨line, s', hstep, hgate, htodo⟩ := hI.acknowledged hack k ret
    exact ⟨line, s', hstep, hgate, fun c => ⟨irqEntry_saved ret line c, htodo c⟩⟩

/-- The handler of line 1. -/
theorem irq_dispatched_line : ∃ s s' : IrqState Unit,
    Trace (IrqStep stubsInRow 0x100100) (.boot firmwarePics) [.install 1 (some ()), .raise 1] s ∧
      IrqStep stubsInRow 0x100100 s (.accept 1) s' ∧
      s'.live = [⟨1, [.call (), .outb pic1 picEoi]⟩] := by
  have hinstall : Trace (IrqStep stubsInRow 0x100100) (.boot firmwarePics) [.install 1 (some ())]
      (_ : IrqState Unit) := .single (.install rfl)
  obtain ⟨hraise, s', hstep⟩ := irqState_raise_accept hinstall rfl (fun l => rfl)
    (show (1 : Fin 16) ≠ 2 by decide)
  exact ⟨_, s', hraise, hstep, (irq_dispatched hraise).1 1 s' hstep⟩

/-! ### No request is lost -/

/-- What `irq_handler` and the `iret` do. -/
inductive IrqEvent.Internal : IrqEvent η → Prop
  | call {line : Fin 16} {h : η} : Internal (.call line h)
  | outb {line : Fin 16} {port : BitVec 16} {value : BitVec 8} : Internal (.outb line port value)
  | iret {line : Fin 16} : Internal (.iret line)

theorem raised_internal (es : List (IrqEvent η)) :
    ∀ es' : List (IrqEvent η), (∀ e ∈ es', e.Internal) → raised (es ++ es') = raised es := by
  intro es'
  induction es' using List.reverseRecOn with
  | nil => simp
  | append_singleton es' e ih =>
    intro h
    funext line
    rw [← List.append_assoc, raised_concat, ih fun e he => h e (by simp [he])]
    cases h e (by simp) <;> rfl

theorem irqState_finish (k : KernelImage) (ret : BitVec 32) :
    ∀ (live : List (Request η)) (s : IrqState η), s.live = live → ∃ es' s',
      Trace (IrqStep k ret) s es' s' ∧ s'.live = [] ∧ ∀ e ∈ es', e.Internal := by
  intro live
  induction live with
  | nil =>
    intro s hs
    exact ⟨[], s, .nil, hs, by simp⟩
  | cons a live ih =>
    obtain ⟨line, todo⟩ := a
    induction todo with
    | nil =>
      intro s hs
      obtain ⟨es', s', htrace, hlive, hint⟩ := ih { s with live := live } rfl
      refine ⟨.iret line :: es', s', (Trace.single (.iret hs)).append htrace, hlive, ?_⟩
      simpa using ⟨.iret, hint⟩
    | cons e todo ihtodo =>
      intro s hs
      cases e with
      | call handler =>
        obtain ⟨es', s', htrace, hlive, hint⟩ := ihtodo { s with live := ⟨line, todo⟩ :: live } rfl
        refine ⟨.call line handler :: es', s', (Trace.single (.call hs)).append htrace, hlive, ?_⟩
        simpa using ⟨.call, hint⟩
      | outb port value =>
        obtain ⟨es', s', htrace, hlive, hint⟩ := ihtodo
          { s with pics := s.pics.write port value, live := ⟨line, todo⟩ :: live } rfl
        refine ⟨.outb line port value :: es', s', (Trace.single (.outb hs)).append htrace, hlive, ?_⟩
        simpa using ⟨.outb, hint⟩

/-- The lines that wait. -/
def waiting (es : List (IrqEvent η)) : Finset (Fin 16) :=
  Finset.univ.filter fun line => line.val ≠ 2 ∧ raised es line

theorem mem_waiting : line ∈ waiting es ↔ line ≠ 2 ∧ raised es line := by
  simp [waiting, Fin.ext_iff]

theorem irqState_drain {p : Pics} : ∀ (n : Nat) (es : List (IrqEvent η)) (s : IrqState η),
    (waiting es).card = n → Trace (IrqStep k ret) (.boot p) es s → s.live = [] → ∃ es' s',
      Trace (IrqStep k ret) s es' s' ∧ s'.live = [] ∧ waiting (es ++ es') = ∅ ∧
      ∀ e ∈ es', e.Internal ∨ ∃ line, e = .accept line := by
  intro n
  induction n using Nat.strongRecOn with
  | ind n ih =>
    intro es s hn htrace hlive
    by_cases hempty : waiting es = ∅
    · exact ⟨[], s, .nil, hlive, by simpa using hempty, by simp⟩
    · obtain ⟨line, hline⟩ := Finset.nonempty_iff_ne_empty.mpr hempty
      obtain ⟨h2, hr⟩ := mem_waiting.mp hline
      have hI := irqState_inv htrace
      obtain ⟨v, q, hack⟩ := hI.idle (by simp [hlive]) h2 hr
      -- some line is accepted, perhaps another one
      obtain ⟨l, s₁, hstep, -⟩ := hI.acknowledged hack k ret
      obtain ⟨hl2, hserve, -⟩ := hstep.accepted hI.ready
      obtain ⟨es₁, s₂, htrace₁, hlive₂, hint⟩ := irqState_finish k ret s₁.live s₁ rfl
      have hwaits : waiting ((es ++ [.accept l]) ++ es₁) = (waiting es).erase l := by
        ext m
        rw [Finset.mem_erase, mem_waiting, mem_waiting, raised_internal _ es₁ hint, raised_concat]
        simp only [Bool.and_eq_true, Bool.not_eq_true', decide_eq_false_iff_not]
        exact ⟨fun ⟨h2, hr, hne⟩ => ⟨hne, h2, hr⟩, fun ⟨hne, h2, hr⟩ => ⟨h2, hr, hne⟩⟩
      have hmem : l ∈ waiting es := by
        rw [mem_waiting, ← hI.requested l hl2]
        exact ⟨hl2, hserve.requested⟩
      have hcard := Finset.card_erase_lt_of_mem hmem
      have htrace₂ := (htrace.snoc hstep).append htrace₁
      obtain ⟨es', s', htrace', hlive', hdone, hev⟩ := ih ((waiting es).erase l).card
        (hn ▸ hcard) ((es ++ [.accept l]) ++ es₁) s₂ (by rw [hwaits]) htrace₂ hlive₂
      refine ⟨.accept l :: (es₁ ++ es'), s', ?_, hlive', by simpa using hdone, ?_⟩
      · exact (Trace.single hstep).append (htrace₁.append htrace')
      · intro e he
        rcases List.mem_cons.mp he with rfl | he
        · exact .inr ⟨l, rfl⟩
        · rcases List.mem_append.mp he with he | he
          · exact .inl (hint e he)
          · exact hev e he

/-- **No request is lost.**  A line is requested when it was raised since it was
accepted the last time, and only such a line is accepted.  Whatever is live and
waits, the handlers that are live can go to their end and every line that waits
can be accepted and served, without a device or an install. -/
theorem irq_pending {p : Pics} (h : Trace (IrqStep k ret) (.boot p) es s) :
    (∀ line, line ≠ 2 → s.pics.requested line = raised es line) ∧
    (∀ line s', IrqStep k ret s (.accept line) s' → raised es line) ∧
    ∃ es' s', Trace (IrqStep k ret) s es' s' ∧ s'.live = [] ∧
      (∀ line, line ≠ 2 → raised (es ++ es') line = false) ∧
      (∀ i, s'.pics.master.isr i = false ∧ s'.pics.slave.isr i = false) ∧
      ∀ e ∈ es', e.Internal ∨ ∃ line, e = .accept line := by
  have hI := irqState_inv h
  refine ⟨hI.requested, ?_, ?_⟩
  · intro line s' hstep
    obtain ⟨h2, hs, -⟩ := hstep.accepted hI.ready
    rw [← hI.requested line h2]
    exact hs.requested
  · obtain ⟨es₁, s₁, htrace₁, hlive₁, hint⟩ := irqState_finish k ret s.live s rfl
    obtain ⟨es₂, s₂, htrace₂, hlive₂, hdone, hev⟩ := irqState_drain _ _ s₁ rfl (h.append htrace₁)
      hlive₁
    have hI₂ := irqState_inv ((h.append htrace₁).append htrace₂)
    refine ⟨es₁ ++ es₂, s₂, htrace₁.append htrace₂, hlive₂, ?_, ?_, ?_⟩
    · intro line h2
      rw [← List.append_assoc]
      by_contra hne
      have hmem : line ∈ waiting ((es ++ es₁) ++ es₂) :=
        mem_waiting.mpr ⟨h2, by rwa [Bool.not_eq_false] at hne⟩
      rw [hdone] at hmem
      exact absurd hmem (Finset.notMem_empty _)
    · intro i
      constructor
      · by_contra hne
        obtain ⟨a, ha, -⟩ := (hI₂.master_iff i).mp (by simpa using hne)
        simp [hlive₂] at ha
      · by_contra hne
        obtain ⟨a, ha, -⟩ := (hI₂.slave_iff i).mp (by simpa using hne)
        simp [hlive₂] at ha
    · intro e he
      rcases List.mem_append.mp he with he | he
      · exact .inl (hint e he)
      · exact hev e he

/-- Line 9 waits, and can be served. -/
theorem irq_pending_slave : ∃ s : IrqState Unit,
    Trace (IrqStep stubsInRow 0x100100) (.boot firmwarePics) [.raise 9] s ∧ s.pics.requested 9 ∧
      ∃ es' s', Trace (IrqStep stubsInRow 0x100100) s es' s' ∧ s'.live = [] ∧
        raised ([.raise 9] ++ es') 9 = false := by
  have hraise : Trace (IrqStep stubsInRow 0x100100) (.boot firmwarePics) [.raise 9]
      (_ : IrqState Unit) :=
    .single (.raise (by decide))
  obtain ⟨hreq, -, es', s', htrace, hlive, hdone, -⟩ := irq_pending hraise
  exact ⟨_, hraise, hreq 9 (by decide), es', s', htrace, hlive, hdone 9 (by decide)⟩

end ChoOS
