import ChoOS.Lib.Memory

/-!
# Switching stacks

The code of `switch_to_task.S` and `forge_kernel_stack.S`, one register or
memory transfer after the other.  `Cpu` holds the registers that the code
names, the memory and the variables of the scheduler that it touches.  The
kernel part of the memory is the same in every address space, so loading `cr3`
changes no byte of `mem`.

A function of this module starts at its entry, with `esp` at the return
address, and ends behind its `ret`.  `popped` keeps the addresses of the words
that were taken from a stack, the newest first.

`saveTask_eq` and `popTask_eq` are the two halves of a switch: what it leaves
on the stack of the task that calls, and what it takes from the stack of the
task that continues.  `forgeKernelStack_eq` is the frame of a new task.
-/

namespace ChoOS

structure Cpu where
  eax : UInt32
  ebx : UInt32
  ecx : UInt32
  edx : UInt32
  esi : UInt32
  edi : UInt32
  ebp : UInt32
  esp : UInt32
  eip : UInt32
  cr3 : UInt32
  mem : ByteMem
  currentTaskPCB : UInt32
  postponeTaskSwitchesCounter : UInt32
  taskSwitchesPostponedFlag : UInt8
  tssEsp0 : UInt32
  popped : List UInt32

namespace Cpu

/-- The word at `a`. -/
def load (c : Cpu) (a : UInt32) : UInt32 := UInt32.ofNat (c.mem.read32 a.toNat)

def store (c : Cpu) (a v : UInt32) : Cpu := { c with mem := c.mem.write32 a.toNat v.toNat }

/-- `movb` -/
def storeByte (c : Cpu) (a : UInt32) (v : UInt8) : Cpu :=
  { c with mem := c.mem.write8 a.toNat v }

def pushl (c : Cpu) (v : UInt32) : Cpu := { c with esp := c.esp - 4 }.store (c.esp - 4) v

/-- `pop`, with the word that is taken. -/
def popl (c : Cpu) : UInt32 × Cpu :=
  (c.load c.esp, { c with esp := c.esp + 4, popped := c.esp :: c.popped })

def ret (c : Cpu) : Cpu :=
  let (a, c) := c.popl
  { c with eip := a }

/-! ### `scheduler.h` -/

def pcbOffsetEsp : UInt32 := 4

def pcbOffsetEsp0 : UInt32 := 8

def pcbOffsetCr3 : UInt32 := 12

def pcbOffsetState : UInt32 := 20

/-! ### `switch_to_task.S` -/

/-- From `.continue` to the store of `esp`. -/
def saveTask (c : Cpu) : Cpu :=
  let c := c.pushl c.ebx
  let c := c.pushl c.esi
  let c := c.pushl c.edi
  let c := c.pushl c.ebp
  let c := { c with edi := c.currentTaskPCB }
  c.store (c.edi + pcbOffsetEsp) c.esp

/-- From the load of the parameter to the load of `cr3`. -/
def loadTask (c : Cpu) : Cpu :=
  let c := { c with esi := c.load (c.esp + 20) }
  let c := { c with currentTaskPCB := c.esi }
  let c := { c with esp := c.load (c.esi + pcbOffsetEsp) }
  let c := { c with eax := c.load (c.esi + pcbOffsetCr3) }
  let c := { c with ebx := c.load (c.esi + pcbOffsetEsp0) }
  -- `TASK_STATE_RUNNING`
  let c := c.storeByte (c.esi + pcbOffsetState) 2
  let c := { c with tssEsp0 := c.ebx }
  let c := { c with ecx := c.cr3 }
  if c.ecx = c.eax then c else { c with cr3 := c.eax }

/-- From `.doneVAS` on. -/
def popTask (c : Cpu) : Cpu :=
  let (v, c) := c.popl
  let c := { c with ebp := v }
  let (v, c) := c.popl
  let c := { c with edi := v }
  let (v, c) := c.popl
  let c := { c with esi := v }
  let (v, c) := c.popl
  let c := { c with ebx := v }
  c.ret

def switchToTask (c : Cpu) : Cpu :=
  if c.postponeTaskSwitchesCounter = 0 then c.saveTask.loadTask.popTask
  else { c with taskSwitchesPostponedFlag := 1 }.ret

/-! ### `forge_kernel_stack.S` -/

def argStackTopOffset : UInt32 := 4

def argTaskFuncOffset : UInt32 := 8

def argWrapperOffset : UInt32 := 12

def argCleanupFuncOffset : UInt32 := 16

/-- One word of the forged stack: `subl $4, %eax` and the store of `edx`. -/
def forgeWord (c : Cpu) (argOffset : UInt32) : Cpu :=
  let c := { c with edx := c.load (c.esp + argOffset) }
  let c := { c with eax := c.eax - 4 }
  c.store c.eax c.edx

def forgeKernelStack (c : Cpu) : Cpu :=
  let c := { c with eax := c.load (c.esp + argStackTopOffset) }
  let c := c.forgeWord argCleanupFuncOffset
  let c := c.forgeWord argTaskFuncOffset
  let c := c.forgeWord argWrapperOffset
  let c := { c with eax := c.eax - 16 }
  let c := { c with edx := 0 }
  let c := c.store c.eax c.edx
  let c := c.store (c.eax + argStackTopOffset) c.edx
  let c := c.store (c.eax + argTaskFuncOffset) c.edx
  let c := c.store (c.eax + argWrapperOffset) c.edx
  c.ret

/-! ### The words of a frame -/

/-- What a switch keeps of a task on its stack, from the top word on. -/
structure Context where
  ebp : UInt32
  edi : UInt32
  esi : UInt32
  ebx : UInt32
  eip : UInt32

/-- The context of the task that calls `_switch_to_task`. -/
def context (c : Cpu) : Context := ⟨c.ebp, c.edi, c.esi, c.ebx, c.load c.esp⟩

/-- The five words at `sp` are `k`. -/
structure Context.At (k : Context) (m : ByteMem) (sp : Nat) : Prop where
  ebp : m.read32 sp = k.ebp.toNat
  edi : m.read32 (sp + 4) = k.edi.toNat
  esi : m.read32 (sp + 8) = k.esi.toNat
  ebx : m.read32 (sp + 12) = k.ebx.toNat
  eip : m.read32 (sp + 16) = k.eip.toNat

variable {c : Cpu} {k : Context} {m m' : ByteMem} {sp : Nat}

theorem Context.At.congr (h : k.At m sp) (hsp : sp + 20 ≤ 4294967296)
    (hm : ∀ x, sp ≤ x → x < sp + 20 → m' x = m x) : k.At m' sp := by
  have hword : ∀ d ≤ 16, m'.read32 (sp + d) = m.read32 (sp + d) := by
    intro d hd
    exact ByteMem.read32_congr (by omega) fun i hi => hm _ (by omega) (by omega)
  exact ⟨(hword 0 (by omega)).trans h.ebp, (hword 4 (by omega)).trans h.edi,
    (hword 8 (by omega)).trans h.esi, (hword 12 (by omega)).trans h.ebx,
    (hword 16 (by omega)).trans h.eip⟩

theorem toNat_sub {a b : UInt32} (h : b.toNat ≤ a.toNat) : (a - b).toNat = a.toNat - b.toNat :=
  UInt32.toNat_sub_of_le a b (UInt32.le_iff_toNat_le.mpr h)

theorem toNat_add {a b : UInt32} (h : a.toNat + b.toNat < 4294967296) :
    (a + b).toNat = a.toNat + b.toNat := by
  rw [UInt32.toNat_add, Nat.mod_eq_of_lt h]

theorem toNat_pushes {t : UInt32} (h : 12 ≤ t.toNat) : (t - 4).toNat = t.toNat - 4 ∧
    (t - 4 - 4).toNat = t.toNat - 8 ∧ (t - 4 - 4 - 4).toNat = t.toNat - 12 := by
  have h4 : (t - 4).toNat = t.toNat - 4 := toNat_sub (by simp; omega)
  have h8 : (t - 4 - 4).toNat = t.toNat - 8 := by
    rw [toNat_sub (by simp [h4]; omega), h4]; rfl
  have h12 : (t - 4 - 4 - 4).toNat = t.toNat - 12 := by
    rw [toNat_sub (by simp [h8]; omega), h8]; rfl
  exact ⟨h4, h8, h12⟩

theorem load_eq {a v : UInt32} (h : c.mem.read32 a.toNat = v.toNat) : c.load a = v := by
  rw [load, h, UInt32.ofNat_toNat]

theorem toNat_load (a : UInt32) : (c.load a).toNat = c.mem.read32 a.toNat := by
  rw [load, UInt32.toNat_ofNat', Nat.mod_eq_of_lt (ByteMem.read32_lt _ _)]

/-! ### Saving -/

/-- The memory behind `saveTask`: four pushes and the store in the control block. -/
def savedMem (c : Cpu) : ByteMem :=
  ((((c.mem.write32 (c.esp.toNat - 4) c.ebx.toNat).write32 (c.esp.toNat - 8)
    c.esi.toNat).write32 (c.esp.toNat - 12) c.edi.toNat).write32 (c.esp.toNat - 16)
    c.ebp.toNat).write32 (c.currentTaskPCB.toNat + 4) (c.esp.toNat - 16)

/-- The call of `_switch_to_task` by a task: there is room for the pushes, and the
control block is apart from them and from the return address and the parameter. -/
structure CallReady (c : Cpu) : Prop where
  room : 16 ≤ c.esp.toNat
  args : c.esp.toNat + 8 ≤ 4294967296
  block : c.currentTaskPCB.toNat + 44 ≤ 4294967296
  apart : c.currentTaskPCB.toNat + 44 ≤ c.esp.toNat - 16 ∨
    c.esp.toNat + 8 ≤ c.currentTaskPCB.toNat

theorem toNat_esp_sub (h : c.CallReady) : (c.esp - 16).toNat = c.esp.toNat - 16 :=
  toNat_sub h.room

theorem saveTask_eq (h : c.CallReady) :
    c.saveTask = { c with esp := c.esp - 16, edi := c.currentTaskPCB, mem := c.savedMem } := by
  obtain ⟨hsp, -, ht, -⟩ := h
  obtain ⟨h4, h8, h12⟩ := toNat_pushes (t := c.esp) (by omega)
  have h16 : (c.esp - 16).toNat = c.esp.toNat - 16 := toNat_sub hsp
  have he : c.esp - 4 - 4 - 4 - 4 = c.esp - 16 := by grind
  have hp : (c.currentTaskPCB + pcbOffsetEsp).toNat = c.currentTaskPCB.toNat + 4 :=
    toNat_add (by simp [pcbOffsetEsp]; omega)
  simp only [saveTask, pushl, store, savedMem, h4, h8, h12, h16, hp, he]

/-- Saving touches the sixteen bytes below `esp` and the `esp` field. -/
theorem savedMem_of_disjoint (h : c.CallReady) {x : Nat}
    (hs : x < c.esp.toNat - 16 ∨ c.esp.toNat ≤ x)
    (hp : x < c.currentTaskPCB.toNat + 4 ∨ c.currentTaskPCB.toNat + 8 ≤ x) :
    c.savedMem x = c.mem x := by
  obtain ⟨hsp, hargs, ht, -⟩ := h
  rw [savedMem, ByteMem.write32_of_disjoint (by omega) (by omega),
    ByteMem.write32_of_disjoint (by omega) (by omega),
    ByteMem.write32_of_disjoint (by omega) (by omega),
    ByteMem.write32_of_disjoint (by omega) (by omega),
    ByteMem.write32_of_disjoint (by omega) (by omega)]

theorem savedMem_esp (h : c.CallReady) :
    c.savedMem.read32 (c.currentTaskPCB.toNat + 4) = c.esp.toNat - 16 := by
  obtain ⟨hsp, hargs, ht, -⟩ := h
  exact ByteMem.read32_write32 (by omega)

/-- **Saving** leaves the context of the caller below its return address. -/
theorem savedMem_context (h : c.CallReady) : c.context.At c.savedMem (c.esp.toNat - 16) := by
  obtain ⟨hsp, hargs, ht, hap⟩ := id h
  have hword : ∀ d ≤ 12, c.savedMem.read32 (c.esp.toNat - 16 + d) =
      ((((c.mem.write32 (c.esp.toNat - 4) c.ebx.toNat).write32 (c.esp.toNat - 8)
        c.esi.toNat).write32 (c.esp.toNat - 12) c.edi.toNat).write32 (c.esp.toNat - 16)
        c.ebp.toNat).read32 (c.esp.toNat - 16 + d) := by
    intro d hd
    exact ByteMem.read32_write32_of_disjoint (by omega) (by omega) (by omega)
  have hebp := c.ebp.toNat_lt
  have hedi := c.edi.toNat_lt
  have hesi := c.esi.toNat_lt
  have hebx := c.ebx.toNat_lt
  refine ⟨?_, ?_, ?_, ?_, ?_⟩
  · have := hword 0 (by omega)
    rw [Nat.add_zero] at this
    rw [this, ByteMem.read32_write32 hebp]
    rfl
  · rw [hword 4 (by omega), ByteMem.read32_write32_of_disjoint (by omega) (by omega) (by omega),
      show c.esp.toNat - 16 + 4 = c.esp.toNat - 12 by omega,
      ByteMem.read32_write32 hedi]
    rfl
  · rw [hword 8 (by omega), ByteMem.read32_write32_of_disjoint (by omega) (by omega) (by omega),
      ByteMem.read32_write32_of_disjoint (by omega) (by omega) (by omega),
      show c.esp.toNat - 16 + 8 = c.esp.toNat - 8 by omega,
      ByteMem.read32_write32 hesi]
    rfl
  · rw [hword 12 (by omega), ByteMem.read32_write32_of_disjoint (by omega) (by omega) (by omega),
      ByteMem.read32_write32_of_disjoint (by omega) (by omega) (by omega),
      ByteMem.read32_write32_of_disjoint (by omega) (by omega) (by omega),
      show c.esp.toNat - 16 + 12 = c.esp.toNat - 4 by omega,
      ByteMem.read32_write32 hebx]
    rfl
  · rw [show c.esp.toNat - 16 + 16 = c.esp.toNat by omega, context]
    dsimp only
    rw [toNat_load]
    exact ByteMem.read32_congr (by omega) fun i hi => savedMem_of_disjoint h (by omega) (by omega)

/-! ### Continuing -/

/-- The parameter of the call. -/
def nextTask (c : Cpu) : UInt32 := c.load (c.esp + 4)

/-- **Continuing** takes five words from the stack. -/
theorem popTask_eq {e : UInt32} (he : c.esp = e) (h : k.At c.mem e.toNat)
    (hsp : e.toNat + 20 ≤ 4294967296) :
    c.popTask = { c with
      ebp := k.ebp, edi := k.edi, esi := k.esi, ebx := k.ebx, eip := k.eip
      esp := e + 20
      popped := [e + 16, e + 12, e + 8, e + 4, e] ++ c.popped } := by
  have h4 : e + 4 + 4 = e + 8 := by grind
  have h8 : e + 8 + 4 = e + 12 := by grind
  have h12 : e + 12 + 4 = e + 16 := by grind
  have h16 : e + 16 + 4 = e + 20 := by grind
  have hload : ∀ d v : UInt32, d.toNat ≤ 16 → c.mem.read32 (e.toNat + d.toNat) = v.toNat →
      UInt32.ofNat (c.mem.read32 (e + d).toNat) = v := by
    intro d v hd hv
    rw [toNat_add (by omega), hv, UInt32.ofNat_toNat]
  simp only [popTask, ret, popl, load, he, h4, h8, h12, h16, h.ebp, UInt32.ofNat_toNat,
    hload 4 k.edi (by decide) h.edi, hload 8 k.esi (by decide) h.esi,
    hload 12 k.ebx (by decide) h.ebx, hload 16 k.eip (by decide) h.eip]
  rfl

/-- The machine goes on in `k`, whose words it took from `e` on. -/
structure Continues (k : Context) (e : UInt32) (popped : List UInt32) (c : Cpu) : Prop where
  ebp : c.ebp = k.ebp
  edi : c.edi = k.edi
  esi : c.esi = k.esi
  ebx : c.ebx = k.ebx
  eip : c.eip = k.eip
  esp : c.esp = e + 20
  popped : c.popped = [e + 16, e + 12, e + 8, e + 4, e] ++ popped

theorem saveTask_nextTask (h : c.CallReady) : c.saveTask.load (c.saveTask.esp + 20) = c.nextTask := by
  have he : c.esp - 16 + 20 = c.esp + 4 := by grind
  have h4 : (c.esp + 4).toNat = c.esp.toNat + 4 :=
    toNat_add (by have := h.args; simp; omega)
  have hmem : c.savedMem.read32 (c.esp + 4).toNat = c.mem.read32 (c.esp + 4).toNat := by
    obtain ⟨hsp, hargs, ht, hap⟩ := id h
    rw [h4]
    exact ByteMem.read32_congr (by omega) fun i hi => savedMem_of_disjoint h (by omega) (by omega)
  rw [saveTask_eq h]
  dsimp only
  rw [nextTask, load, load, he, hmem]

/-- Loading changes the registers and one byte of the control block. -/
theorem loadTask_eq : ∃ eax ebx ecx cr3, c.loadTask = { c with
    eax := eax, ebx := ebx, ecx := ecx, cr3 := cr3, tssEsp0 := ebx
    esi := c.load (c.esp + 20)
    currentTaskPCB := c.load (c.esp + 20)
    esp := c.load (c.load (c.esp + 20) + pcbOffsetEsp)
    mem := c.mem.write8 (c.load (c.esp + 20) + pcbOffsetState).toNat 2 } := by
  by_cases hv : c.cr3 = c.load (c.load (c.esp + 20) + pcbOffsetCr3)
  · refine ⟨c.load (c.load (c.esp + 20) + pcbOffsetCr3),
      c.load (c.load (c.esp + 20) + pcbOffsetEsp0), c.cr3, c.cr3, ?_⟩
    exact if_pos hv
  · refine ⟨c.load (c.load (c.esp + 20) + pcbOffsetCr3),
      c.load (c.load (c.esp + 20) + pcbOffsetEsp0), c.cr3,
      c.load (c.load (c.esp + 20) + pcbOffsetCr3), ?_⟩
    exact if_neg hv

/-- **A switch** saves the caller and continues what the next task has on its stack. -/
theorem switchToTask_spec {e : UInt32} (h0 : c.postponeTaskSwitchesCounter = 0) (h : c.CallReady)
    (hn : c.nextTask.toNat + 44 ≤ 4294967296)
    (hesp : c.savedMem.read32 (c.nextTask.toNat + 4) = e.toNat) (hk : k.At c.savedMem e.toNat)
    (he : e.toNat + 20 ≤ 4294967296)
    (hap : c.nextTask.toNat + 44 ≤ e.toNat ∨ e.toNat + 20 ≤ c.nextTask.toNat) :
    c.switchToTask.Continues k e c.popped ∧ c.switchToTask.currentTaskPCB = c.nextTask ∧
      c.switchToTask.mem = c.savedMem.write8 (c.nextTask.toNat + 20) 2 := by
  obtain ⟨eax, ebx, ecx, cr3, hl⟩ := loadTask_eq (c := c.saveTask)
  have hsave := saveTask_eq h
  have hmem : c.saveTask.mem = c.savedMem := by rw [hsave]
  have hp : (c.nextTask + pcbOffsetEsp).toNat = c.nextTask.toNat + 4 :=
    toNat_add (by simp [pcbOffsetEsp]; omega)
  have hs : (c.nextTask + pcbOffsetState).toNat = c.nextTask.toNat + 20 :=
    toNat_add (by simp [pcbOffsetState]; omega)
  have hspn : c.saveTask.load (c.nextTask + pcbOffsetEsp) = e :=
    load_eq (by rw [hmem, hp]; exact hesp)
  rw [saveTask_nextTask h, hspn, hmem, hs] at hl
  have hk' : k.At c.saveTask.loadTask.mem e.toNat := by
    rw [hl]
    refine hk.congr he fun x hx hx' => ByteMem.write8_of_ne ?_
    rw [u32_of_lt (by omega)]
    omega
  have hpop := popTask_eq (c := c.saveTask.loadTask) (by rw [hl]) hk' he
  have hc : c.switchToTask = c.saveTask.loadTask.popTask := if_pos h0
  have hpopped : c.saveTask.popped = c.popped := by rw [hsave]
  rw [hc, hpop, hl]
  exact ⟨⟨rfl, rfl, rfl, rfl, rfl, rfl, by rw [hpopped]⟩, rfl, rfl⟩

/-! ### Forging -/

/-- The arguments of `_forge_kernel_stack`. -/
structure ForgeArgs where
  stackTop : UInt32
  taskFunc : UInt32
  taskStartUp : UInt32
  cleanupFunc : UInt32

def forgeArgs (c : Cpu) : ForgeArgs :=
  ⟨c.load (c.esp + argStackTopOffset), c.load (c.esp + argTaskFuncOffset),
    c.load (c.esp + argWrapperOffset), c.load (c.esp + argCleanupFuncOffset)⟩

/-- The context that a new task starts from. -/
def ForgeArgs.context (g : ForgeArgs) : Context := ⟨0, 0, 0, 0, g.taskStartUp⟩

/-- The call of `_forge_kernel_stack`: its frame is apart from the `28` bytes that it
fills. -/
structure ForgeReady (c : Cpu) : Prop where
  room : 28 ≤ c.forgeArgs.stackTop.toNat
  args : c.esp.toNat + 20 ≤ 4294967296
  apart : c.esp.toNat + 20 ≤ c.forgeArgs.stackTop.toNat - 28 ∨
    c.forgeArgs.stackTop.toNat ≤ c.esp.toNat

/-- The memory behind `_forge_kernel_stack`. -/
def ForgeArgs.mem (g : ForgeArgs) (m : ByteMem) : ByteMem :=
  ((((((m.write32 (g.stackTop.toNat - 4) g.cleanupFunc.toNat).write32 (g.stackTop.toNat - 8)
    g.taskFunc.toNat).write32 (g.stackTop.toNat - 12) g.taskStartUp.toNat).write32
    (g.stackTop.toNat - 28) 0).write32 (g.stackTop.toNat - 24) 0).write32
    (g.stackTop.toNat - 20) 0).write32 (g.stackTop.toNat - 16) 0

theorem ForgeArgs.mem_of_disjoint (g : ForgeArgs) (h : 28 ≤ g.stackTop.toNat) {x : Nat}
    (hx : x < g.stackTop.toNat - 28 ∨ g.stackTop.toNat ≤ x) : g.mem m x = m x := by
  have hlt := g.stackTop.toNat_lt
  rw [ForgeArgs.mem, ByteMem.write32_of_disjoint (by omega) (by omega),
    ByteMem.write32_of_disjoint (by omega) (by omega),
    ByteMem.write32_of_disjoint (by omega) (by omega),
    ByteMem.write32_of_disjoint (by omega) (by omega),
    ByteMem.write32_of_disjoint (by omega) (by omega),
    ByteMem.write32_of_disjoint (by omega) (by omega),
    ByteMem.write32_of_disjoint (by omega) (by omega)]

/-- The two words above the context: where `task_start_up` and the task return to. -/
theorem ForgeArgs.mem_returns (g : ForgeArgs) (h : 28 ≤ g.stackTop.toNat) :
    (g.mem m).read32 (g.stackTop.toNat - 8) = g.taskFunc.toNat ∧
      (g.mem m).read32 (g.stackTop.toNat - 4) = g.cleanupFunc.toNat := by
  have hlt := g.stackTop.toNat_lt
  have hf := g.taskFunc.toNat_lt
  have hc := g.cleanupFunc.toNat_lt
  have hword : ∀ d, d = 4 ∨ d = 8 → (g.mem m).read32 (g.stackTop.toNat - d) =
      ((m.write32 (g.stackTop.toNat - 4) g.cleanupFunc.toNat).write32 (g.stackTop.toNat - 8)
        g.taskFunc.toNat).read32 (g.stackTop.toNat - d) := by
    intro d hd
    rw [ForgeArgs.mem, ByteMem.read32_write32_of_disjoint (by omega) (by omega) (by omega),
      ByteMem.read32_write32_of_disjoint (by omega) (by omega) (by omega),
      ByteMem.read32_write32_of_disjoint (by omega) (by omega) (by omega),
      ByteMem.read32_write32_of_disjoint (by omega) (by omega) (by omega),
      ByteMem.read32_write32_of_disjoint (by omega) (by omega) (by omega)]
  constructor
  · rw [hword 8 (.inr rfl), ByteMem.read32_write32 hf]
  · rw [hword 4 (.inl rfl), ByteMem.read32_write32_of_disjoint (by omega) (by omega) (by omega),
      ByteMem.read32_write32 hc]

/-- The forged context: four zeroes and `task_start_up`. -/
theorem ForgeArgs.mem_context (g : ForgeArgs) (h : 28 ≤ g.stackTop.toNat) :
    g.context.At (g.mem m) (g.stackTop.toNat - 28) := by
  have hlt := g.stackTop.toNat_lt
  have hst := g.taskStartUp.toNat_lt
  refine ⟨?_, ?_, ?_, ?_, ?_⟩
  · rw [ForgeArgs.mem, ByteMem.read32_write32_of_disjoint (by omega) (by omega) (by omega),
      ByteMem.read32_write32_of_disjoint (by omega) (by omega) (by omega),
      ByteMem.read32_write32_of_disjoint (by omega) (by omega) (by omega),
      ByteMem.read32_write32 (by omega)]
    rfl
  · rw [ForgeArgs.mem, ByteMem.read32_write32_of_disjoint (by omega) (by omega) (by omega),
      ByteMem.read32_write32_of_disjoint (by omega) (by omega) (by omega),
      show g.stackTop.toNat - 28 + 4 = g.stackTop.toNat - 24 by omega,
      ByteMem.read32_write32 (by omega)]
    rfl
  · rw [ForgeArgs.mem, ByteMem.read32_write32_of_disjoint (by omega) (by omega) (by omega),
      show g.stackTop.toNat - 28 + 8 = g.stackTop.toNat - 20 by omega,
      ByteMem.read32_write32 (by omega)]
    rfl
  · rw [ForgeArgs.mem, show g.stackTop.toNat - 28 + 12 = g.stackTop.toNat - 16 by omega,
      ByteMem.read32_write32 (by omega)]
    rfl
  · rw [ForgeArgs.mem, ByteMem.read32_write32_of_disjoint (by omega) (by omega) (by omega),
      ByteMem.read32_write32_of_disjoint (by omega) (by omega) (by omega),
      ByteMem.read32_write32_of_disjoint (by omega) (by omega) (by omega),
      ByteMem.read32_write32_of_disjoint (by omega) (by omega) (by omega),
      show g.stackTop.toNat - 28 + 16 = g.stackTop.toNat - 12 by omega,
      ByteMem.read32_write32 hst]
    rfl

/-- **Forging** as one step. -/
theorem forgeKernelStack_eq (h : c.ForgeReady) :
    c.forgeKernelStack = { c with
      eax := c.forgeArgs.stackTop - 28
      edx := 0
      eip := c.load c.esp
      esp := c.esp + 4
      mem := c.forgeArgs.mem c.mem
      popped := c.esp :: c.popped } := by
  obtain ⟨hroom, hargs, hap⟩ := id h
  have hret : (c.forgeArgs.mem c.mem).read32 c.esp.toNat = c.mem.read32 c.esp.toNat :=
    ByteMem.read32_congr (by omega) fun i hi =>
      c.forgeArgs.mem_of_disjoint hroom (by omega)
  obtain ⟨t, f, st, cl, hg⟩ : ∃ t f st cl, c.forgeArgs = ⟨t, f, st, cl⟩ := ⟨_, _, _, _, rfl⟩
  obtain ⟨ht, hf, hst, hcl⟩ := ForgeArgs.mk.inj hg
  rw [hg] at hret hroom hap ⊢
  dsimp only at hroom hap
  have hlt := t.toNat_lt
  obtain ⟨h4, h8, h12⟩ := toNat_pushes (t := t) (by omega)
  have he : t - 4 - 4 - 4 - 16 = t - 28 := by grind
  have h28 : (t - 28).toNat = t.toNat - 28 := toNat_sub (by simp; omega)
  have h24 : (t - 28 + argStackTopOffset).toNat = t.toNat - 24 := by
    rw [toNat_add (by simp [h28, argStackTopOffset]; omega), h28]; simp [argStackTopOffset]; omega
  have h20 : (t - 28 + argTaskFuncOffset).toNat = t.toNat - 20 := by
    rw [toNat_add (by simp [h28, argTaskFuncOffset]; omega), h28]; simp [argTaskFuncOffset]; omega
  have h16 : (t - 28 + argWrapperOffset).toNat = t.toNat - 16 := by
    rw [toNat_add (by simp [h28, argWrapperOffset]; omega), h28]; simp [argWrapperOffset]; omega
  -- the arguments are read between the stores, which do not reach them
  have hargf : ∀ m : ByteMem, (m.write32 (t.toNat - 4) cl.toNat).read32
      (c.esp + argTaskFuncOffset).toNat = m.read32 (c.esp + argTaskFuncOffset).toNat := by
    intro m
    rw [toNat_add (by simp [argTaskFuncOffset]; omega)]
    exact ByteMem.read32_write32_of_disjoint (by omega) (by simp [argTaskFuncOffset]; omega)
      (by simp [argTaskFuncOffset]; omega)
  have hargs : ∀ m : ByteMem, ((m.write32 (t.toNat - 4) cl.toNat).write32 (t.toNat - 8)
      f.toNat).read32 (c.esp + argWrapperOffset).toNat
      = m.read32 (c.esp + argWrapperOffset).toNat := by
    intro m
    rw [toNat_add (by simp [argWrapperOffset]; omega),
      ByteMem.read32_write32_of_disjoint (by omega) (by simp [argWrapperOffset]; omega)
        (by simp [argWrapperOffset]; omega)]
    exact ByteMem.read32_write32_of_disjoint (by omega) (by simp [argWrapperOffset]; omega)
      (by simp [argWrapperOffset]; omega)
  rw [load] at ht hf hst hcl
  simp only [forgeKernelStack, forgeWord, store, ret, popl, load, ht, hcl, h4, hargf, hf, h8, hargs,
    hst, h12, he, h28, h24, h20, h16, UInt32.toNat_zero]
  rw [← hret]
  rfl

end Cpu

end ChoOS
