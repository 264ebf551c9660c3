import Mathlib.Logic.Function.Basic
import ChoOS.Lib.Trace
import ChoOS.Sched.Switch

/-!
# Tasks on their own stacks

Any number of tasks share one processor.  Each has a control block and a stack,
and all of these are apart (`Layout`).  A task runs until it calls
`_switch_to_task`; while it runs it may change every register and all of the
memory except the stacks of the others and the `esp` fields of the control
blocks (`Own`).  `create` is the call of `_forge_kernel_stack` with the store of
its result in `new_task->esp`, and `free` gives the memory of a task back.

A new task enters `task_start_up` with two return addresses above it.  `Phase`
is the function that it is in; such a function leaves the words above its own
return address alone, and `ret` is its return.

`Suspended` is what the memory says about a task that does not run: the `esp`
field leads to the context of its last call, or to the forged one.  It only
looks at the stack and the `esp` field of that task, so `Suspended.congr` keeps
it for all of the others.  `SwitchStep.inv` is the step lemma and
`context_switch` says where a switch and a return lead.
-/

namespace ChoOS

open Cpu

/-- The function at the bottom of the stack of a task. -/
inductive Phase
  | startUp
  | func
  | cleanup
  deriving DecidableEq

def Phase.next : Phase → Phase
  | startUp => func
  | func => cleanup
  | cleanup => cleanup

/-- A task: its stack, the call of `_forge_kernel_stack` that made it, and the
machine at the entry of its last call of `_switch_to_task`. -/
structure KernelTask where
  base : Nat
  top : Nat
  forged : Option ForgeArgs
  phase : Phase
  lastCall : Option Cpu

/-- The words from here on belong to the callers of the function of the phase. -/
def KernelTask.floor (r : KernelTask) : Nat :=
  match r.phase with
  | .startUp => r.top - 8
  | .func => r.top - 4
  | .cleanup => r.top

/-- The context that the task continues with, and where it stands. -/
def KernelTask.saved (r : KernelTask) : Option (Context × UInt32) :=
  match r.lastCall, r.forged with
  | some c, _ => some (c.context, c.esp - 16)
  | none, some g => some (g.context, g.stackTop - 28)
  | none, none => none

/-- The task that `_forge_kernel_stack` makes. -/
def KernelTask.new (base : Nat) (g : ForgeArgs) : KernelTask :=
  { base := base, top := g.stackTop.toNat, forged := some g, phase := .startUp, lastCall := none }

abbrev TaskTable := UInt32 → Option KernelTask

/-- **The memory of the tasks.** -/
structure Layout (tasks : TaskTable) : Prop where
  block : ∀ {t r}, tasks t = some r → t.toNat + 44 ≤ 4294967296
  stack : ∀ {t r}, tasks t = some r → r.base ≤ r.top ∧ r.top < 4294967296
  blocks : ∀ {t r t' r'}, tasks t = some r → tasks t' = some r' → t ≠ t' →
    t.toNat + 44 ≤ t'.toNat ∨ t'.toNat + 44 ≤ t.toNat
  blockStack : ∀ {t r t' r'}, tasks t = some r → tasks t' = some r' →
    t.toNat + 44 ≤ r'.base ∨ r'.top ≤ t.toNat
  stacksApart : ∀ {t r t' r'}, tasks t = some r → tasks t' = some r' → t ≠ t' →
    r.top ≤ r'.base ∨ r'.top ≤ r.base

structure Switching where
  cpu : Cpu
  tasks : TaskTable

namespace Switching

/-- The memory that the running task `r` may not change. -/
structure Own (s : Switching) (r : KernelTask) (c : Cpu) : Prop where
  current : c.currentTaskPCB = s.cpu.currentTaskPCB
  others : ∀ t r', s.tasks t = some r' → t ≠ s.cpu.currentTaskPCB →
    ∀ x, r'.base ≤ x → x < r'.top → c.mem x = s.cpu.mem x
  esps : ∀ t r', s.tasks t = some r' →
    ∀ x, t.toNat + 4 ≤ x → x < t.toNat + 8 → c.mem x = s.cpu.mem x
  callers : ∀ x, r.floor ≤ x → x < r.top → c.mem x = s.cpu.mem x

/-- One task runs, on the stack of the boot code. -/
structure Booted (s : Switching) : Prop where
  layout : Layout s.tasks
  running : ∃ r, s.tasks s.cpu.currentTaskPCB = some r
  alone : ∀ t r, s.tasks t = some r →
    t = s.cpu.currentTaskPCB ∧ r.forged = none ∧ r.phase = .cleanup

end Switching

inductive SwitchEvent
  | work (c : Cpu)
  | switch
  | create (newTask : UInt32) (stackBase : Nat)
  | ret
  | free (task : UInt32)

inductive SwitchStep : Switching → SwitchEvent → Switching → Prop
  | work {s : Switching} {r : KernelTask} {c : Cpu} :
      s.tasks s.cpu.currentTaskPCB = some r → s.Own r c → SwitchStep s (.work c) { s with cpu := c }
  | switch {s : Switching} {r : KernelTask} : s.tasks s.cpu.currentTaskPCB = some r →
      s.cpu.postponeTaskSwitchesCounter = 0 →
      r.base + 16 ≤ s.cpu.esp.toNat → s.cpu.esp.toNat + 8 ≤ r.floor →
      (∃ r', s.tasks s.cpu.nextTask = some r') →
      SwitchStep s .switch
        ⟨s.cpu.switchToTask, Function.update s.tasks s.cpu.currentTaskPCB
          (some { r with lastCall := some s.cpu })⟩
  | create {s : Switching} {r : KernelTask} {t : UInt32} {base : Nat} :
      s.tasks s.cpu.currentTaskPCB = some r →
      r.base ≤ s.cpu.esp.toNat → s.cpu.esp.toNat + 20 ≤ r.floor →
      s.tasks t = none → base + 28 ≤ s.cpu.forgeArgs.stackTop.toNat →
      Layout (Function.update s.tasks t (some (.new base s.cpu.forgeArgs))) →
      SwitchStep s (.create t base)
        ⟨s.cpu.forgeKernelStack.store (t + pcbOffsetEsp) s.cpu.forgeKernelStack.eax,
          Function.update s.tasks t (some (.new base s.cpu.forgeArgs))⟩
  | ret {s : Switching} {r : KernelTask} : s.tasks s.cpu.currentTaskPCB = some r →
      r.phase ≠ .cleanup → s.cpu.esp.toNat = r.floor →
      SwitchStep s .ret ⟨s.cpu.ret, Function.update s.tasks s.cpu.currentTaskPCB
        (some { r with phase := r.phase.next })⟩
  | free {s : Switching} {t : UInt32} : t ≠ s.cpu.currentTaskPCB →
      SwitchStep s (.free t) { s with tasks := Function.update s.tasks t none }

/-! ### The invariant -/

variable {s s' : Switching} {m m' : ByteMem} {t : UInt32} {r : KernelTask}

theorem KernelTask.floor_le (r : KernelTask) : r.floor ≤ r.top := by
  unfold floor
  split <;> omega

/-- The memory leads from the control block of `t` to the context of its last call. -/
def Suspended (m : ByteMem) (t : UInt32) (r : KernelTask) : Prop :=
  ∃ k e, r.saved = some (k, e) ∧ m.read32 (t.toNat + 4) = e.toNat ∧ k.At m e.toNat ∧
    r.base ≤ e.toNat ∧ e.toNat + 20 ≤ r.floor

/-- The return addresses above the function that the task is in. -/
structure Returns (m : ByteMem) (r : KernelTask) : Prop where
  boot : r.forged = none → r.phase = .cleanup
  room : ∀ g, r.forged = some g → g.stackTop.toNat = r.top ∧ r.base + 28 ≤ r.top
  startUp : ∀ g, r.forged = some g → r.phase = .startUp →
    m.read32 (r.top - 8) = g.taskFunc.toNat
  func : ∀ g, r.forged = some g → r.phase ≠ .cleanup → m.read32 (r.top - 4) = g.cleanupFunc.toNat

theorem TaskTable.update_cases {tasks : TaskTable} {t₀ : UInt32} {r₀ r' : KernelTask}
    (h : Function.update tasks t₀ (some r₀) t = some r') :
    (t = t₀ ∧ r' = r₀) ∨ (t ≠ t₀ ∧ tasks t = some r') := by
  by_cases hne : t = t₀
  · subst hne
    rw [Function.update_self] at h
    exact .inl ⟨rfl, (Option.some.inj h).symm⟩
  · rw [Function.update_of_ne hne] at h
    exact .inr ⟨hne, h⟩

theorem Suspended.congr (h : Suspended m t r) (ht : t.toNat + 44 ≤ 4294967296)
    (hr : r.top < 4294967296) (hesp : ∀ x, t.toNat + 4 ≤ x → x < t.toNat + 8 → m' x = m x)
    (hstack : ∀ x, r.base ≤ x → x < r.top → m' x = m x) : Suspended m' t r := by
  obtain ⟨k, e, hk, he, hat, hlo, hhi⟩ := h
  have hfloor := r.floor_le
  refine ⟨k, e, hk, ?_, hat.congr (by omega) fun x hx hx' => hstack x (by omega) (by omega),
    hlo, hhi⟩
  rw [← he]
  exact ByteMem.read32_congr (by omega) fun i hi => hesp _ (by omega) (by omega)

theorem Returns.congr (h : Returns m r) (hr : r.top < 4294967296)
    (hm : ∀ x, r.base ≤ x → r.floor ≤ x → x < r.top → m' x = m x) : Returns m' r := by
  refine ⟨h.boot, h.room, fun g hg hp => ?_, fun g hg hp => ?_⟩
  · have hroom := (h.room g hg).2
    have hfloor : r.floor = r.top - 8 := by rw [KernelTask.floor, hp]
    rw [← h.startUp g hg hp]
    exact ByteMem.read32_congr (by omega) fun i hi => hm _ (by omega) (by omega) (by omega)
  · have hroom := (h.room g hg).2
    have hfloor : r.floor ≤ r.top - 4 := by
      unfold KernelTask.floor
      split <;> first | omega | contradiction
    rw [← h.func g hg hp]
    exact ByteMem.read32_congr (by omega) fun i hi => hm _ (by omega) (by omega) (by omega)

/-- **The invariant of switching.** -/
structure Switching.Inv (s : Switching) : Prop where
  layout : Layout s.tasks
  running : ∃ r, s.tasks s.cpu.currentTaskPCB = some r
  suspended : ∀ t r, s.tasks t = some r → t ≠ s.cpu.currentTaskPCB → Suspended s.cpu.mem t r
  returns : ∀ t r, s.tasks t = some r → Returns s.cpu.mem r
  fresh : ∀ t r, s.tasks t = some r → t ≠ s.cpu.currentTaskPCB → r.lastCall = none →
    r.phase = .startUp

theorem Switching.Booted.inv (h : s.Booted) : s.Inv where
  layout := h.layout
  running := h.running
  suspended t r ht hne := absurd (h.alone t r ht).1 hne
  returns t r ht := by
    obtain ⟨-, hf, hp⟩ := h.alone t r ht
    exact ⟨fun _ => hp, fun g hg => by simp [hf] at hg, fun g hg => by simp [hf] at hg,
      fun g hg => by simp [hf] at hg⟩
  fresh t r ht hne := absurd (h.alone t r ht).1 hne

/-! ### The steps -/

theorem Switching.Inv.work {c : Cpu} (hI : s.Inv) (hr : s.tasks s.cpu.currentTaskPCB = some r)
    (ho : s.Own r c) : Switching.Inv { s with cpu := c } where
  layout := hI.layout
  running := ⟨r, by rw [← hr, ← ho.current]⟩
  suspended t r' ht hne := by
    have hne' : t ≠ s.cpu.currentTaskPCB := ho.current ▸ hne
    exact (hI.suspended t r' ht hne').congr (hI.layout.block ht) (hI.layout.stack ht).2
      (ho.esps t r' ht) (ho.others t r' ht hne')
  returns t r' ht := by
    refine (hI.returns t r' ht).congr (hI.layout.stack ht).2 fun x hlo hx hx' => ?_
    by_cases hne : t = s.cpu.currentTaskPCB
    · obtain rfl : r = r' := Option.some.inj (hr.symm.trans (hne ▸ ht))
      exact ho.callers x hx hx'
    · exact ho.others t r' ht hne x hlo hx'
  fresh t r' ht hne := hI.fresh t r' ht (ho.current ▸ hne)

theorem Switching.Inv.callReady (hI : s.Inv) (hr : s.tasks s.cpu.currentTaskPCB = some r)
    (hlo : r.base + 16 ≤ s.cpu.esp.toNat) (hhi : s.cpu.esp.toNat + 8 ≤ r.floor) :
    s.cpu.CallReady := by
  have hfloor := r.floor_le
  have hblock := hI.layout.block hr
  have hstack := hI.layout.stack hr
  have happ := hI.layout.blockStack hr hr
  exact ⟨by omega, by omega, hblock, by omega⟩

/-- The task table when the running task has called `_switch_to_task`. -/
def Switching.called (s : Switching) (r : KernelTask) : TaskTable :=
  Function.update s.tasks s.cpu.currentTaskPCB (some { r with lastCall := some s.cpu })

theorem Switching.called_of_task (r : KernelTask) (h : ∃ r', s.tasks t = some r') :
    ∃ r', s.called r t = some r' := by
  by_cases hself : t = s.cpu.currentTaskPCB
  · exact ⟨_, by rw [hself, called, Function.update_self]⟩
  · obtain ⟨r', hr'⟩ := h
    exact ⟨r', by rw [called, Function.update_of_ne hself, hr']⟩

theorem Layout.congr {tasks tasks' : TaskTable} (h : Layout tasks)
    (hsame : ∀ t r', tasks' t = some r' → ∃ r, tasks t = some r ∧ r.base = r'.base ∧ r.top = r'.top) :
    Layout tasks' where
  block ht := by
    obtain ⟨r, hr, -, -⟩ := hsame _ _ ht
    exact h.block hr
  stack ht := by
    obtain ⟨r, hr, hb, ht⟩ := hsame _ _ ht
    exact hb ▸ ht ▸ h.stack hr
  blocks ht ht' hne := by
    obtain ⟨r, hr, -, -⟩ := hsame _ _ ht
    obtain ⟨r', hr', -, -⟩ := hsame _ _ ht'
    exact h.blocks hr hr' hne
  blockStack ht ht' := by
    obtain ⟨r, hr, -, -⟩ := hsame _ _ ht
    obtain ⟨r', hr', hb', ht'⟩ := hsame _ _ ht'
    exact hb' ▸ ht' ▸ h.blockStack hr hr'
  stacksApart ht ht' hne := by
    obtain ⟨r, hr, hb, ht⟩ := hsame _ _ ht
    obtain ⟨r', hr', hb', ht'⟩ := hsame _ _ ht'
    exact hb ▸ ht ▸ hb' ▸ ht' ▸ h.stacksApart hr hr' hne

/-- **Saving suspends the caller** and nobody else notices. -/
theorem Switching.Inv.called_suspended (hI : s.Inv)
    (hr : s.tasks s.cpu.currentTaskPCB = some r) (hlo : r.base + 16 ≤ s.cpu.esp.toNat)
    (hhi : s.cpu.esp.toNat + 8 ≤ r.floor) {r' : KernelTask} (ht : s.called r t = some r') :
    Suspended s.cpu.savedMem t r' := by
  have hready := hI.callReady hr hlo hhi
  have hfloor := r.floor_le
  obtain ⟨rfl, rfl⟩ | ⟨hne, ht⟩ := TaskTable.update_cases ht
  · refine ⟨s.cpu.context, s.cpu.esp - 16, rfl, ?_⟩
    rw [toNat_esp_sub hready]
    have hf : ({ r with lastCall := some s.cpu } : KernelTask).floor = r.floor := rfl
    exact ⟨savedMem_esp hready, savedMem_context hready, by dsimp only; omega, by omega⟩
  · have hblock := hI.layout.block ht
    have hstack := hI.layout.stack ht
    have h₁ := hI.layout.blocks hr ht (Ne.symm hne)
    have h₂ := hI.layout.blockStack hr ht
    have h₃ := hI.layout.blockStack ht hr
    have h₄ := hI.layout.stacksApart hr ht (Ne.symm hne)
    refine (hI.suspended t r' ht hne).congr hblock hstack.2 (fun x hx hx' => ?_)
      fun x hx hx' => ?_
    · exact savedMem_of_disjoint hready (by omega) (by omega)
    · exact savedMem_of_disjoint hready (by omega) (by omega)

theorem Switching.Inv.called_layout (hI : s.Inv)
    (hr : s.tasks s.cpu.currentTaskPCB = some r) : Layout (s.called r) := by
  refine hI.layout.congr fun t r' ht => ?_
  obtain ⟨rfl, rfl⟩ | ⟨-, ht⟩ := TaskTable.update_cases ht
  · exact ⟨r, hr, rfl, rfl⟩
  · exact ⟨r', ht, rfl, rfl⟩

/-- **A switch** continues the context that the next task saved, or the forged one. -/
theorem Switching.Inv.switchToTask (hI : s.Inv) (hr : s.tasks s.cpu.currentTaskPCB = some r)
    (h0 : s.cpu.postponeTaskSwitchesCounter = 0) (hlo : r.base + 16 ≤ s.cpu.esp.toNat)
    (hhi : s.cpu.esp.toNat + 8 ≤ r.floor) {r' : KernelTask}
    (hn : s.called r s.cpu.nextTask = some r') :
    ∃ k e, r'.saved = some (k, e) ∧ s.cpu.switchToTask.Continues k e s.cpu.popped ∧
      s.cpu.switchToTask.currentTaskPCB = s.cpu.nextTask ∧
      s.cpu.switchToTask.mem = s.cpu.savedMem.write8 (s.cpu.nextTask.toNat + 20) 2 := by
  obtain ⟨k, e, hk, he, hat, hb, hf⟩ := hI.called_suspended hr hlo hhi hn
  have hlayout := hI.called_layout hr
  have hblock := hlayout.block hn
  have hstack := hlayout.stack hn
  have happ := hlayout.blockStack hn hn
  have hfloor := r'.floor_le
  exact ⟨k, e, hk, switchToTask_spec h0 (hI.callReady hr hlo hhi) hblock he hat (by omega)
    (by omega)⟩

theorem Switching.Inv.switch (hI : s.Inv) (hr : s.tasks s.cpu.currentTaskPCB = some r)
    (h0 : s.cpu.postponeTaskSwitchesCounter = 0) (hlo : r.base + 16 ≤ s.cpu.esp.toNat)
    (hhi : s.cpu.esp.toNat + 8 ≤ r.floor) (hn : ∃ r', s.tasks s.cpu.nextTask = some r') :
    Switching.Inv ⟨s.cpu.switchToTask, s.called r⟩ := by
  have hlayout := hI.called_layout hr
  have hready := hI.callReady hr hlo hhi
  obtain ⟨rn, hn⟩ := called_of_task r hn
  obtain ⟨-, -, -, -, hcur, hmem⟩ := hI.switchToTask hr h0 hlo hhi hn
  have hnblock := hlayout.block hn
  -- the state of the next task is in no stack and in no `esp` field
  have hstate : ∀ x, x ≠ s.cpu.nextTask.toNat + 20 → s.cpu.switchToTask.mem x = s.cpu.savedMem x := by
    intro x hx
    rw [hmem]
    refine ByteMem.write8_of_ne ?_
    rwa [u32_of_lt (by omega)]
  refine ⟨hlayout, ⟨rn, by rw [hcur]; exact hn⟩, fun t r' ht hne => ?_, fun t r' ht => ?_,
    fun t r' ht hne hnone => ?_⟩
  · have h₁ := hlayout.blockStack hn ht
    have h₂ : t.toNat + 44 ≤ s.cpu.nextTask.toNat ∨ s.cpu.nextTask.toNat + 44 ≤ t.toNat :=
      hlayout.blocks ht hn (hcur ▸ hne)
    exact (hI.called_suspended hr hlo hhi ht).congr (hlayout.block ht) (hlayout.stack ht).2
      (fun x hx hx' => hstate x (by omega)) fun x hx hx' => hstate x (by omega)
  · have h₁ := hlayout.blockStack hn ht
    have hfloor := r.floor_le
    obtain ⟨rfl, rfl⟩ | ⟨hne, ht'⟩ := TaskTable.update_cases ht
    · have hret : Returns s.cpu.mem { r with lastCall := some s.cpu } :=
        ⟨(hI.returns _ r hr).boot, (hI.returns _ r hr).room, (hI.returns _ r hr).startUp,
          (hI.returns _ r hr).func⟩
      have hb := hlayout.blockStack ht ht
      refine hret.congr (hlayout.stack ht).2 fun x hx hf hx' => ?_
      have hf' : r.floor ≤ x := hf
      dsimp only at hb hx hx' h₁
      rw [hstate x (by omega), savedMem_of_disjoint hready (by omega) (by omega)]
    · have h₂ := hI.layout.stacksApart hr ht' (Ne.symm hne)
      have h₃ := hI.layout.blockStack hr ht'
      refine (hI.returns t r' ht').congr (hlayout.stack ht).2 fun x hx hf hx' => ?_
      rw [hstate x (by omega), savedMem_of_disjoint hready (by omega) (by omega)]
  · obtain ⟨rfl, rfl⟩ | ⟨hne', ht'⟩ := TaskTable.update_cases ht
    · simp at hnone
    · exact hI.fresh t r' ht' hne' hnone

/-- A return takes its address from the stack and changes no byte. -/
theorem Switching.Inv.ret (hI : s.Inv) (hr : s.tasks s.cpu.currentTaskPCB = some r)
    (hp : r.phase ≠ .cleanup) : Switching.Inv ⟨s.cpu.ret,
      Function.update s.tasks s.cpu.currentTaskPCB (some { r with phase := r.phase.next })⟩ := by
  have hret := hI.returns _ r hr
  refine ⟨?_, ⟨_, Function.update_self ..⟩, fun t r' ht hne => ?_, fun t r' ht => ?_,
    fun t r' ht hne hnone => ?_⟩
  · refine hI.layout.congr fun t r' ht => ?_
    obtain ⟨rfl, rfl⟩ | ⟨-, ht⟩ := TaskTable.update_cases ht
    · exact ⟨r, hr, rfl, rfl⟩
    · exact ⟨r', ht, rfl, rfl⟩
  · obtain ⟨rfl, -⟩ | ⟨hne', ht⟩ := TaskTable.update_cases ht
    · exact absurd rfl hne
    · exact hI.suspended t r' ht hne'
  · obtain ⟨-, rfl⟩ | ⟨-, ht⟩ := TaskTable.update_cases ht
    · refine ⟨fun hg => absurd (hret.boot hg) hp, hret.room, fun g hg hstart => ?_,
        fun g hg _ => hret.func g hg hp⟩
      -- nothing returns to `task_start_up`
      cases hph : r.phase <;> simp [hph, Phase.next] at hstart
    · exact hI.returns t r' ht
  · obtain ⟨rfl, -⟩ | ⟨hne', ht⟩ := TaskTable.update_cases ht
    · exact absurd rfl hne
    · exact hI.fresh t r' ht hne' hnone

theorem Switching.Inv.free (hI : s.Inv) (ht : t ≠ s.cpu.currentTaskPCB) :
    Switching.Inv { s with tasks := Function.update s.tasks t none } := by
  have hold : ∀ {t' r'}, Function.update s.tasks t none t' = some r' → s.tasks t' = some r' := by
    intro t' r' h
    by_cases hne : t' = t
    · subst hne
      rw [Function.update_self] at h
      cases h
    · rwa [Function.update_of_ne hne] at h
  obtain ⟨r, hr⟩ := hI.running
  exact ⟨hI.layout.congr fun t' r' h => ⟨r', hold h, rfl, rfl⟩,
    ⟨r, (Function.update_of_ne (Ne.symm ht) ..).trans hr⟩,
    fun t' r' h => hI.suspended t' r' (hold h), fun t' r' h => hI.returns t' r' (hold h),
    fun t' r' h => hI.fresh t' r' (hold h)⟩

/-- The memory behind the call of `_forge_kernel_stack` and the store of its result. -/
def Cpu.createdMem (c : Cpu) (t : UInt32) : ByteMem :=
  (c.forgeArgs.mem c.mem).write32 (t.toNat + 4) (c.forgeArgs.stackTop - 28).toNat

/-- **A new task** is suspended in its forged context. -/
theorem Cpu.createdMem_suspended {c : Cpu} {base : Nat} (ht : t.toNat + 44 ≤ 4294967296)
    (hroom : base + 28 ≤ c.forgeArgs.stackTop.toNat)
    (happ : t.toNat + 44 ≤ base ∨ c.forgeArgs.stackTop.toNat ≤ t.toNat) :
    Suspended (c.createdMem t) t (.new base c.forgeArgs) ∧
      Returns (c.createdMem t) (.new base c.forgeArgs) := by
  have hlt := c.forgeArgs.stackTop.toNat_lt
  have h28 : (c.forgeArgs.stackTop - 28).toNat = c.forgeArgs.stackTop.toNat - 28 :=
    toNat_sub (by simp; omega)
  have hmem : ∀ x, base ≤ x → x < c.forgeArgs.stackTop.toNat →
      c.createdMem t x = c.forgeArgs.mem c.mem x :=
    fun x hx hx' => ByteMem.write32_of_disjoint (by omega) (by omega)
  constructor
  · refine ⟨c.forgeArgs.context, c.forgeArgs.stackTop - 28, rfl, ?_, ?_, ?_, ?_⟩
    · exact ByteMem.read32_write32 (by omega)
    · rw [h28]
      exact (c.forgeArgs.mem_context (by omega)).congr (by omega)
        fun x hx hx' => hmem x (by omega) (by omega)
    · rw [h28]
      exact Nat.le_sub_of_add_le hroom
    · rw [h28]
      show c.forgeArgs.stackTop.toNat - 28 + 20 ≤ c.forgeArgs.stackTop.toNat - 8
      omega
  · obtain ⟨hf, hc⟩ := c.forgeArgs.mem_returns (m := c.mem) (by omega)
    have hret : Returns (c.forgeArgs.mem c.mem) (.new base c.forgeArgs) := by
      refine ⟨fun h => absurd h (by simp [KernelTask.new]), fun g hg => ?_, fun g hg _ => ?_, fun g hg _ => ?_⟩
      · obtain rfl := Option.some.inj hg
        exact ⟨rfl, hroom⟩
      · obtain rfl := Option.some.inj hg
        exact hf
      · obtain rfl := Option.some.inj hg
        exact hc
    exact hret.congr hlt fun x hb _ hx => hmem x hb hx

theorem Switching.Inv.create {base : Nat} (hI : s.Inv)
    (hr : s.tasks s.cpu.currentTaskPCB = some r) (hlo : r.base ≤ s.cpu.esp.toNat)
    (hhi : s.cpu.esp.toNat + 20 ≤ r.floor) (ht : s.tasks t = none)
    (hroom : base + 28 ≤ s.cpu.forgeArgs.stackTop.toNat)
    (hlayout : Layout (Function.update s.tasks t (some (.new base s.cpu.forgeArgs)))) :
    Switching.Inv ⟨s.cpu.forgeKernelStack.store (t + pcbOffsetEsp) s.cpu.forgeKernelStack.eax,
      Function.update s.tasks t (some (.new base s.cpu.forgeArgs))⟩ := by
  have hfloor := r.floor_le
  have hne : s.cpu.currentTaskPCB ≠ t := by
    rintro rfl
    rw [hr] at ht
    cases ht
  have hold : ∀ {t' r'}, s.tasks t' = some r' →
      Function.update s.tasks t (some (.new base s.cpu.forgeArgs)) t' = some r' := by
    intro t' r' h
    rw [Function.update_of_ne _, h]
    rintro rfl
    rw [h] at ht
    cases ht
  have hnew : Function.update s.tasks t (some (.new base s.cpu.forgeArgs)) t = some _ :=
    Function.update_self ..
  have hblock := hlayout.block hnew
  have happ := hlayout.blockStack hnew hnew
  have hforge : s.cpu.ForgeReady := by
    have h₁ := hlayout.stacksApart (hold hr) hnew hne
    have h₂ := hlayout.stack (hold hr)
    dsimp only [KernelTask.new] at h₁
    exact ⟨by omega, by omega, by omega⟩
  have hcpu := forgeKernelStack_eq hforge
  have hesp : (t + pcbOffsetEsp).toNat = t.toNat + 4 := toNat_add (by simp [pcbOffsetEsp]; omega)
  have hmem : (s.cpu.forgeKernelStack.store (t + pcbOffsetEsp) s.cpu.forgeKernelStack.eax).mem
      = s.cpu.createdMem t := by
    rw [hcpu, store, hesp, createdMem]
  have hcur : (s.cpu.forgeKernelStack.store (t + pcbOffsetEsp)
      s.cpu.forgeKernelStack.eax).currentTaskPCB = s.cpu.currentTaskPCB := by rw [hcpu, store]
  obtain ⟨hs, hret⟩ := createdMem_suspended (c := s.cpu) hblock hroom happ
  -- no byte of the tasks that exist is touched
  have hstack : ∀ {t' r'}, s.tasks t' = some r' → ∀ x, r'.base ≤ x → x < r'.top →
      s.cpu.createdMem t x = s.cpu.mem x := by
    intro t' r' h x hx hx'
    have hne' : t' ≠ t := by rintro rfl; rw [h] at ht; cases ht
    have h₁ := hlayout.blockStack hnew (hold h)
    have h₂ := hlayout.stacksApart (hold h) hnew hne'
    dsimp only [KernelTask.new] at h₂
    rw [createdMem, ByteMem.write32_of_disjoint (by omega) (by omega)]
    exact s.cpu.forgeArgs.mem_of_disjoint (by omega) (by omega)
  have hfield : ∀ {t' r'}, s.tasks t' = some r' → ∀ x, t'.toNat + 4 ≤ x → x < t'.toNat + 8 →
      s.cpu.createdMem t x = s.cpu.mem x := by
    intro t' r' h x hx hx'
    have hne' : t' ≠ t := by rintro rfl; rw [h] at ht; cases ht
    have h₁ := hlayout.blocks (hold h) hnew hne'
    have h₂ := hlayout.blockStack (hold h) hnew
    dsimp only [KernelTask.new] at h₂
    rw [createdMem, ByteMem.write32_of_disjoint (by omega) (by omega)]
    exact s.cpu.forgeArgs.mem_of_disjoint (by omega) (by omega)
  refine ⟨hlayout, ⟨r, by rw [hcur]; exact hold hr⟩, fun t' r' h hne' => ?_, fun t' r' h => ?_,
    fun t' r' h hne' hnone => ?_⟩
  · dsimp only at hne' ⊢
    rw [hcur] at hne'
    rw [hmem]
    obtain ⟨rfl, rfl⟩ | ⟨-, h⟩ := TaskTable.update_cases h
    · exact hs
    · exact (hI.suspended t' r' h hne').congr (hI.layout.block h) (hI.layout.stack h).2
        (hfield h) (hstack h)
  · dsimp only
    rw [hmem]
    obtain ⟨-, rfl⟩ | ⟨-, h⟩ := TaskTable.update_cases h
    · exact hret
    · exact (hI.returns t' r' h).congr (hI.layout.stack h).2 fun x hx _ => hstack h x hx
  · dsimp only at hne'
    rw [hcur] at hne'
    obtain ⟨-, rfl⟩ | ⟨-, h⟩ := TaskTable.update_cases h
    · rfl
    · exact hI.fresh t' r' h hne' hnone

theorem SwitchStep.inv {e : SwitchEvent} (h : SwitchStep s e s') (hI : s.Inv) : s'.Inv := by
  cases h with
  | work hr ho => exact hI.work hr ho
  | switch hr h0 hlo hhi hn => exact hI.switch hr h0 hlo hhi hn
  | create hr hlo hhi ht hroom hlayout => exact hI.create hr hlo hhi ht hroom hlayout
  | ret hr hp _ => exact hI.ret hr hp
  | free ht => exact hI.free ht

/-! ### Where a switch leads -/

/-- `_switch_to_task`, called in the first state, has returned in the second. -/
structure Cpu.Resumed (c c' : Cpu) : Prop where
  eip : c'.eip = c.load c.esp
  esp : c'.esp = c.esp + 4
  ebx : c'.ebx = c.ebx
  esi : c'.esi = c.esi
  edi : c'.edi = c.edi
  ebp : c'.ebp = c.ebp

/-- The words popped between two states lie in the forged frame. -/
def Cpu.ForgeArgs.PopsFrame (g : ForgeArgs) (c c' : Cpu) : Prop :=
  ∃ l, c'.popped = l ++ c.popped ∧
    ∀ a ∈ l, g.stackTop.toNat - 28 ≤ a.toNat ∧ a.toNat + 4 ≤ g.stackTop.toNat

/-- A new task enters `task_start_up`. -/
structure Cpu.ForgeArgs.Started (g : ForgeArgs) (c c' : Cpu) : Prop where
  eip : c'.eip = g.taskStartUp
  esp : c'.esp = g.stackTop - 8
  ebx : c'.ebx = 0
  esi : c'.esi = 0
  edi : c'.edi = 0
  ebp : c'.ebp = 0
  pops : g.PopsFrame c c'

theorem Cpu.Continues.resumed {c c' : Cpu} {l : List UInt32}
    (h : c'.Continues c.context (c.esp - 16) l) : c.Resumed c' := by
  refine ⟨h.eip, ?_, h.ebx, h.esi, h.edi, h.ebp⟩
  rw [h.esp]
  grind

theorem Cpu.Continues.started {g : ForgeArgs} {c c' : Cpu} (hg : 28 ≤ g.stackTop.toNat)
    (h : c'.Continues g.context (g.stackTop - 28) c.popped) : g.Started c c' := by
  refine ⟨h.eip, ?_, h.ebx, h.esi, h.edi, h.ebp, _, h.popped, ?_⟩
  · rw [h.esp]
    grind
  · have hlt := g.stackTop.toNat_lt
    have h28 : (g.stackTop - 28).toNat = g.stackTop.toNat - 28 := toNat_sub (by simpa using hg)
    have hadd : ∀ d : UInt32, d.toNat ≤ 16 →
        (g.stackTop - 28 + d).toNat = g.stackTop.toNat - 28 + d.toNat := by
      intro d hd
      rw [toNat_add (by omega), h28]
    have hbound : ∀ d : UInt32, d.toNat ≤ 16 → g.stackTop.toNat - 28 ≤ (g.stackTop - 28 + d).toNat ∧
        (g.stackTop - 28 + d).toNat + 4 ≤ g.stackTop.toNat := by
      intro d hd
      rw [hadd d hd]
      omega
    intro a ha
    simp only [List.mem_cons, List.not_mem_nil, or_false] at ha
    obtain rfl | rfl | rfl | rfl | rfl := ha
    · exact hbound 16 (by decide)
    · exact hbound 12 (by decide)
    · exact hbound 8 (by decide)
    · exact hbound 4 (by decide)
    · omega

/-- A return pops the address that the forged frame holds for the phase. -/
theorem Switching.Inv.ret_leads (hI : s.Inv) (hr : s.tasks s.cpu.currentTaskPCB = some r)
    (hp : r.phase ≠ .cleanup) (hesp : s.cpu.esp.toNat = r.floor) :
    ∃ g, r.forged = some g ∧ g.PopsFrame s.cpu s.cpu.ret ∧
      (r.phase = .startUp → s.cpu.ret.eip = g.taskFunc ∧ s.cpu.ret.esp = g.stackTop - 4) ∧
      (r.phase = .func → s.cpu.ret.eip = g.cleanupFunc ∧ s.cpu.ret.esp = g.stackTop) := by
  have hret := hI.returns _ r hr
  obtain ⟨g, hg⟩ : ∃ g, r.forged = some g := by
    rw [← Option.ne_none_iff_exists']
    exact fun hnone => hp (hret.boot hnone)
  obtain ⟨htop, hroom⟩ := hret.room g hg
  have hlt := g.stackTop.toNat_lt
  have hat : ∀ d : UInt32, d.toNat ≤ 8 → s.cpu.esp.toNat = r.top - d.toNat →
      s.cpu.esp = g.stackTop - d := by
    intro d hd he
    rw [← UInt32.toNat_inj, toNat_sub (by omega), he, htop]
  have hbounds : r.top - 8 ≤ r.floor ∧ r.floor + 4 ≤ r.top := by
    unfold KernelTask.floor
    split
    · omega
    · omega
    · contradiction
  refine ⟨g, hg, ⟨[s.cpu.esp], rfl, fun a ha => ?_⟩, fun hph => ?_, fun hph => ?_⟩
  · obtain rfl := List.mem_singleton.mp ha
    omega
  · have he : s.cpu.esp.toNat = r.top - 8 := by rw [hesp, KernelTask.floor, hph]
    refine ⟨load_eq (by rw [he]; exact hret.startUp g hg hph), ?_⟩
    show s.cpu.esp + 4 = _
    rw [hat 8 (by decide) he]
    grind
  · have he : s.cpu.esp.toNat = r.top - 4 := by rw [hesp, KernelTask.floor, hph]
    refine ⟨load_eq (by rw [he]; exact hret.func g hg hp), ?_⟩
    show s.cpu.esp + 4 = _
    rw [hat 4 (by decide) he]
    grind

/-- **Context switching preserves the execution state of every task.** -/
theorem context_switch {s₀ : Switching} {es : List SwitchEvent} {e : SwitchEvent}
    (h0 : s₀.Booted) (h : Trace SwitchStep s₀ es s) (he : SwitchStep s e s') :
    (e = .switch → ∃ r, s'.tasks s.cpu.nextTask = some r ∧
      s'.cpu.currentTaskPCB = s.cpu.nextTask ∧
      (∀ c, r.lastCall = some c → c.Resumed s'.cpu) ∧
      (r.lastCall = none → ∃ g, r.forged = some g ∧ r.phase = .startUp ∧
        g.Started s.cpu s'.cpu)) ∧
    (e = .ret → ∃ r g, s.tasks s.cpu.currentTaskPCB = some r ∧ r.forged = some g ∧
      g.PopsFrame s.cpu s'.cpu ∧
      (r.phase = .startUp → s'.cpu.eip = g.taskFunc ∧ s'.cpu.esp = g.stackTop - 4) ∧
      (r.phase = .func → s'.cpu.eip = g.cleanupFunc ∧ s'.cpu.esp = g.stackTop)) := by
  have hI : s.Inv := h.invariant h0.inv fun _ _ _ hI he => he.inv hI
  constructor
  · rintro rfl
    cases he with
    | @switch r hr hzero hlo hhi hn =>
      obtain ⟨r', hn'⟩ := Switching.called_of_task r hn
      obtain ⟨k, e, hk, hcont, hcur, -⟩ := hI.switchToTask hr hzero hlo hhi hn'
      refine ⟨r', hn', hcur, fun c hc => ?_, fun hnone => ?_⟩
      · simp only [KernelTask.saved, hc, Option.some.injEq, Prod.mk.injEq] at hk
        obtain ⟨rfl, rfl⟩ := hk
        exact hcont.resumed
      · obtain ⟨-, rfl⟩ | ⟨hne, hn⟩ := TaskTable.update_cases hn'
        · cases hnone
        cases hg : r'.forged with
        | none => simp [KernelTask.saved, hnone, hg] at hk
        | some g =>
          simp only [KernelTask.saved, hnone, hg, Option.some.injEq, Prod.mk.injEq] at hk
          obtain ⟨rfl, rfl⟩ := hk
          obtain ⟨htop, hroom⟩ := (hI.returns _ r' hn).room g hg
          exact ⟨g, rfl, hI.fresh _ r' hn hne hnone, hcont.started (by omega)⟩
  · rintro rfl
    cases he with
    | ret hr hp hesp =>
      obtain ⟨g, hg, hrest⟩ := hI.ret_leads hr hp hesp
      exact ⟨_, g, hr, hg, hrest⟩

/-- The boot code calls `_forge_kernel_stack(0x40000, 0x100, 0x200, 0x300)`. -/
def forgeCall : Cpu :=
  { eax := 0, ebx := 1, ecx := 0, edx := 0, esi := 2, edi := 3, ebp := 4, esp := 0x18000, eip := 0
    cr3 := 0, currentTaskPCB := 0x1000, postponeTaskSwitchesCounter := 0
    taskSwitchesPostponedFlag := 0, tssEsp0 := 0, popped := []
    mem := (((ByteMem.write32 (fun _ => 0) 0x18004 0x40000).write32 0x18008 0x100).write32
      0x1800C 0x200).write32 0x18010 0x300 }

/-- The boot task, with its stack from `0x10000` to `0x20000`. -/
def bootTasks : TaskTable :=
  Function.update (fun _ => none) 0x1000 (some ⟨0x10000, 0x20000, none, .cleanup, none⟩)

/-- The new task has its control block at `0x2000`. -/
def createdTask : Switching :=
  ⟨forgeCall.forgeKernelStack.store (0x2000 + pcbOffsetEsp) forgeCall.forgeKernelStack.eax,
    Function.update bootTasks 0x2000 (some (.new 0x3C000 forgeCall.forgeArgs))⟩

/-- The boot task calls `_switch_to_task` for the new task. -/
def switchCall : Cpu :=
  { createdTask.cpu with
    esp := 0x18000
    mem := createdTask.cpu.mem.write32 0x18004 0x2000 }

theorem Layout.update {tasks : TaskTable} (h : Layout tasks) (hb : t.toNat + 44 ≤ 4294967296)
    (hs : r.base ≤ r.top ∧ r.top < 4294967296) (hself : t.toNat + 44 ≤ r.base ∨ r.top ≤ t.toNat)
    (hold : ∀ t' r', tasks t' = some r' →
      (t.toNat + 44 ≤ t'.toNat ∨ t'.toNat + 44 ≤ t.toNat) ∧
      (t.toNat + 44 ≤ r'.base ∨ r'.top ≤ t.toNat) ∧
      (t'.toNat + 44 ≤ r.base ∨ r.top ≤ t'.toNat) ∧ (r.top ≤ r'.base ∨ r'.top ≤ r.base)) :
    Layout (Function.update tasks t (some r)) where
  block ht := by
    obtain ⟨rfl, -⟩ | ⟨-, ht⟩ := TaskTable.update_cases ht
    · exact hb
    · exact h.block ht
  stack ht := by
    obtain ⟨-, rfl⟩ | ⟨-, ht⟩ := TaskTable.update_cases ht
    · exact hs
    · exact h.stack ht
  blocks ht ht' hne := by
    obtain ⟨rfl, -⟩ | ⟨-, h₁⟩ := TaskTable.update_cases ht <;>
      obtain ⟨rfl, -⟩ | ⟨-, h₂⟩ := TaskTable.update_cases ht'
    · exact absurd rfl hne
    · exact (hold _ _ h₂).1
    · exact (hold _ _ h₁).1.symm
    · exact h.blocks h₁ h₂ hne
  blockStack ht ht' := by
    obtain ⟨rfl, -⟩ | ⟨-, h₁⟩ := TaskTable.update_cases ht <;>
      obtain ⟨-, rfl⟩ | ⟨-, h₂⟩ := TaskTable.update_cases ht'
    · exact hself
    · exact (hold _ _ h₂).2.1
    · exact (hold _ _ h₁).2.2.1
    · exact h.blockStack h₁ h₂
  stacksApart ht ht' hne := by
    obtain ⟨rfl, rfl⟩ | ⟨-, h₁⟩ := TaskTable.update_cases ht <;>
      obtain ⟨rfl, rfl⟩ | ⟨-, h₂⟩ := TaskTable.update_cases ht'
    · exact absurd rfl hne
    · exact (hold _ _ h₂).2.2.2
    · exact (hold _ _ h₁).2.2.2.symm
    · exact h.stacksApart h₁ h₂ hne

theorem bootTasks_cases (h : bootTasks t = some r) :
    t = 0x1000 ∧ r = ⟨0x10000, 0x20000, none, .cleanup, none⟩ := by
  obtain h | ⟨-, h⟩ := TaskTable.update_cases h
  · exact h
  · cases h

theorem bootTasks_booted : Switching.Booted ⟨forgeCall, bootTasks⟩ where
  layout := by
    have hnone : Layout fun _ => none := ⟨nofun, nofun, nofun, nofun, nofun⟩
    exact hnone.update (by decide) (by decide) (by decide) nofun
  running := ⟨_, rfl⟩
  alone t r h := by
    obtain ⟨rfl, rfl⟩ := bootTasks_cases h
    exact ⟨rfl, rfl, rfl⟩

theorem createdTask_layout : Layout createdTask.tasks := by
  have htop : forgeCall.forgeArgs.stackTop = 0x40000 := by decide +kernel
  refine bootTasks_booted.layout.update (by decide) ?_ ?_ fun t' r' h => ?_
  · rw [KernelTask.new, htop]
    decide
  · rw [KernelTask.new, htop]
    decide
  · obtain ⟨rfl, rfl⟩ := bootTasks_cases h
    rw [KernelTask.new, htop]
    decide

theorem switchCall_own : createdTask.Own ⟨0x10000, 0x20000, none, .cleanup, none⟩ switchCall := by
  have htop : forgeCall.forgeArgs.stackTop = 0x40000 := by decide +kernel
  have hmem : ∀ x, x < 0x18004 ∨ 0x18008 ≤ x → switchCall.mem x = createdTask.cpu.mem x :=
    fun x hx => ByteMem.write32_of_disjoint (by decide) (by omega)
  refine ⟨rfl, fun t r' h hne x hx hx' => ?_, fun t r' h x hx hx' => ?_, fun x hx hx' => ?_⟩
  · obtain ⟨-, rfl⟩ | ⟨-, h⟩ := TaskTable.update_cases h
    · rw [KernelTask.new, htop] at hx'
      exact hmem x (.inr (le_trans (by decide) hx))
    · exact absurd (bootTasks_cases h).1 hne
  · refine hmem x (.inl (lt_trans hx' ?_))
    obtain ⟨rfl, -⟩ | ⟨-, h⟩ := TaskTable.update_cases h
    · decide
    · obtain ⟨rfl, -⟩ := bootTasks_cases h
      decide
  · exact absurd hx' (not_lt.mpr hx)

theorem context_switch_first :
    ∃ s₀ es s s', Switching.Booted s₀ ∧ Trace SwitchStep s₀ es s ∧ SwitchStep s .switch s' ∧
      s'.cpu.eip = 0x200 ∧ s'.cpu.esp = 0x40000 - 8 ∧ s'.cpu.ebp = 0 := by
  have htop : forgeCall.forgeArgs.stackTop = 0x40000 := by decide +kernel
  have hstart : forgeCall.forgeArgs.taskStartUp = 0x200 := by decide +kernel
  have hnext : switchCall.nextTask = 0x2000 := by decide +kernel
  have hcreate : SwitchStep ⟨forgeCall, bootTasks⟩ (.create 0x2000 0x3C000) createdTask :=
    .create (r := ⟨0x10000, 0x20000, none, .cleanup, none⟩) rfl (by decide) (by decide) (by decide)
      (by dsimp only; rw [htop]; decide) createdTask_layout
  have hwork : SwitchStep createdTask (.work switchCall) { createdTask with cpu := switchCall } :=
    .work (r := ⟨0x10000, 0x20000, none, .cleanup, none⟩) rfl switchCall_own
  have hrun := (Trace.single hcreate).snoc hwork
  have hswitch : SwitchStep { createdTask with cpu := switchCall } .switch _ :=
    .switch (r := ⟨0x10000, 0x20000, none, .cleanup, none⟩) rfl rfl (by decide) (by decide)
      ⟨_, by dsimp only; rw [hnext]; rfl⟩
  obtain ⟨r, hr, -, -, hfirst⟩ := (context_switch bootTasks_booted hrun hswitch).1 rfl
  dsimp only at hr
  rw [hnext] at hr
  obtain rfl := Option.some.inj hr
  obtain ⟨g, hg, -, hg'⟩ := hfirst rfl
  obtain rfl := Option.some.inj hg
  exact ⟨_, _, _, _, bootTasks_booted, hrun, hswitch, hg'.eip.trans hstart, htop ▸ hg'.esp, hg'.ebp⟩

end ChoOS
