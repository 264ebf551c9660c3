import ChoOS.Sched.Locks

/-!
# Interrupts across task switches

Outside of every section interrupts should be on.  `unlock_scheduler` breaks
this when it finds a postponed switch and a ready task: it switches between its
two decrements, and until the suspended task comes back `IRQ_disable_counter`
stays above the sections of the running task.  A task that is started by this
switch enables interrupts in `task_start_up`, but its first section disables
them, and its `unlock_scheduler` does not bring the counter to `0`:
`interrupts_lost` is this run.

Without such a switch no task is ever suspended in `unlock_scheduler`, and the
interrupt flag is set exactly outside of the sections (`Nest.Enabled`), as long
as the counter can count them: `KeptStep` is a step that has both.
-/

namespace ChoOS

/-- Outside of every section the counter is `0` and interrupts are on. -/
def Nest.InterruptsOn (m : Nest) : Prop :=
  m.pc = .user → m.nesting = 0 →
    m.sched.locks.irqDisableCounter = 0 ∧ m.sched.locks.interruptFlag = true

/-- `unlock_scheduler` brings the counter to `0` and finds a postponed switch and a
task to switch to. -/
structure SwitchesInUnlock (m : Nest) (e : LockEvent) : Prop where
  event : e = .unlock
  counter : m.sched.locks.postponeTaskSwitchesCounter = 1
  flag : m.sched.locks.taskSwitchesPostponedFlag = true
  ready : m.sched.tasks.firstReadyToRunTask ≠ 0

/-- A step that keeps the interrupts: no section is the `2 ^ 32`th of a nest, and
`unlock_scheduler` does not switch. -/
structure KeptStep (m : Nest) (e : LockEvent) (m' : Nest) : Prop extends LockStep m e m' where
  depth : e = .lock → m.nesting + 1 < 4294967296
  noSwitch : ¬ SwitchesInUnlock m e

namespace Nest

/-- No task is in the middle of `unlock_scheduler`, and interrupts are on exactly
outside of the sections. -/
structure Enabled (m : Nest) : Prop where
  suspended : m.sched.tasks.suspended = ∅
  pending : m.pc.pending = 0
  interrupts : m.sched.locks.interruptFlag = true ↔ m.nesting = 0

variable {m m' : Nest} {s : Scheduler} {site : Resume} {n : Nat}

theorem Enabled.held_eq (he : m.Enabled) : m.held = m.nesting := by
  rw [held, he.suspended, he.pending]
  rfl

theorem Enabled.interruptsOn (h : m.Inv) (he : m.Enabled) : m.InterruptsOn := fun _ hd => by
  have hirq := h.irq
  rw [he.held_eq, hd] at hirq
  exact ⟨eq_zero_iff_toNat.mpr hirq, he.interrupts.mpr hd⟩

theorem Enabled.onTasks {f : Tasks → Tasks} (he : m.Enabled)
    (hc : (f m.sched.tasks).currentTaskPCB = m.sched.tasks.currentTaskPCB)
    (hs : (f m.sched.tasks).suspended = m.sched.tasks.suspended) : (m.onTasks f).Enabled := by
  have hnest : (m.onTasks f).nesting = m.nesting := congrArg m.depth hc
  exact ⟨hs.trans he.suspended, he.pending, hnest ▸ he.interrupts⟩

theorem Enabled.lock (he : m.Enabled) :
    Enabled { m.setNesting (m.nesting + 1) with sched := m.sched.lockScheduler } := by
  have hnest : nesting { m.setNesting (m.nesting + 1) with sched := m.sched.lockScheduler }
      = m.nesting + 1 := Function.update_self _ _ _
  refine ⟨he.suspended, he.pending, ?_⟩
  rw [hnest]
  simp [Scheduler.lockScheduler, Scheduler.onLocks, Locks.lock]

/-- `unlock_scheduler` that does not switch: `sti`, when it leaves the last section. -/
theorem Enabled.unlockTail {l : Locks} (h : m.Inv) (he : m.Enabled) (hd : 0 < m.nesting)
    (hi : l.irqDisableCounter = m.sched.locks.irqDisableCounter)
    (hl : l.interruptFlag = m.sched.locks.interruptFlag) :
    Enabled ⟨⟨m.sched.tasks, l.unlockTail, m.sched.lostSwitch⟩,
      (m.setNesting (m.nesting - 1)).depth, m.pc⟩ := by
  have hnest : nesting ⟨⟨m.sched.tasks, l.unlockTail, m.sched.lostSwitch⟩,
      (m.setNesting (m.nesting - 1)).depth, m.pc⟩ = m.nesting - 1 := Function.update_self _ _ _
  have hirq : (l.irqDisableCounter - 1).toNat = m.nesting - 1 := by
    have h' := he.held_eq ▸ h.irq
    rw [hi, toNat_sub_one (by omega), h']
  have hoff : m.sched.locks.interruptFlag ≠ true := fun hon => by
    have := he.interrupts.mp hon
    omega
  refine ⟨he.suspended, he.pending, ?_⟩
  rw [hnest]
  change (if l.irqDisableCounter - 1 = 0 then true else l.interruptFlag) = true ↔ _
  have hzero : l.irqDisableCounter - 1 = 0 ↔ m.nesting - 1 = 0 := by
    rw [eq_zero_iff_toNat, hirq]
  rw [hl]
  by_cases h1 : m.nesting - 1 = 0
  · rw [if_pos (hzero.mpr h1)]
    exact iff_of_true rfl h1
  · rw [if_neg (mt hzero.mp h1)]
    exact iff_of_false hoff h1

theorem Enabled.unlock (h : m.Inv) (he : m.Enabled) (hd : 0 < m.nesting)
    (hw : ¬ SwitchesInUnlock m .unlock) (hs : m.unlock = some m') : m'.Enabled := by
  rw [Nest.unlock] at hs
  rcases m.sched.unlockStart_cases with ⟨-, hu⟩ | ⟨-, -, hu⟩ | ⟨hp1, hflag, hf, -⟩
  · rw [hu] at hs
    obtain rfl := Option.some.inj hs
    exact he.unlockTail h (l := m.sched.locks.release) hd rfl rfl
  · rw [hu] at hs
    obtain rfl := Option.some.inj hs
    exact he.unlockTail h (l := m.sched.locks.release.setFlag false) hd rfl rfl
  · have hone : m.sched.locks.postponeTaskSwitchesCounter.toNat = 1 := by
      have hp := h.postpone
      have hone := toNat_sub_one (c := m.sched.locks.postponeTaskSwitchesCounter) (by omega)
      rw [eq_zero_iff_toNat.mp hp1] at hone
      omega
    exact absurd ⟨rfl, BitVec.eq_of_toNat_eq hone, hflag, hf⟩ hw

theorem Enabled.schedule (he : m.Enabled) (hsite : site ≠ .insideUnlock)
    (hs : m.schedule site = some m') : m'.Enabled := by
  rw [Nest.schedule] at hs
  rcases m.sched.schedule_cases with ⟨-, hc⟩ | ⟨-, -, hc⟩ | ⟨-, -, hc⟩ <;> rw [hc] at hs <;>
    dsimp only at hs
  · split at hs
    · cases hs
    · obtain rfl := Option.some.inj hs
      exact ⟨he.suspended, he.pending, he.interrupts⟩
  · split at hs
    · cases hs
    · obtain rfl := Option.some.inj hs
      exact he
  · obtain rfl := Option.some.inj hs
    have hsame : m.sched.tasks.SameStacks _ := .prepare
    have h' := he.onTasks (f := fun t => t.takeFirst.updateTimeUsed.requeueCurrent)
      hsame.currentTaskPCB hsame.suspended
    exact ⟨h'.suspended, if_neg hsite, h'.interrupts⟩

theorem Enabled.switch (h : m.Inv) (he : m.Enabled) (hd : m.nesting = 0)
    (hpc : m.pc = .switching site n) (hs : m.switch site n = some m') : m'.Enabled := by
  have hn := h.next site n hpc
  have hcard := Tasks.card_suspended_switchTo site h.closed.current hn
  have hpend := he.pending
  have hp := h.counter_eq_zero_iff.mpr hd
  have hon := he.interrupts.mpr hd
  have hdepth := h.depth_eq_zero hd
  rw [hpc, LockPc.pending] at hpend
  rw [he.suspended, hpend, Finset.card_empty] at hcard
  have hsusp : (m.sched.tasks.switchTo site n).suspended = ∅ := Finset.card_eq_zero.mp (by omega)
  rw [Nest.switch, Scheduler.switchToTask, if_neg (not_not.mpr hp)] at hs
  have hresume : Nest.resume (m.sched.onTasks (·.switchTo site n)) m.depth
      ((m.sched.tasks.switchTo site n).tcb n).esp = some m' := hs
  cases hesp : ((m.sched.tasks.switchTo site n).tcb n).esp <;> rw [hesp] at hresume hcard
  · cases hresume
  · obtain rfl := Option.some.inj hresume
    exact ⟨hsusp, rfl, iff_of_true rfl (hdepth _)⟩
  · obtain rfl := Option.some.inj hresume
    exact ⟨hsusp, rfl, iff_of_true hon (hdepth _)⟩
  · simp at hcard
  · cases hresume

end Nest

/-- **A step keeps interrupts on** outside of the sections, unless it switches tasks
inside of `unlock_scheduler`. -/
theorem LockStep.enabled {m m' : Nest} {e : LockEvent} (hs : LockStep m e m')
    (hw : ¬ SwitchesInUnlock m e) (h : m.Inv) (he : m.Enabled) : m'.Enabled := by
  obtain ⟨ha, hs⟩ := hs
  cases e with
  | lock =>
    obtain rfl := Option.some.inj hs
    exact he.lock
  | unlock => exact he.unlock h ha hw hs
  | schedule => exact he.schedule (by decide) hs
  | finish => exact he.schedule (by decide) hs
  | switch =>
    rw [LockEvent.run] at hs
    split at hs
    · exact he.switch h ha ‹_› hs
    · cases hs
  | leave =>
    -- no task is suspended in `unlock_scheduler`
    have hpend := he.pending
    rw [ha.1] at hpend
    cases hpend
  | irq0Handler =>
    obtain ⟨s, hirq, rfl⟩ := Option.map_eq_some_iff.mp hs
    rw [Scheduler.irq0Handler_eq (h.quiet ha).steady] at hirq
    obtain ⟨t, ht, rfl⟩ := Option.map_eq_some_iff.mp hirq
    have hrel := (Tasks.Relinked.refl m.sched.tasks.addTick).wakeLoop ht
    have hsame : m.sched.tasks.SameStacks t := ⟨hrel.created, hrel.currentTaskPCB, hrel.esp⟩
    exact he.onTasks (f := fun _ => t) hsame.currentTaskPCB hsame.suspended
  | createKernelTask newTask stackBase =>
    obtain rfl := Option.some.inj hs
    exact he.onTasks ((Tasks.Relinked.refl _).enqueue.currentTaskPCB)
      (Tasks.suspended_createKernelTask (ha.2.notMem h.blocks))
  | unblockTask task =>
    obtain rfl := Option.some.inj hs
    have hsame := ((Tasks.Relinked.refl m.sched.tasks).unblockTask (a := task)).sameStacks
    exact he.onTasks hsame.currentTaskPCB hsame.suspended
  | microSleepUntil us =>
    obtain rfl := Option.some.inj hs
    exact he.onTasks rfl Tasks.SameStacks.microSleepUntil.suspended
  | blockTask reason =>
    obtain rfl := Option.some.inj hs
    have hsame := ((Tasks.Relinked.refl m.sched.tasks).setState
      (a := m.sched.tasks.currentTaskPCB) (v := reason)).sameStacks
    exact he.onTasks hsame.currentTaskPCB hsame.suspended
  | terminateTask =>
    obtain rfl := Option.some.inj hs
    exact he.onTasks rfl Tasks.SameStacks.terminateTask.suspended
  | markTaskForDeath =>
    obtain rfl := Option.some.inj hs
    have hsame := ((Tasks.Relinked.refl m.sched.tasks).setState
      (a := m.sched.tasks.currentTaskPCB) (v := taskStateDead)).sameStacks
    exact he.onTasks rfl (hsame.trans .terminateTask).suspended
  | deadTasksCleanup dead =>
    obtain ⟨t, ht, rfl⟩ := Option.map_eq_some_iff.mp hs
    obtain ⟨-, -, hcr, live, created, rfl⟩ := h.closed.deadTasksCleanup h.blocks ha.2.2 ht
    exact he.onTasks (f := fun _ => { m.sched.tasks with
      live := live, created := created, deadTasks := 0 }) rfl (ha.2.2.suspended hcr rfl rfl)

theorem KeptStep.kept {m m' : Nest} {e : LockEvent} (hs : KeptStep m e m') (h : m.Inv)
    (he : m.Enabled) : m'.Inv ∧ m'.Enabled := by
  refine ⟨hs.toLockStep.inv (fun hl => ?_) h, hs.toLockStep.enabled hs.noSwitch h he⟩
  rw [he.held_eq]
  exact hs.depth hl

/-! ### Runs -/

section Run

variable {kernelTask ticks : Nat} {tcb : Nat → TaskControlBlock} {live : Nat → Bool}

/-- **Interrupts are on outside of the sections**, in every run in which no nest gets
`2 ^ 32` deep and no `unlock_scheduler` finds a postponed switch and a ready task. -/
theorem interrupts_enabled {es : List LockEvent} {m : Nest} (hk : kernelTask ≠ 0)
    (h0 : live 0 = false)
    (hrun : Trace KeptStep
      (Nest.start (Scheduler.multitaskingInitialize kernelTask ticks tcb live)) es m) :
    m.InterruptsOn := by
  have h : m.Inv ∧ m.Enabled := by
    refine hrun.invariant (I := fun m => m.Inv ∧ m.Enabled)
      ⟨multitaskingInitialize_nest hk h0, suspended_multitaskingInitialize, rfl, iff_of_true rfl rfl⟩ ?_
    exact fun m e m' h hs => hs.kept h.1 h.2
  exact h.2.interruptsOn h.1

/-- The event, when it is allowed, not too deep and no switch is postponed. -/
def LockEvent.keptStep (e : LockEvent) (m : Nest) : Option Nest :=
  if m.nesting + 1 < 4294967296 ∧ m.sched.locks.taskSwitchesPostponedFlag = false then e.step m
  else none

theorem LockEvent.keptStep_spec {e : LockEvent} {m m' : Nest} (h : e.keptStep m = some m') :
    KeptStep m e m' := by
  rw [LockEvent.keptStep] at h
  split at h
  · rename_i hn
    refine ⟨LockEvent.step_spec h, fun _ => hn.1, fun hw => ?_⟩
    have hflag := hw.flag
    rw [hn.2] at hflag
    cases hflag
  · cases h

theorem interrupts_enabled_booted : ∃ m,
    Trace KeptStep (Nest.start bootedTask)
      [.lock, .createKernelTask 8192 8448, .unlock, .schedule, .switch, .lock, .microSleepUntil 3,
        .unlock, .lock, .blockTask taskStateSleeping, .unlock, .irq0Handler, .schedule, .switch] m ∧
    m.InterruptsOn := by
  obtain ⟨m, hm⟩ := Option.isSome_iff_exists.mp (show
    (execute LockEvent.keptStep [.lock, .createKernelTask 8192 8448, .unlock, .schedule, .switch,
      .lock, .microSleepUntil 3, .unlock, .lock, .blockTask taskStateSleeping, .unlock,
      .irq0Handler, .schedule, .switch] (Nest.start bootedTask)).isSome = true by decide +kernel)
  have hrun := Trace.of_execute (fun _ _ _ => LockEvent.keptStep_spec) hm
  exact ⟨m, hrun, interrupts_enabled (by decide) rfl hrun⟩

/-- The kernel task calls `schedule` in a section and its `unlock_scheduler` starts
the new task.  After one section of its own the new task runs without
interrupts, inside of no section. -/
theorem interrupts_lost : ¬ ∀ es m, Trace LockStep (Nest.start bootedTask) es m →
    m.InterruptsOn := by
  intro hall
  have hexec : (execute LockEvent.step [.lock, .createKernelTask 8192 8448, .unlock, .lock,
      .schedule, .unlock, .switch, .lock, .unlock] (Nest.start bootedTask)).map (fun m =>
        (m.pc, m.nesting, m.sched.locks.irqDisableCounter, m.sched.locks.interruptFlag))
      = some (.user, 0, 1, false) := by
    decide +kernel
  obtain ⟨m, hm, he⟩ := Option.map_eq_some_iff.mp hexec
  obtain ⟨hpc, he⟩ := Prod.mk.inj he
  obtain ⟨hnest, he⟩ := Prod.mk.inj he
  obtain ⟨-, hoff⟩ := Prod.mk.inj he
  have hon := hall _ m (Trace.of_execute (fun _ _ _ => LockEvent.step_spec) hm) hpc hnest
  rw [hoff] at hon
  exact absurd hon.2 (by decide)

end Run

end ChoOS
