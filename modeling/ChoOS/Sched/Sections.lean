import ChoOS.Sched.Scheduler

/-!
# Calls of the scheduler without a pending switch

Outside of every locked section `task_switches_postponed_flag` is clear, and
inside of one `unlock_scheduler` does not bring the counter to `0`.  In both
cases a section is left without a task switch (`Unpostponed`), and then every
call is its effect on the tasks, with the counters as before: what `lock` adds
to a word, `release` takes away again, also when the word wraps.

`criticalSection_eq` is this for a section, `irq0Handler_eq` for the timer
interrupt, whose loop takes the lock again for every task that it wakes
(`Steady`).  `callSchedule_spec` is a call of `schedule` outside of a section.
-/

namespace ChoOS

namespace Locks

/-- A section that starts here is left without a task switch. -/
def Unpostponed (l : Locks) : Prop :=
  l.taskSwitchesPostponedFlag = false ∨ l.postponeTaskSwitchesCounter ≠ 0

/-- So is a section in it: the counter does not wrap to `0` there. -/
structure Steady (l : Locks) : Prop where
  outer : l.Unpostponed
  inner : l.lock.Unpostponed

/-- Outside of every section, with no switch postponed. -/
structure Quiet (l : Locks) : Prop where
  counter : l.postponeTaskSwitchesCounter = 0
  flag : l.taskSwitchesPostponedFlag = false

/-- What a section leaves behind, whose code left the interrupt flag at `b`: `sti`,
when it was the only one. -/
def leave (b : Bool) (l : Locks) : Locks :=
  { l with interruptFlag := if l.irqDisableCounter = 0 then true else b }

/-- What a section leaves behind: `sti`, when it was the only one. -/
def afterSection (l : Locks) : Locks :=
  { l with interruptFlag := if l.irqDisableCounter = 0 then true else false }

theorem Quiet.unpostponed {l : Locks} (h : l.Quiet) : l.Unpostponed := .inl h.flag

theorem Quiet.steady {l : Locks} (h : l.Quiet) : l.Steady := ⟨.inl h.flag, .inl h.flag⟩

theorem Steady.setInterrupts {l : Locks} (h : l.Steady) (b : Bool) : (l.setInterrupts b).Steady :=
  ⟨h.outer, h.inner⟩

theorem Quiet.afterSection {l : Locks} (h : l.Quiet) : l.afterSection.Quiet := ⟨h.counter, h.flag⟩

theorem unlockTail_release_lock (l : Locks) (b : Bool) :
    (l.lock.setInterrupts b).release.unlockTail = l.leave b := by
  simp only [lock, setInterrupts, release, unlockTail, leave, BitVec.add_sub_cancel]

end Locks

namespace Scheduler

variable {s s₁ s' : Scheduler} {body : Scheduler → Option Scheduler} {task : Nat} {reason : Int}

/-- A section whose code leaves the interrupt flag at `b`. -/
theorem criticalSection_leave {g : Option Tasks} {b : Bool} (h : s.locks.Unpostponed)
    (hb : body s.lockScheduler
      = g.map fun t => ⟨t, s.locks.lock.setInterrupts b, s.lostSwitch⟩) :
    s.criticalSection body = g.map fun t => ⟨t, s.locks.leave b, s.lostSwitch⟩ := by
  have hstart (t : Tasks) : unlockStart ⟨t, s.locks.lock.setInterrupts b, s.lostSwitch⟩
      = (⟨t, s.locks.leave b, s.lostSwitch⟩, none) := by
    rw [unlockStart, if_neg, onLocks, onLocks, Locks.unlockTail_release_lock]
    rintro ⟨hcounter, hflag⟩
    rcases h with h | h
    · exact absurd (h.symm.trans hflag) (by decide)
    · exact h ((BitVec.add_sub_cancel _ _).symm.trans hcounter)
  rw [criticalSection, hb]
  cases g with
  | none => rfl
  | some t =>
    rw [Option.map_some, Option.bind_eq_bind, Option.bind_some, unlockHere, hstart]
    rfl

/-- **A section without a pending switch** does what its body does to the tasks
and keeps the counters. -/
theorem criticalSection_eq {g : Option Tasks} (h : s.locks.Unpostponed)
    (hb : body s.lockScheduler = g.map fun t => ⟨t, s.locks.lock, s.lostSwitch⟩) :
    s.criticalSection body = g.map fun t => ⟨t, s.locks.afterSection, s.lostSwitch⟩ :=
  criticalSection_leave (b := false) h hb

theorem criticalSection_onTasks {f : Tasks → Tasks} (h : s.locks.Unpostponed) :
    s.criticalSection (fun s => some (s.onTasks f))
      = some ⟨f s.tasks, s.locks.afterSection, s.lostSwitch⟩ :=
  criticalSection_eq (g := some (f s.tasks)) h rfl

theorem unblockTask_eq (h : s.locks.Unpostponed) : s.unblockTask task
    = some ⟨s.tasks.unblockTask task, s.locks.afterSection, s.lostSwitch⟩ :=
  criticalSection_onTasks h

end Scheduler

/-! ### The timer interrupt -/

namespace Tasks

/-- `internal_update_awoken_taskes` takes `curr` from the sleeping list. -/
def unlinkSleeping (prev curr : Nat) (t : Tasks) : Tasks :=
  if prev = 0 then t.setSleeping (t.next curr) else t.setNext prev (t.next curr)

/-- The loop of `internal_update_awoken_taskes` without the locks. -/
def wakeLoop (ticks : Nat) : Nat → Nat → Nat → Tasks → Option Tasks
  | 0, _, _, _ => none
  | fuel + 1, prev, curr, t =>
    if curr = 0 then some t
    else if (t.tcb curr).targetWakeupTime ≤ ticks then
      wakeLoop ticks fuel prev (t.next curr) ((t.unlinkSleeping prev curr).unblockTask curr)
    else wakeLoop ticks fuel curr (t.next curr) t

/-- The timer interrupt, up to the wake-up loop. -/
def addTick (t : Tasks) : Tasks := { t with ticksSinceBoot := u64 (t.ticksSinceBoot + 1) }

/-- The timer interrupt. -/
def tick (t : Tasks) : Option Tasks :=
  t.addTick.wakeLoop t.addTick.ticksSinceBoot walkFuel 0 t.addTick.sleepingTaskes

end Tasks

namespace Scheduler

variable {s s₁ s' : Scheduler} {body : Scheduler → Option Scheduler} {task : Nat} {reason : Int}

/-- The locks that the wake-up loop takes change nothing but the interrupt flag,
and inside of a section not even that. -/
theorem wakeLoop_eq (ticks fuel prev curr : Nat) (h : s.locks.Unpostponed) :
    ∃ b, (s.locks.irqDisableCounter ≠ 0 → s.locks.interruptFlag = false → b = false) ∧
      s.wakeLoop ticks fuel prev curr = (s.tasks.wakeLoop ticks fuel prev curr).map fun t =>
        ⟨t, s.locks.setInterrupts b, s.lostSwitch⟩ := by
  induction fuel generalizing prev curr s with
  | zero => exact ⟨false, fun _ _ => rfl, rfl⟩
  | succ n ih =>
    rw [wakeLoop, Tasks.wakeLoop]
    by_cases hc : curr = 0
    · rw [if_pos hc, if_pos hc]
      exact ⟨s.locks.interruptFlag, fun _ hoff => hoff, rfl⟩
    rw [if_neg hc, if_neg hc]
    by_cases hd : (s.tasks.tcb curr).targetWakeupTime ≤ ticks
    · rw [if_pos hd, if_pos hd]
      have hunblock : (s.onTasks (·.unlinkSleeping prev curr)).unblockTask curr = _ :=
        unblockTask_eq h
      obtain ⟨b, hb, hloop⟩ := ih (s := ⟨(s.tasks.unlinkSleeping prev curr).unblockTask curr,
        s.locks.afterSection, s.lostSwitch⟩) prev (s.tasks.next curr) h
      refine ⟨b, fun hirq _ => hb hirq (if_neg hirq), ?_⟩
      change ((s.onTasks (·.unlinkSleeping prev curr)).unblockTask curr).bind _ = _
      rw [hunblock, Option.bind_some]
      exact hloop
    · rw [if_neg hd, if_neg hd]
      exact ih _ _ h

theorem internalUpdateAwokenTaskes_eq (ticks : Nat) (h : s.locks.Steady) :
    ∃ b, (s.locks.irqDisableCounter + 1 ≠ 0 → b = false) ∧
      s.internalUpdateAwokenTaskes ticks
        = (s.tasks.wakeLoop ticks walkFuel 0 s.tasks.sleepingTaskes).map fun t =>
          ⟨t, s.locks.leave b, s.lostSwitch⟩ := by
  obtain ⟨b, hb, hloop⟩ := wakeLoop_eq (s := s.lockScheduler) ticks walkFuel 0
    s.tasks.sleepingTaskes h.inner
  exact ⟨b, fun hirq => hb hirq rfl, criticalSection_leave h.outer hloop⟩

/-- **The timer interrupt** changes the tasks and nothing else. -/
theorem irq0Handler_eq (h : s.locks.Steady) :
    s.irq0Handler = s.tasks.tick.map fun t => { s with tasks := t } := by
  obtain ⟨b, -, hsection⟩ := internalUpdateAwokenTaskes_eq
    (s := ⟨s.tasks.addTick, s.locks.setInterrupts false, s.lostSwitch⟩)
    s.tasks.addTick.ticksSinceBoot (h.setInterrupts false)
  rw [irq0Handler]
  change (internalUpdateAwokenTaskes s.tasks.addTick.ticksSinceBoot
      ⟨s.tasks.addTick, s.locks.setInterrupts false, s.lostSwitch⟩).bind _ = _
  rw [hsection, ← Tasks.tick]
  cases s.tasks.tick <;> rfl

/-! ### `schedule` -/

/-- **What `schedule` does** in front of `_switch_to_task`. -/
theorem schedule_cases (s : Scheduler) :
    (s.locks.postponeTaskSwitchesCounter ≠ 0 ∧
      s.schedule = (s.onLocks (·.setFlag true), none)) ∨
    (s.locks.postponeTaskSwitchesCounter = 0 ∧ s.tasks.firstReadyToRunTask = 0 ∧
      s.schedule = (s, none)) ∨
    (s.locks.postponeTaskSwitchesCounter = 0 ∧ s.tasks.firstReadyToRunTask ≠ 0 ∧
      s.schedule = (s.onTasks fun t => t.takeFirst.updateTimeUsed.requeueCurrent,
        some s.tasks.firstReadyToRunTask)) := by
  by_cases hp : s.locks.postponeTaskSwitchesCounter = 0
  · by_cases hf : s.tasks.firstReadyToRunTask = 0
    · exact .inr (.inl ⟨hp, hf, by rw [schedule, if_neg (not_not.mpr hp), if_pos hf]⟩)
    · exact .inr (.inr ⟨hp, hf, by rw [schedule, if_neg (not_not.mpr hp), if_neg hf]⟩)
  · exact .inl ⟨hp, by rw [schedule, if_pos hp]⟩

/-- **What `unlock_scheduler` does** in front of `_switch_to_task`. -/
theorem unlockStart_cases (s : Scheduler) :
    (¬ (s.locks.postponeTaskSwitchesCounter - 1 = 0 ∧ s.locks.taskSwitchesPostponedFlag = true) ∧
      s.unlockStart = (s.onLocks fun l => l.release.unlockTail, none)) ∨
    (s.locks.postponeTaskSwitchesCounter - 1 = 0 ∧ s.locks.taskSwitchesPostponedFlag = true ∧
      s.unlockStart = (s.onLocks fun l => (l.release.setFlag false).unlockTail, none)) ∨
    (s.locks.postponeTaskSwitchesCounter - 1 = 0 ∧ s.locks.taskSwitchesPostponedFlag = true ∧
      s.tasks.firstReadyToRunTask ≠ 0 ∧
      s.unlockStart = (⟨s.tasks.takeFirst.updateTimeUsed.requeueCurrent,
        s.locks.release.setFlag false, s.lostSwitch⟩, some s.tasks.firstReadyToRunTask)) := by
  by_cases hp : (s.onLocks Locks.release).locks.postponeTaskSwitchesCounter = 0 ∧
    (s.onLocks Locks.release).locks.taskSwitchesPostponedFlag = true
  · refine .inr ?_
    rw [unlockStart, if_pos hp]
    have hs : (s.onLocks Locks.release).onLocks (·.setFlag false)
        = s.onLocks fun l => l.release.setFlag false := rfl
    rcases (s.onLocks fun l => l.release.setFlag false).schedule_cases with
      ⟨hne, -⟩ | ⟨-, -, he⟩ | ⟨-, hf, he⟩
    · exact absurd hp.1 hne
    · rw [hs, he]
      exact .inl ⟨hp.1, hp.2, rfl⟩
    · rw [hs, he]
      exact .inr ⟨hp.1, hp.2, hf, rfl⟩
  · exact .inl ⟨hp, by rw [unlockStart, if_neg hp]; rfl⟩

theorem resume_spec {site : Resume} (h : resume site s = some s') :
    s'.tasks = s.tasks ∧
      s'.locks.postponeTaskSwitchesCounter = s.locks.postponeTaskSwitchesCounter ∧
      s'.locks.taskSwitchesPostponedFlag = s.locks.taskSwitchesPostponedFlag := by
  cases site with
  | null => exact absurd h (by simp [resume])
  | ended => exact absurd h (by simp [resume])
  | forged =>
    obtain rfl := Option.some.inj h
    exact ⟨rfl, rfl, rfl⟩
  | afterSchedule =>
    obtain rfl := Option.some.inj h
    exact ⟨rfl, rfl, rfl⟩
  | insideUnlock =>
    obtain rfl := Option.some.inj h
    exact ⟨rfl, rfl, rfl⟩

theorem resume_quiet {site : Resume} (hq : s.locks.Quiet) (h : resume site s = some s') :
    s'.locks.Quiet := by
  obtain ⟨-, hc, hf⟩ := resume_spec h
  exact ⟨hc.trans hq.counter, hf.trans hq.flag⟩

end Scheduler

/-- A whole `schedule` that finds a ready task. -/
def Tasks.reschedule (site : Resume) (t : Tasks) : Tasks :=
  t.takeFirst.updateTimeUsed.requeueCurrent.switchTo site t.firstReadyToRunTask

namespace Scheduler

variable {s s' : Scheduler} {site : Resume} {reason : Int}

/-- **`schedule` outside of a section.** -/
theorem callSchedule_spec (hq : s.locks.Quiet) (h : callSchedule site s = some s') :
    s'.locks.Quiet ∧
      (s.tasks.firstReadyToRunTask = 0 → s'.tasks = s.tasks) ∧
      (s.tasks.firstReadyToRunTask ≠ 0 → s'.tasks = s.tasks.reschedule site) := by
  by_cases hf : s.tasks.firstReadyToRunTask = 0
  · rw [callSchedule, schedule, if_neg (by simp [hq.counter]), if_pos hf] at h
    exact ⟨resume_quiet hq h, fun _ => (resume_spec h).1, fun hne => absurd hf hne⟩
  · rw [callSchedule, schedule, if_neg (by simp [hq.counter]), if_neg hf] at h
    dsimp only at h
    rw [switchAndResume, switchToTask, if_neg (by simp [onTasks, hq.counter])] at h
    dsimp only at h
    have hq' : ((s.onTasks fun t => t.takeFirst.updateTimeUsed.requeueCurrent).onTasks
      (·.switchTo site s.tasks.firstReadyToRunTask)).locks.Quiet := hq
    exact ⟨resume_quiet hq' h, fun h0 => absurd h0 hf, fun _ => (resume_spec h).1⟩

/-- A switch that was postponed is a call of `schedule`. -/
theorem unlockScheduler_postponed (hc : s.locks.postponeTaskSwitchesCounter = 1)
    (hf : s.locks.taskSwitchesPostponedFlag = true) :
    s.unlockScheduler
      = callSchedule .insideUnlock (s.onLocks fun l => l.release.setFlag false) := by
  have hif : (s.onLocks Locks.release).locks.postponeTaskSwitchesCounter = 0 ∧
      (s.onLocks Locks.release).locks.taskSwitchesPostponedFlag = true :=
    ⟨by simp [onLocks, Locks.release, hc], hf⟩
  have hset : (s.onLocks Locks.release).onLocks (·.setFlag false)
      = s.onLocks fun l => l.release.setFlag false := rfl
  rw [unlockScheduler, unlockStart, if_pos hif, callSchedule, hset]
  rcases (s.onLocks fun l => l.release.setFlag false).schedule with ⟨s₁, _ | n⟩
  · rfl
  · rfl

/-- `schedule` in a section of its own, as in `long_task`: the switch is postponed
to `unlock_scheduler`. -/
def scheduleLocked (s : Scheduler) : Option Scheduler :=
  s.lockScheduler.schedule.1.unlockScheduler

/-- **`schedule` in a section.** -/
theorem scheduleLocked_spec (hq : s.locks.Quiet) (h : s.scheduleLocked = some s') :
    s'.locks.Quiet ∧
      (s.tasks.firstReadyToRunTask = 0 → s'.tasks = s.tasks) ∧
      (s.tasks.firstReadyToRunTask ≠ 0 → s'.tasks = s.tasks.reschedule .insideUnlock) := by
  have hlocked : s.lockScheduler.schedule.1 = s.onLocks fun l => l.lock.setFlag true := by
    rw [schedule, if_pos (by simp [lockScheduler, onLocks, Locks.lock, hq.counter])]
    rfl
  rw [scheduleLocked, hlocked, unlockScheduler_postponed] at h
  · have hq' : ((s.locks.lock.setFlag true).release.setFlag false).Quiet :=
      ⟨by simp [Locks.lock, Locks.setFlag, Locks.release, hq.counter], rfl⟩
    exact callSchedule_spec
      (s := ⟨s.tasks, (s.locks.lock.setFlag true).release.setFlag false, s.lostSwitch⟩) hq' h
  · simp [onLocks, Locks.lock, Locks.setFlag, hq.counter]
  · rfl

theorem callSchedule_tasks (h : callSchedule site s = some s') : s'.tasks = s.tasks ∨
    s.tasks.firstReadyToRunTask ≠ 0 ∧ s'.tasks = s.tasks.reschedule site := by
  rw [callSchedule] at h
  rcases s.schedule_cases with ⟨-, he⟩ | ⟨-, -, he⟩ | ⟨hp, hf, he⟩ <;> rw [he] at h
  · exact .inl (resume_spec h).1
  · exact .inl (resume_spec h).1
  · dsimp only at h
    rw [switchAndResume, switchToTask, if_neg (by simp [onTasks, hp])] at h
    exact .inr ⟨hf, (resume_spec h).1⟩

theorem unlockScheduler_tasks (h : s.unlockScheduler = some s') : s'.tasks = s.tasks ∨
    s.tasks.firstReadyToRunTask ≠ 0 ∧ s'.tasks = s.tasks.reschedule .insideUnlock := by
  rw [unlockScheduler] at h
  rcases s.unlockStart_cases with ⟨-, he⟩ | ⟨-, -, he⟩ | ⟨hp, -, hf, he⟩ <;> rw [he] at h
  · obtain rfl := Option.some.inj h
    exact .inl rfl
  · obtain rfl := Option.some.inj h
    exact .inl rfl
  · dsimp only at h
    have hcounter : ¬ (s.locks.release.setFlag false).postponeTaskSwitchesCounter ≠ 0 :=
      not_not.mpr hp
    rw [switchAndResume, switchToTask, if_neg hcounter] at h
    exact .inr ⟨hf, (resume_spec h).1⟩

theorem criticalSection_body {body : Scheduler → Option Scheduler}
    (h : s.criticalSection body = some s') :
    ∃ s₁, body s.lockScheduler = some s₁ ∧ s'.tasks = s₁.tasks := by
  obtain ⟨s₁, hbody, h⟩ := Option.bind_eq_some_iff.mp h
  refine ⟨s₁, hbody, ?_⟩
  rw [unlockHere] at h
  rcases s₁.unlockStart_cases with ⟨-, he⟩ | ⟨-, -, he⟩ | ⟨-, -, -, he⟩ <;> rw [he] at h
  · obtain rfl := Option.some.inj h
    rfl
  · obtain rfl := Option.some.inj h
    rfl
  · cases h

theorem criticalSection_tasks {f : Tasks → Tasks}
    (h : s.criticalSection (fun s => some (s.onTasks f)) = some s') : s'.tasks = f s.tasks := by
  obtain ⟨s₁, hbody, ht⟩ := criticalSection_body h
  rw [ht, ← Option.some.inj hbody]
  rfl

theorem wakeLoop_tasks {ticks fuel prev curr : Nat}
    (h : s.wakeLoop ticks fuel prev curr = some s') :
    s.tasks.wakeLoop ticks fuel prev curr = some s'.tasks := by
  induction fuel generalizing prev curr s with
  | zero => cases h
  | succ n ih =>
    rw [wakeLoop] at h
    rw [Tasks.wakeLoop]
    by_cases hc : curr = 0
    · rw [if_pos hc] at h ⊢
      rw [Option.some.inj h]
    rw [if_neg hc] at h ⊢
    by_cases hd : (s.tasks.tcb curr).targetWakeupTime ≤ ticks
    · rw [if_pos hd] at h ⊢
      obtain ⟨s₁, hunblock, h⟩ := Option.bind_eq_some_iff.mp h
      have ht : s₁.tasks = (s.tasks.unlinkSleeping prev curr).unblockTask curr :=
        criticalSection_tasks hunblock
      rw [← ht]
      exact ih h
    · rw [if_neg hd] at h ⊢
      exact ih h

theorem irq0Handler_tick (h : s.irq0Handler = some s') : s.tasks.tick = some s'.tasks := by
  obtain ⟨s₁, hcall, h⟩ := Option.bind_eq_some_iff.mp h
  obtain rfl := Option.some.inj h
  obtain ⟨s₂, hloop, ht⟩ := criticalSection_body hcall
  exact (wakeLoop_tasks hloop).trans (congrArg some ht.symm)

theorem callSchedule_ready (hq : s.locks.Quiet) (hf : s.tasks.firstReadyToRunTask ≠ 0)
    (h : callSchedule site s = some s') :
    s'.locks.Quiet ∧ s'.tasks = s.tasks.reschedule site :=
  ⟨(callSchedule_spec hq h).1, (callSchedule_spec hq h).2.2 hf⟩

end Scheduler

end ChoOS
