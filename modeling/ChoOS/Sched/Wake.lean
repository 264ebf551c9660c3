import ChoOS.Sched.Queue

/-!
# No task wakes early

`Worker` is the kernel with the places in the code where a timer interrupt may
come while a task sleeps or ends, and with the calls of `micro_sleep_until`
that have not returned: `pending a` is the argument of the call of task `a`.  A
call returns when its task is outside of it again, `TaskPc.user`, and
`EarlyReturn` is a return before its time.

A task waits on the sleeping list under its own time (`Waits.sleeping`), and the
timer moves it to the ready queue only after that (`Waits.ready`), so a task
that is taken from the queue is not early.  Two things go wrong.  `schedule`
returns at once when no task is ready, and the task goes on while it is on the
sleeping list.  And a timer interrupt that wakes the running task in front of
`schedule` lets it be linked twice, so that it is still in the queue when it
sleeps again.  `sleep_never_early` says that there is nothing else.
-/

namespace ChoOS

/-- Where the running task is. -/
inductive TaskPc
  /-- Outside of the calls below. -/
  | user
  /-- Behind the section of `micro_sleep_until`. -/
  | slept
  /-- In `block_task`, in front of the `schedule` of `micro_sleep_until`. -/
  | blocked
  /-- Behind the section of `terminate_task`. -/
  | ending
  /-- In front of the `schedule` of `terminate_task` or `mark_task_for_death`. -/
  | leaving
  deriving DecidableEq

structure Worker where
  sched : Scheduler
  pc : TaskPc
  pending : Nat → Option Nat

inductive TaskEvent
  | createKernelTask (newTask stackBase : Nat)
  | schedule
  | scheduleLocked
  | sleepSection (microSeconds : Nat)
  | blockSection
  | blockSchedule
  | terminateSection
  | terminateBlock
  | markSection
  | endSchedule
  | deadTasksCleanup
  | irq0Handler

namespace TaskEvent

/-- The step, from where it can be taken. -/
def run : TaskEvent → Scheduler → TaskPc → Option (Scheduler × TaskPc)
  | .createKernelTask newTask stackBase, s, .user =>
    (s.createKernelTask newTask stackBase).map (·, .user)
  | .schedule, s, .user => (s.callSchedule .afterSchedule).map (·, .user)
  | .scheduleLocked, s, .user => s.scheduleLocked.map (·, .user)
  | .sleepSection us, s, .user => (s.sleepSection us).map (·, .slept)
  | .blockSection, s, .slept => (s.blockSection taskStateSleeping).map (·, .blocked)
  | .blockSchedule, s, .blocked => (s.callSchedule .afterSchedule).map (·, .user)
  | .terminateSection, s, .user =>
    (s.criticalSection fun s => some (s.onTasks Tasks.terminateTask)).map (·, .ending)
  | .terminateBlock, s, .ending => (s.blockSection taskStateTerminated).map (·, .leaving)
  | .markSection, s, .user =>
    (s.criticalSection fun s => some (s.onTasks Tasks.markTaskForDeath)).map (·, .leaving)
  | .endSchedule, s, .leaving => (s.callSchedule .ended).map (·, .user)
  | .deadTasksCleanup, s, .user => s.deadTasksCleanup.map (·, .user)
  | .irq0Handler, s, pc => s.irq0Handler.map (·, pc)
  | _, _, _ => none

/-- `kmalloc` gives fresh blocks, an interrupt needs the interrupt flag, and times
stay below `2 ^ 31`. -/
def Allowed (w : Worker) : TaskEvent → Prop
  | .createKernelTask newTask stackBase => w.sched.tasks.Fresh newTask stackBase
  | .sleepSection us => us < 2147483648
  | .irq0Handler => w.sched.locks.interruptFlag = true ∧
      w.sched.tasks.ticksSinceBoot + 1 < 2147483648
  | _ => True

instance {w : Worker} : (e : TaskEvent) → Decidable (e.Allowed w)
  | .createKernelTask _ _ => inferInstanceAs (Decidable (w.sched.tasks.Fresh _ _))
  | .sleepSection _ => inferInstanceAs (Decidable (_ < _))
  | .irq0Handler => inferInstanceAs (Decidable (_ ∧ _))
  | .schedule | .scheduleLocked | .blockSection | .blockSchedule | .terminateSection
  | .terminateBlock | .markSection | .endSchedule | .deadTasksCleanup =>
    inferInstanceAs (Decidable True)

/-- The calls of `micro_sleep_until` after the step: it makes one, or the one of
the task that runs now returns. -/
def calls (pending : Nat → Option Nat) (current current' : Nat) (pc' : TaskPc) :
    TaskEvent → Nat → Option Nat
  | .sleepSection us => Function.update pending current (some us)
  | _ => if pc' = .user then Function.update pending current' none else pending

end TaskEvent

/-- One step of the kernel. -/
structure WorkStep (w : Worker) (e : TaskEvent) (w' : Worker) : Prop where
  allowed : e.Allowed w
  run : e.run w.sched w.pc = some (w'.sched, w'.pc)
  calls : w'.pending = e.calls w.pending w.sched.tasks.currentTaskPCB
    w'.sched.tasks.currentTaskPCB w'.pc

/-- A call of `micro_sleep_until` returns in this step, and its time has not come. -/
structure EarlyReturn (w w' : Worker) : Prop where
  pc : w'.pc = .user
  early : ∃ us, w.pending w'.sched.tasks.currentTaskPCB = some us ∧
    w'.sched.tasks.ticksSinceBoot < us

/-- The `schedule` of `micro_sleep_until` finds a ready task, and no timer interrupt
wakes the running task in front of it. -/
structure Switches (w : Worker) (e : TaskEvent) : Prop where
  ready : e = .blockSchedule → w.sched.tasks.firstReadyToRunTask ≠ 0
  asleep : e = .irq0Handler → w.pc = .blocked →
    (∃ l, Seg w.sched.tasks.next w.sched.tasks.sleepingTaskes l w.sched.tasks.currentTaskPCB ∧
      0 ∉ l) → w.sched.tasks.due w.sched.tasks.currentTaskPCB = false

/-- Where the running task is, and its state. -/
def TaskPc.Holds (t : Tasks) (r sl d : List Nat) : TaskPc → Prop
  | .user => t.currentTaskPCB ∉ r ++ sl ++ d ∧ t.state t.currentTaskPCB = taskStateRunning
  | .slept => t.currentTaskPCB ∈ r ++ sl
  | .blocked => t.currentTaskPCB ∈ r ++ sl ∧ t.state t.currentTaskPCB = taskStateSleeping
  | .ending => t.currentTaskPCB ∈ d
  | .leaving => t.currentTaskPCB ∈ d ∧ ¬ Tasks.Requeued (t.state t.currentTaskPCB)

/-- The tasks, while the running one is at `pc`. -/
structure Tasks.AtSite (t : Tasks) (pc : TaskPc) (r sl d : List Nat) : Prop where
  lists : t.Lists r sl d
  current_ne : t.currentTaskPCB ≠ 0
  created : ∀ a, a ∈ t.created ↔ a = t.currentTaskPCB ∨ a ∈ r ++ sl ++ d
  states : ∀ a ∈ r ++ sl, Tasks.runState (t.state a) = taskStateRunning
  place : pc.Holds t r sl d

namespace Tasks

/-! ### The times -/

/-- The same times, of the tasks and of the clock. -/
structure SameTimes (t t' : Tasks) : Prop where
  target : ∀ z, (t'.tcb z).targetWakeupTime = (t.tcb z).targetWakeupTime
  ticks : t'.ticksSinceBoot = t.ticksSinceBoot

variable {t t' t'' : Tasks} {r r' sl d : List Nat} {a n newTask stackBase us : Nat} {v : Int}
  {b : TaskControlBlock} {site : Resume} {pc : TaskPc} {pending : Nat → Option Nat}

theorem SameTimes.trans (h : t.SameTimes t') (h' : t'.SameTimes t'') : t.SameTimes t'' :=
  ⟨fun z => (h'.target z).trans (h.target z), h'.ticks.trans h.ticks⟩

theorem SameTimes.setTcb (hb : b.targetWakeupTime = (t.tcb a).targetWakeupTime) :
    t.SameTimes (t.setTcb a b) := by
  refine ⟨fun z => ?_, rfl⟩
  by_cases hz : z = a
  · rw [Tasks.setTcb, hz]
    dsimp only
    rw [Function.update_self, hb]
  · rw [Tasks.setTcb]
    dsimp only
    rw [Function.update_of_ne hz]

theorem SameTimes.setState : t.SameTimes (t.setState a v) := .setTcb rfl

theorem SameTimes.setNext : t.SameTimes (t.setNext a n) := .setTcb rfl

theorem SameTimes.enqueue : t.SameTimes (t.enqueue a) := by
  rw [Tasks.enqueue]
  split
  · exact ⟨fun _ => rfl, rfl⟩
  · have h : t.SameTimes (t.setNext t.lastReadyToRunTask a) := .setNext
    exact ⟨h.target, h.ticks⟩

theorem SameTimes.requeueCurrent : t.SameTimes t.requeueCurrent := by
  rw [Tasks.requeueCurrent]
  dsimp only
  split
  · have h : t.SameTimes ((t.setState t.currentTaskPCB taskStateReadyToRun).setNext
        t.currentTaskPCB 0) := SameTimes.setState.trans .setNext
    split
    · have h' := h.trans (SameTimes.setNext (a := ((t.setState t.currentTaskPCB
        taskStateReadyToRun).setNext t.currentTaskPCB 0).lastReadyToRunTask)
        (n := t.currentTaskPCB))
      exact ⟨h'.target, h'.ticks⟩
    · exact ⟨h.target, h.ticks⟩
  · exact ⟨fun _ => rfl, rfl⟩

theorem SameTimes.updateTimeUsed : t.SameTimes t.updateTimeUsed :=
  ⟨fun z => by
    by_cases hz : z = t.currentTaskPCB
    · simp [Tasks.updateTimeUsed, Tasks.setTcb, hz]
    · simp [Tasks.updateTimeUsed, Tasks.setTcb, hz], rfl⟩

theorem SameTimes.switchTo : t.SameTimes (t.switchTo site n) := by
  have h₁ : t.SameTimes (t.setEsp t.currentTaskPCB site) := .setTcb rfl
  have h₂ : t.SameTimes ((t.setEsp t.currentTaskPCB site).setCurrent n) := ⟨h₁.target, h₁.ticks⟩
  exact h₂.trans .setState

theorem SameTimes.reschedule : t.SameTimes (t.reschedule site) := by
  have h₁ : t.SameTimes t.takeFirst := ⟨fun _ => rfl, rfl⟩
  exact h₁.trans (SameTimes.updateTimeUsed.trans (SameTimes.requeueCurrent.trans .switchTo))

theorem SameTimes.wakeLoop {ticks fuel p : Nat} (h : t.wakeLoop ticks fuel p a = some t') :
    t.SameTimes t' := by
  induction fuel generalizing p a t with
  | zero => exact absurd h (by simp [Tasks.wakeLoop])
  | succ fuel ih =>
    rw [Tasks.wakeLoop] at h
    split at h
    · cases h
      exact ⟨fun _ => rfl, rfl⟩
    · split at h
      · have h₁ : t.SameTimes (t.unlinkSleeping p a) := by
          rw [unlinkSleeping]
          split
          · exact ⟨fun _ => rfl, rfl⟩
          · exact .setNext
        have h₂ : (t.unlinkSleeping p a).SameTimes ((t.unlinkSleeping p a).unblockTask a) :=
          SameTimes.setState.trans (SameTimes.setNext.trans .enqueue)
        exact (h₁.trans h₂).trans (ih h)
      · exact ih h

/-! ### Where the tasks are -/

theorem AtSite.createKernelTask (h : t.AtSite .user r sl d) (hn : newTask ∉ t.created)
    (h0 : newTask ≠ 0) :
    (t.createKernelTask newTask stackBase).AtSite .user (r ++ [newTask]) sl d := by
  obtain ⟨hc, hrun⟩ := h.place
  obtain ⟨hne, hout⟩ : newTask ≠ t.currentTaskPCB ∧ newTask ∉ r ++ sl ++ d := by
    rw [h.created, not_or] at hn
    exact hn
  have hrel := (Relinked.refl (t.fillTask newTask stackBase)).enqueue (a := newTask)
  have hcur : (t.createKernelTask newTask stackBase).currentTaskPCB = t.currentTaskPCB :=
    hrel.currentTaskPCB
  have hcr : (t.createKernelTask newTask stackBase).created = insert newTask t.created :=
    hrel.created
  refine ⟨h.lists.createKernelTask hout h0, hcur ▸ h.current_ne, fun a => ?_, fun a ha => ?_, ?_, ?_⟩
  · rw [hcr, Finset.mem_insert, h.created, hcur]
    simp only [List.mem_append, List.mem_singleton]
    tauto
  · rw [state_createKernelTask, Function.update_apply]
    split
    · rfl
    · refine h.states a ?_
      simp only [List.mem_append, List.mem_singleton] at ha ⊢
      tauto
  · rw [hcur]
    simp only [List.mem_append, List.mem_singleton, not_or] at hc ⊢
    exact ⟨⟨⟨hc.1.1, hne.symm⟩, hc.1.2⟩, hc.2⟩
  · rw [hcur, state_createKernelTask, Function.update_of_ne hne.symm, hrun]

theorem AtSite.requeue (h : t.AtSite .user (n :: r) sl d) :
    (t.reschedule site).AtSite .user (r ++ [t.currentTaskPCB]) sl d := by
  obtain ⟨hc, hrun⟩ := h.place
  obtain ⟨hl, hs⟩ := h.lists.reschedule_running site hc h.current_ne (.inl hrun)
  have hcur : (t.reschedule site).currentTaskPCB = n := h.lists.ready.1
  have hn := h.lists.head_notMem
  have hnstate := h.states n (by simp)
  rw [List.cons_append, List.cons_append, List.mem_cons, not_or] at hc
  refine ⟨hl, hcur ▸ h.lists.head_ne, fun a => ?_, fun a ha => ?_, ?_, ?_⟩
  · rw [created_reschedule, h.created, hcur]
    simp only [List.mem_append, List.mem_cons]
    tauto
  · rw [hs, Function.update_apply, Function.update_apply]
    split
    · rw [hnstate]
      rfl
    · split
      · rfl
      · refine h.states a ?_
        simp only [List.mem_append, List.mem_cons, List.not_mem_nil, or_false] at ha ⊢
        tauto
  · rw [hcur]
    simp only [List.mem_append, List.mem_singleton, not_or] at hn ⊢
    exact ⟨⟨⟨hn.1.1, Ne.symm hc.1⟩, hn.1.2⟩, hn.2⟩
  · rw [hcur, hs, Function.update_self, hnstate]

/-- **`schedule`** by a task that is on a list already. -/
theorem AtSite.leave (h : t.AtSite pc (n :: r) sl d) (hc : t.currentTaskPCB ∈ n :: r ++ sl ++ d)
    (hstate : ¬ Requeued (t.state t.currentTaskPCB)) :
    (t.reschedule site).AtSite .user r sl d := by
  obtain ⟨hl, hs⟩ := h.lists.reschedule_blocked site hstate
  have hcur : (t.reschedule site).currentTaskPCB = n := h.lists.ready.1
  have hnstate := h.states n (by simp)
  refine ⟨hl, hcur ▸ h.lists.head_ne, fun a => ?_, fun a ha => ?_, ?_, ?_⟩
  · rw [created_reschedule, h.created, hcur, List.cons_append, List.cons_append, List.mem_cons]
    rw [List.cons_append, List.cons_append, List.mem_cons] at hc
    refine ⟨?_, .inr⟩
    rintro (rfl | ha)
    · exact hc
    · exact ha
  · rw [hs, Function.update_apply]
    split
    · rw [hnstate]
      rfl
    · refine h.states a ?_
      simp only [List.mem_append, List.mem_cons] at ha ⊢
      tauto
  · rw [hcur]
    exact h.lists.head_notMem
  · rw [hcur, hs, Function.update_self, hnstate]

theorem AtSite.microSleepUntil (h : t.AtSite .user r sl d) :
    (t.microSleepUntil us).AtSite .slept r (t.currentTaskPCB :: sl) d := by
  obtain ⟨hc, hrun⟩ := h.place
  refine ⟨h.lists.microSleepUntil hc h.current_ne, h.current_ne, fun a => ?_, fun a ha => ?_, ?_⟩
  · refine (h.created a).trans ?_
    change a = t.currentTaskPCB ∨ _ ↔ a = t.currentTaskPCB ∨ _
    simp only [List.mem_append, List.mem_cons]
    tauto
  · rw [state_microSleepUntil]
    simp only [List.mem_append, List.mem_cons] at ha
    rcases ha with ha | rfl | ha
    · exact h.states a (by simp [ha])
    · rw [hrun]
      rfl
    · exact h.states a (by simp [ha])
  · exact List.mem_append_right _ List.mem_cons_self

theorem AtSite.blockTask (h : t.AtSite .slept r sl d) :
    (t.blockTask taskStateSleeping).AtSite .blocked r sl d := by
  refine ⟨h.lists.setState, h.current_ne, h.created, fun a ha => ?_, h.place, ?_⟩
  · rw [Tasks.blockTask, state_setState, Function.update_apply]
    split
    · rfl
    · exact h.states a ha
  · change (t.setState t.currentTaskPCB taskStateSleeping).state t.currentTaskPCB = _
    rw [state_setState, Function.update_self]

theorem AtSite.dead_notMem (h : t.AtSite pc r sl d) (ha : a ∈ d) : a ∉ r ++ sl := fun hm =>
  (List.nodup_append.mp h.lists.nodup).2.2 a hm a ha rfl

theorem AtSite.setDead (h : t.AtSite pc r sl d) (hc : t.currentTaskPCB ∈ d) (hv : ¬ Requeued v) :
    (t.setState t.currentTaskPCB v).AtSite .leaving r sl d := by
  refine ⟨h.lists.setState, h.current_ne, h.created, fun a ha => ?_, hc, ?_⟩
  · rw [state_setState, Function.update_of_ne]
    · exact h.states a ha
    · rintro rfl
      exact h.dead_notMem hc ha
  · change ¬ Requeued ((t.setState t.currentTaskPCB v).state t.currentTaskPCB)
    rw [state_setState, Function.update_self]
    exact hv

theorem AtSite.terminateTask (h : t.AtSite .user r sl d) :
    t.terminateTask.AtSite .ending r sl (t.currentTaskPCB :: d) := by
  refine ⟨h.lists.terminateTask h.place.1 h.current_ne, h.current_ne, fun a => ?_, fun a ha => ?_,
    List.mem_cons_self⟩
  · refine (h.created a).trans ?_
    change a = t.currentTaskPCB ∨ _ ↔ a = t.currentTaskPCB ∨ _
    simp only [List.mem_append, List.mem_cons]
    tauto
  · have hs : t.terminateTask.state = t.state := state_setNext
    rw [hs]
    exact h.states a ha

theorem AtSite.markTaskForDeath (h : t.AtSite .user r sl d) :
    t.markTaskForDeath.AtSite .leaving r sl (t.currentTaskPCB :: d) := by
  have hcomm : t.markTaskForDeath
      = t.terminateTask.setState t.terminateTask.currentTaskPCB taskStateDead := by
    simp only [Tasks.markTaskForDeath, Tasks.terminateTask, Tasks.setState, Tasks.setNext,
      Tasks.setDead, Tasks.setTcb, Function.update_idem, Function.update_self]
  rw [hcomm]
  exact h.terminateTask.setDead List.mem_cons_self (by decide)

theorem AtSite.deadTasksCleanup (h : t.AtSite .user r sl d) (ht : t.deadTasksCleanup = some t') :
    t'.AtSite .user r sl [] := by
  obtain ⟨hl, hcr, live, created, rfl⟩ := h.lists.deadTasksCleanup ht
  obtain ⟨hc, hrun⟩ := h.place
  rw [List.mem_append, not_or] at hc
  refine ⟨hl, h.current_ne, fun a => ?_, h.states, by rw [List.append_nil]; exact hc.1, hrun⟩
  rw [List.append_nil]
  refine (hcr a).trans ?_
  rw [h.created, List.mem_append (s := r ++ sl)]
  constructor
  · rintro ⟨rfl | ha | ha, hnd⟩
    · exact .inl rfl
    · exact .inr ha
    · exact absurd ha hnd
  · rintro (rfl | ha)
    · exact ⟨.inl rfl, hc.2⟩
    · exact ⟨.inr (.inl ha), fun had => h.dead_notMem had ha⟩

/-- **The timer interrupt**, unless it wakes the running task in front of the
`schedule` of `micro_sleep_until`. -/
theorem AtSite.tick (h : t.AtSite pc r sl d) (ht : t.tick = some t')
    (hb : pc = .blocked → t.currentTaskPCB ∈ sl → t.due t.currentTaskPCB = false) :
    t'.AtSite pc (r ++ sl.filter t.due) (sl.filter fun z => !t.due z) d := by
  obtain ⟨hl, hs, hc, hcr⟩ := h.lists.tick ht
  have hmem {a : Nat} : a ∈ r ++ sl.filter t.due ++ (sl.filter fun z => !t.due z) ↔
      a ∈ r ++ sl := by
    simp only [List.mem_append, List.mem_filter]
    cases t.due a <;> simp
  -- a task that is not woken keeps its state
  have hkeep {a : Nat} (ha : a ∈ sl → t.due a = false) : t'.state a = t.state a := by
    rw [hs, if_neg]
    intro hm
    obtain ⟨hm, hdue⟩ := List.mem_filter.mp hm
    rw [ha hm] at hdue
    cases hdue
  refine ⟨hl, hc ▸ h.current_ne, fun a => ?_, fun a ha => ?_, ?_⟩
  · rw [hcr, h.created, hc, List.mem_append, List.mem_append (s := r ++ sl.filter t.due ++ _), hmem]
  · rw [hs]
    split
    · rfl
    · exact h.states a (hmem.mp ha)
  · cases pc with
    | user =>
      obtain ⟨hno, hrun⟩ := h.place
      rw [List.mem_append, not_or] at hno
      have hsl : t.currentTaskPCB ∉ sl := fun hm => hno.1 (by simp [hm])
      refine ⟨?_, ?_⟩
      · rw [hc, List.mem_append, not_or, hmem]
        exact hno
      · rw [hc, hkeep fun hm => absurd hm hsl]
        exact hrun
    | slept =>
      rw [TaskPc.Holds, hc]
      exact hmem.mpr h.place
    | blocked =>
      refine ⟨hc ▸ hmem.mpr h.place.1, ?_⟩
      rw [hc, hkeep (hb rfl)]
      exact h.place.2
    | ending =>
      rw [TaskPc.Holds, hc]
      exact h.place
    | leaving =>
      have hno := h.dead_notMem h.place.1
      refine ⟨hc ▸ h.place.1, ?_⟩
      rw [hc, hkeep fun hm => absurd (List.mem_append_right r hm) hno]
      exact h.place.2

end Tasks

/-! ### The calls that wait -/

/-- A task whose call has not returned is on the sleeping list under its own time,
or in the ready queue and its time has come. -/
structure Waits (t : Tasks) (pending : Nat → Option Nat) (r sl : List Nat) : Prop where
  only : ∀ a us, pending a = some us → a ∈ r ++ sl
  ready : ∀ a ∈ r, ∀ us, pending a = some us → us ≤ t.ticksSinceBoot
  sleeping : ∀ a ∈ sl, ∀ us, pending a = some us → (t.tcb a).targetWakeupTime = us

section Waits

variable {t t' : Tasks} {r r' sl d : List Nat} {a n us newTask stackBase : Nat}
  {pending : Nat → Option Nat}

theorem Waits.none_of_notMem (h : Waits t pending r sl) (ha : a ∉ r ++ sl) : pending a = none := by
  cases hp : pending a with
  | none => rfl
  | some us => exact absurd (h.only a us hp) ha

theorem Waits.returned (h : Waits t pending r sl) (ha : a ∉ r ++ sl) :
    Waits t (Function.update pending a none) r sl := by
  rw [← h.none_of_notMem ha, Function.update_eq_self]
  exact h

theorem Waits.congr (h : Waits t pending r sl) (hs : t.SameTimes t') : Waits t' pending r sl := by
  refine ⟨h.only, fun a ha us hp => ?_, fun a ha us hp => ?_⟩
  · rw [hs.ticks]
    exact h.ready a ha us hp
  · rw [hs.target]
    exact h.sleeping a ha us hp

/-- **A task is taken from the ready queue**, and its call returns. -/
theorem Waits.resume (h : Waits t pending (n :: r) sl) (hsub : ∀ a ∈ r, a ∈ r')
    (hnew : ∀ a ∈ r', a ∈ r ∨ pending a = none) :
    Waits t (Function.update pending n none) r' sl := by
  have hold : ∀ {a us}, Function.update pending n none a = some us →
      a ≠ n ∧ pending a = some us := by
    intro a us hp
    by_cases ha : a = n
    · rw [ha, Function.update_self] at hp
      cases hp
    · rw [Function.update_of_ne ha] at hp
      exact ⟨ha, hp⟩
  refine ⟨fun a us hp => ?_, fun a ha us hp => ?_, fun a ha us hp => h.sleeping a ha us (hold hp).2⟩
  · obtain ⟨hne, hp⟩ := hold hp
    have hm := h.only a us hp
    simp only [List.cons_append, List.mem_cons, List.mem_append] at hm ⊢
    exact (hm.resolve_left hne).imp_left (hsub a)
  · obtain ⟨hne, hp⟩ := hold hp
    rcases hnew a ha with ha | hno
    · exact h.ready a (List.mem_cons_of_mem _ ha) us hp
    · rw [hno] at hp
      cases hp

theorem Waits.taken {site : Resume} (h : Waits t pending (n :: r) sl)
    (hl : t.Lists (n :: r) sl d) : Waits (t.reschedule site)
      (Function.update pending (t.reschedule site).currentTaskPCB none) r sl := by
  have hcur : (t.reschedule site).currentTaskPCB = n := hl.ready.1
  rw [hcur]
  exact (h.resume (fun _ ha => ha) fun _ ha => .inl ha).congr .reschedule

theorem Waits.microSleepUntil (h : Waits t pending r sl) (hc : t.currentTaskPCB ∉ r ++ sl)
    (hus : us < 4294967296) :
    Waits (t.microSleepUntil us) (Function.update pending t.currentTaskPCB (some us)) r
      (t.currentTaskPCB :: sl) := by
  have htarget : ∀ a, ((t.microSleepUntil us).tcb a).targetWakeupTime
      = if a = t.currentTaskPCB then us else (t.tcb a).targetWakeupTime := by
    intro a
    rw [Tasks.microSleepUntil]
    by_cases ha : a = t.currentTaskPCB
    · simp [Tasks.setTarget, Tasks.setNext, Tasks.setSleeping, Tasks.setTcb, ha, u32_of_lt hus]
    · simp [Tasks.setTarget, Tasks.setNext, Tasks.setSleeping, Tasks.setTcb, ha]
  rw [List.mem_append, not_or] at hc
  refine ⟨fun a us' hp => ?_, fun a ha us' hp => ?_, fun a ha us' hp => ?_⟩
  · by_cases hac : a = t.currentTaskPCB
    · simp [hac]
    · rw [Function.update_of_ne hac] at hp
      have := h.only a us' hp
      simp only [List.mem_append, List.mem_cons] at this ⊢
      tauto
  · have hac : a ≠ t.currentTaskPCB := fun e => hc.1 (e ▸ ha)
    rw [Function.update_of_ne hac] at hp
    exact h.ready a ha us' hp
  · rw [htarget]
    by_cases hac : a = t.currentTaskPCB
    · rw [hac, Function.update_self] at hp
      rw [if_pos hac]
      exact Option.some.inj hp
    · rw [Function.update_of_ne hac] at hp
      rw [if_neg hac]
      exact h.sleeping a ((List.mem_cons.mp ha).resolve_left hac) us' hp

theorem Waits.tick (h : Waits t pending r sl) (ht : t.tick = some t')
    (hticks : t.ticksSinceBoot + 1 < 2147483648) :
    Waits t' pending (r ++ sl.filter t.due) (sl.filter fun z => !t.due z) := by
  have hs := Tasks.SameTimes.wakeLoop ht
  have hnow : t'.ticksSinceBoot = t.ticksSinceBoot + 1 :=
    hs.ticks.trans (Nat.mod_eq_of_lt (by omega))
  have hu : u64 (t.ticksSinceBoot + 1) = t.ticksSinceBoot + 1 := Nat.mod_eq_of_lt (by omega)
  refine ⟨fun a us hp => ?_, fun a ha us hp => ?_, fun a ha us hp => ?_⟩
  · have := h.only a us hp
    simp only [List.mem_append, List.mem_filter] at this ⊢
    cases t.due a <;> simp_all
  · rw [hnow]
    rcases List.mem_append.mp ha with ha | ha
    · have := h.ready a ha us hp
      omega
    · -- a sleeper that is due
      obtain ⟨ha, hdue⟩ := List.mem_filter.mp ha
      have hle := of_decide_eq_true hdue
      rw [h.sleeping a ha us hp, hu] at hle
      exact hle
  · rw [hs.target]
    exact h.sleeping a (List.mem_of_mem_filter ha) us hp

theorem Waits.createKernelTask (h : Waits t pending r sl) (hn : newTask ∉ r ++ sl) :
    Waits (t.createKernelTask newTask stackBase) pending (r ++ [newTask]) sl := by
  have hno := h.none_of_notMem hn
  have hs : (t.fillTask newTask stackBase).SameTimes (t.createKernelTask newTask stackBase) :=
    .enqueue
  have hticks : (t.createKernelTask newTask stackBase).ticksSinceBoot = t.ticksSinceBoot := hs.ticks
  have htarget : ∀ a, a ≠ newTask →
      ((t.createKernelTask newTask stackBase).tcb a).targetWakeupTime
        = (t.tcb a).targetWakeupTime := by
    intro a ha
    rw [hs.target]
    simp [Tasks.fillTask, Tasks.setTcb, ha]
  refine ⟨fun a us hp => ?_, fun a ha us hp => ?_, fun a ha us hp => ?_⟩
  · have := h.only a us hp
    simp only [List.mem_append] at this ⊢
    tauto
  · rw [hticks]
    rcases List.mem_append.mp ha with ha | ha
    · exact h.ready a ha us hp
    · rw [List.mem_singleton.mp ha, hno] at hp
      cases hp
  · rw [htarget a fun e => hn (e ▸ List.mem_append_right _ ha)]
    exact h.sleeping a ha us hp

end Waits

/-! ### Steps -/

/-- What a step does to the tasks. -/
inductive Moves (t : Tasks) : TaskPc → TaskEvent → Tasks → TaskPc → Prop
  | create {newTask stackBase : Nat} : Moves t .user (.createKernelTask newTask stackBase)
      (t.createKernelTask newTask stackBase) .user
  | idle {e : TaskEvent} : e = .schedule ∨ e = .scheduleLocked → t.firstReadyToRunTask = 0 →
      Moves t .user e t .user
  | schedule {e : TaskEvent} {site : Resume} : e = .schedule ∨ e = .scheduleLocked →
      t.firstReadyToRunTask ≠ 0 → Moves t .user e (t.reschedule site) .user
  | sleep {us : Nat} : Moves t .user (.sleepSection us) (t.microSleepUntil us) .slept
  | block : Moves t .slept .blockSection (t.blockTask taskStateSleeping) .blocked
  | goOn : t.firstReadyToRunTask = 0 → Moves t .blocked .blockSchedule t .user
  | switch : t.firstReadyToRunTask ≠ 0 →
      Moves t .blocked .blockSchedule (t.reschedule .afterSchedule) .user
  | terminate : Moves t .user .terminateSection t.terminateTask .ending
  | terminateBlock : Moves t .ending .terminateBlock (t.blockTask taskStateTerminated) .leaving
  | mark : Moves t .user .markSection t.markTaskForDeath .leaving
  | leave : t.firstReadyToRunTask ≠ 0 →
      Moves t .leaving .endSchedule (t.reschedule .ended) .user
  | cleanup {t' : Tasks} : t.deadTasksCleanup = some t' →
      Moves t .user .deadTasksCleanup t' .user
  | tick {t' : Tasks} {pc : TaskPc} : t.tick = some t' → Moves t pc .irq0Handler t' pc

/-- The invariant of the runs. -/
structure Worker.Inv (w : Worker) : Prop where
  quiet : w.sched.locks.Quiet
  blocks : w.sched.tasks.Blocks
  places : ∃ r sl d, w.sched.tasks.AtSite w.pc r sl d ∧ Waits w.sched.tasks w.pending r sl

section Step

variable {s s' : Scheduler} {w w' : Worker} {e : TaskEvent} {pc pc' : TaskPc}

theorem result_of_map {x : Option Scheduler} (h : x.map (·, pc) = some (s', pc')) :
    x = some s' ∧ pc = pc' := by
  obtain ⟨s₁, hx, he⟩ := Option.map_eq_some_iff.mp h
  obtain ⟨rfl, rfl⟩ := Prod.mk.inj he
  exact ⟨hx, rfl⟩

theorem section_moves {f : Tasks → Tasks} (hq : s.locks.Quiet)
    (h : (s.criticalSection fun s => some (s.onTasks f)).map (·, pc) = some (s', pc')) :
    s'.tasks = f s.tasks ∧ pc' = pc ∧ s'.locks.Quiet := by
  rw [Scheduler.criticalSection_onTasks hq.unpostponed, Option.map_some] at h
  obtain ⟨rfl, rfl⟩ := Prod.mk.inj (Option.some.inj h)
  exact ⟨rfl, rfl, hq.afterSection⟩

/-- **What a step can do.** -/
theorem TaskEvent.run_moves (hq : s.locks.Quiet) (h : e.run s pc = some (s', pc')) :
    Moves s.tasks pc e s'.tasks pc' ∧ s'.locks.Quiet := by
  have hun := hq.unpostponed
  cases e with
  | irq0Handler =>
    obtain ⟨hrun, rfl⟩ := result_of_map h
    rw [Scheduler.irq0Handler_eq hq.steady] at hrun
    obtain ⟨t, ht, rfl⟩ := Option.map_eq_some_iff.mp hrun
    exact ⟨.tick ht, hq⟩
  | createKernelTask newTask stackBase =>
    cases pc <;> try cases h
    obtain ⟨ht, rfl, hq'⟩ := section_moves hq h
    exact ⟨ht ▸ .create, hq'⟩
  | schedule =>
    cases pc <;> try cases h
    obtain ⟨hrun, rfl⟩ := result_of_map h
    obtain ⟨hq', h0, h1⟩ := Scheduler.callSchedule_spec hq hrun
    refine ⟨?_, hq'⟩
    by_cases hf : s.tasks.firstReadyToRunTask = 0
    · exact (h0 hf).symm ▸ .idle (.inl rfl) hf
    · exact (h1 hf).symm ▸ .schedule (.inl rfl) hf
  | scheduleLocked =>
    cases pc <;> try cases h
    obtain ⟨hrun, rfl⟩ := result_of_map h
    obtain ⟨hq', h0, h1⟩ := Scheduler.scheduleLocked_spec hq hrun
    refine ⟨?_, hq'⟩
    by_cases hf : s.tasks.firstReadyToRunTask = 0
    · exact (h0 hf).symm ▸ .idle (.inr rfl) hf
    · exact (h1 hf).symm ▸ .schedule (.inr rfl) hf
  | sleepSection us =>
    cases pc <;> try cases h
    obtain ⟨ht, rfl, hq'⟩ := section_moves hq h
    exact ⟨ht ▸ .sleep, hq'⟩
  | blockSection =>
    cases pc <;> try cases h
    obtain ⟨ht, rfl, hq'⟩ := section_moves hq h
    exact ⟨ht ▸ .block, hq'⟩
  | blockSchedule =>
    cases pc <;> try cases h
    obtain ⟨hrun, rfl⟩ := result_of_map h
    obtain ⟨hq', h0, h1⟩ := Scheduler.callSchedule_spec hq hrun
    refine ⟨?_, hq'⟩
    by_cases hf : s.tasks.firstReadyToRunTask = 0
    · exact (h0 hf).symm ▸ .goOn hf
    · exact (h1 hf).symm ▸ .switch hf
  | terminateSection =>
    cases pc <;> try cases h
    obtain ⟨ht, rfl, hq'⟩ := section_moves hq h
    exact ⟨ht ▸ .terminate, hq'⟩
  | terminateBlock =>
    cases pc <;> try cases h
    obtain ⟨ht, rfl, hq'⟩ := section_moves hq h
    exact ⟨ht ▸ .terminateBlock, hq'⟩
  | markSection =>
    cases pc <;> try cases h
    obtain ⟨ht, rfl, hq'⟩ := section_moves hq h
    exact ⟨ht ▸ .mark, hq'⟩
  | endSchedule =>
    cases pc <;> try cases h
    obtain ⟨hrun, rfl⟩ := result_of_map h
    have hf : s.tasks.firstReadyToRunTask ≠ 0 := by
      -- without a ready task the call ends in `abort`
      intro hf
      rw [Scheduler.callSchedule, Scheduler.schedule, if_neg (by simp [hq.counter]), if_pos hf] at hrun
      cases hrun
    obtain ⟨hq', -, h1⟩ := Scheduler.callSchedule_spec hq hrun
    exact ⟨(h1 hf).symm ▸ .leave hf, hq'⟩
  | deadTasksCleanup =>
    cases pc <;> try cases h
    obtain ⟨hrun, rfl⟩ := result_of_map h
    rw [Scheduler.deadTasksCleanup,
      Scheduler.criticalSection_eq (g := s.tasks.deadTasksCleanup) hun rfl] at hrun
    obtain ⟨t, ht, rfl⟩ := Option.map_eq_some_iff.mp hrun
    exact ⟨.cleanup ht, hq.afterSection⟩

variable {t t' : Tasks} {pending : Nat → Option Nat} {r sl d : List Nat}

/-- **A step keeps the tasks in place**, and their calls in time as long as no time
wraps. -/
theorem Moves.keeps (hm : Moves t pc e t' pc') (hb : t.Blocks) (hp : t.AtSite pc r sl d)
    (hfresh : ∀ newTask stackBase, e = .createKernelTask newTask stackBase →
      t.Fresh newTask stackBase)
    (hready : e = .blockSchedule → t.firstReadyToRunTask ≠ 0)
    (hdue : e = .irq0Handler → pc = .blocked → t.currentTaskPCB ∈ sl →
      t.due t.currentTaskPCB = false) :
    t'.Blocks ∧ ∃ r' sl' d', t'.AtSite pc' r' sl' d' ∧ ∀ pending, Waits t pending r sl →
      (∀ us, e = .sleepSection us → us < 2147483648) →
      (e = .irq0Handler → t.ticksSinceBoot + 1 < 2147483648) →
      Waits t' (e.calls pending t.currentTaskPCB t'.currentTaskPCB pc') r' sl' := by
  -- a task at `user` is on no list, so it has no call that waits
  have hout : ∀ {t r sl d}, Tasks.AtSite t .user r sl d → t.currentTaskPCB ∉ r ++ sl := by
    intro t r sl d hp hm
    exact hp.place.1 (List.mem_append_left _ hm)
  cases hm with
  | @create newTask stackBase =>
    have hf := hfresh _ _ rfl
    have hp' : (t.createKernelTask newTask stackBase).AtSite .user (r ++ [newTask]) sl d :=
      hp.createKernelTask (hf.notMem hb) hf.task_ne
    have hn := hf.notMem hb
    rw [hp.created, List.mem_append, not_or, not_or] at hn
    refine ⟨hb.createKernelTask hf, _, _, _, hp', ?_⟩
    intro pending hw _ _
    have hw' : Waits (t.createKernelTask newTask stackBase) pending (r ++ [newTask]) sl :=
      hw.createKernelTask hn.2.1
    exact hw'.returned (hout hp')
  | idle he hf =>
    refine ⟨hb, _, _, _, hp, ?_⟩
    intro pending hw _ _
    rcases he with rfl | rfl <;> exact hw.returned (hout hp)
  | @schedule _ site he hf =>
    obtain ⟨n, r', rfl⟩ := hp.lists.exists_cons hf
    have hcur : (t.reschedule site).currentTaskPCB = n := hp.lists.ready.1
    refine ⟨hb.congr .reschedule, _, _, _, hp.requeue, ?_⟩
    intro pending hw _ _
    have hno := hw.none_of_notMem (hout hp)
    have hw' : Waits (t.reschedule site)
        (Function.update pending (t.reschedule site).currentTaskPCB none)
        (r' ++ [t.currentTaskPCB]) sl := by
      rw [hcur]
      refine (hw.resume (fun a ha => List.mem_append_left _ ha) fun a ha => ?_).congr .reschedule
      rcases List.mem_append.mp ha with ha | ha
      · exact .inl ha
      · exact .inr (List.mem_singleton.mp ha ▸ hno)
    rcases he with rfl | rfl <;> exact hw'
  | sleep =>
    refine ⟨hb.congr .microSleepUntil, _, _, _, hp.microSleepUntil, ?_⟩
    intro pending hw hus _
    exact hw.microSleepUntil (hout hp) (Nat.lt_trans (hus _ rfl) (by decide))
  | block =>
    refine ⟨hb.congr .setState, _, _, _, hp.blockTask, ?_⟩
    intro pending hw _ _
    exact hw.congr .setState
  | goOn hf => exact absurd hf (hready rfl)
  | switch hf =>
    obtain ⟨n, r', rfl⟩ := hp.lists.exists_cons hf
    refine ⟨hb.congr .reschedule, _, _, _, hp.leave (List.mem_append_left _ hp.place.1) ?_, ?_⟩
    · rw [hp.place.2]
      decide
    · intro pending hw _ _
      exact hw.taken hp.lists
  | terminate =>
    refine ⟨hb.congr .terminateTask, _, _, _, hp.terminateTask, ?_⟩
    intro pending hw _ _
    have h : t.SameTimes (t.setNext t.currentTaskPCB t.deadTasks) := .setNext
    exact hw.congr ⟨h.target, h.ticks⟩
  | terminateBlock =>
    refine ⟨hb.congr .setState, _, _, _, hp.setDead hp.place (by decide), ?_⟩
    intro pending hw _ _
    exact hw.congr .setState
  | mark =>
    refine ⟨hb.congr .markTaskForDeath, _, _, _, hp.markTaskForDeath, ?_⟩
    intro pending hw _ _
    have h := (Tasks.SameTimes.setState (t := t) (a := t.currentTaskPCB)
      (v := taskStateDead)).trans (.setNext (a := t.currentTaskPCB) (n := t.deadTasks))
    exact hw.congr ⟨h.target, h.ticks⟩
  | leave hf =>
    obtain ⟨n, r', rfl⟩ := hp.lists.exists_cons hf
    refine ⟨hb.congr .reschedule, _, _, _,
      hp.leave (List.mem_append_right _ hp.place.1) hp.place.2, ?_⟩
    intro pending hw _ _
    exact hw.taken hp.lists
  | cleanup ht =>
    have hp' := hp.deadTasksCleanup ht
    have hdead : ∀ z ∈ d, z ∈ t.created := fun z hz => (hp.created z).mpr (.inr (by simp [hz]))
    refine ⟨hb.deadTasksCleanup hp.lists hdead ht, _, _, _, hp', ?_⟩
    intro pending hw _ _
    have hw' : Waits t' pending r sl := by
      obtain ⟨-, -, live, created, rfl⟩ := hp.lists.deadTasksCleanup ht
      exact hw.congr ⟨fun _ => rfl, rfl⟩
    exact hw'.returned (hout hp')
  | tick ht =>
    have hp' := hp.tick ht (hdue rfl)
    refine ⟨hb.congr (.tick ht), _, _, _, hp', ?_⟩
    intro pending hw _ hticks
    have hw' := hw.tick ht (hticks rfl)
    cases pc with
    | user => exact hw'.returned (hout hp')
    | slept => exact hw'
    | blocked => exact hw'
    | ending => exact hw'
    | leaving => exact hw'

theorem Moves.early (hm : Moves t pc e t' pc') (hp : t.AtSite pc r sl d)
    (hw : Waits t pending r sl) {us : Nat} (hpc : pc' = .user)
    (hus : pending t'.currentTaskPCB = some us) (hlt : t'.ticksSinceBoot < us) :
    e = .blockSchedule ∧ t.firstReadyToRunTask = 0 ∧ t' = t := by
  -- the running task, when it is at `user` before and after
  have hsame : pc = .user → t'.currentTaskPCB ≠ t.currentTaskPCB := by
    rintro rfl hcur
    have hno := hw.none_of_notMem fun hm => hp.place.1 (List.mem_append_left d hm)
    rw [hcur, hno] at hus
    cases hus
  -- a task from the ready queue
  have htaken : ∀ {site}, t' = t.reschedule site → t.firstReadyToRunTask = 0 := by
    intro site ht
    by_contra hf
    obtain ⟨n, r', rfl⟩ := hp.lists.exists_cons hf
    have hcur : (t.reschedule site).currentTaskPCB = n := hp.lists.ready.1
    have hticks : (t.reschedule site).ticksSinceBoot = t.ticksSinceBoot :=
      Tasks.SameTimes.reschedule.ticks
    rw [ht, hcur] at hus
    rw [ht, hticks] at hlt
    have := hw.ready n List.mem_cons_self us hus
    omega
  cases hm with
  | create =>
    exact absurd ((Tasks.Relinked.refl (t.fillTask _ _)).enqueue (a := _)).currentTaskPCB (hsame rfl)
  | idle he hf => exact absurd rfl (hsame rfl)
  | schedule he hf => exact absurd (htaken rfl) hf
  | sleep => cases hpc
  | block => cases hpc
  | goOn hf => exact ⟨rfl, hf, rfl⟩
  | switch hf => exact absurd (htaken rfl) hf
  | terminate => cases hpc
  | terminateBlock => cases hpc
  | mark => cases hpc
  | leave hf => exact absurd (htaken rfl) hf
  | cleanup ht =>
    obtain ⟨-, -, live, created, rfl⟩ := hp.lists.deadTasksCleanup ht
    exact absurd rfl (hsame rfl)
  | tick ht => exact absurd (hp.lists.tick ht).2.2.1 (hsame hpc)

theorem Switches.due_eq_false (hsw : Switches w e) (hl : w.sched.tasks.Lists r sl d)
    (he : e = .irq0Handler) (hpc : w.pc = .blocked) (hmem : w.sched.tasks.currentTaskPCB ∈ sl) :
    w.sched.tasks.due w.sched.tasks.currentTaskPCB = false := by
  have hnonnull := hl.nonnull
  obtain ⟨l₁, l₂, rfl⟩ := List.append_of_mem hmem
  refine hsw.asleep he hpc ⟨l₁, (seg_append_cons.mp hl.sleeping).1, fun h0 => ?_⟩
  exact hnonnull (by simp [h0])

theorem WorkStep.inv (hs : WorkStep w e w') (hsw : Switches w e) (h : w.Inv) : w'.Inv := by
  obtain ⟨hq, hb, r, sl, d, hp, hw⟩ := h
  obtain ⟨hm, hq'⟩ := TaskEvent.run_moves hq hs.run
  have ha := hs.allowed
  obtain ⟨hb', r', sl', d', hp', hw'⟩ := hm.keeps hb hp (fun _ _ he => by subst he; exact ha)
    hsw.ready fun he hpc hmem => hsw.due_eq_false hp.lists he hpc hmem
  have hw' := hw' w.pending hw (fun _ he => by subst he; exact ha)
    fun he => by subst he; exact ha.2
  exact ⟨hq', hb', r', sl', d', hp', hs.calls ▸ hw'⟩

theorem WorkStep.early_iff (hs : WorkStep w e w') (h : w.Inv) :
    EarlyReturn w w' ↔ e = .blockSchedule ∧ w.sched.tasks.firstReadyToRunTask = 0 ∧
      ∃ us, w.pending w.sched.tasks.currentTaskPCB = some us ∧
        w.sched.tasks.ticksSinceBoot < us := by
  obtain ⟨hq, hb, r, sl, d, hp, hw⟩ := h
  obtain ⟨hm, -⟩ := TaskEvent.run_moves hq hs.run
  constructor
  · rintro ⟨hpc, us, hus, hlt⟩
    obtain ⟨he, hf, ht⟩ := hm.early hp hw hpc hus hlt
    rw [ht] at hus hlt
    exact ⟨he, hf, us, hus, hlt⟩
  · rintro ⟨rfl, hf, us, hus, hlt⟩
    generalize hpc : w.pc = pc at hm
    generalize ht : w'.sched.tasks = t' at hm
    generalize hpc' : w'.pc = pc' at hm
    cases hm with
    | idle he _ => rcases he with he | he <;> cases he
    | schedule he _ => rcases he with he | he <;> cases he
    | goOn _ =>
      refine ⟨hpc', us, ?_, ?_⟩ <;> rw [ht]
      · exact hus
      · exact hlt
    | switch hne => exact absurd hf hne

end Step

section Run

variable {kernelTask ticks : Nat} {tcb : Nat → TaskControlBlock} {live : Nat → Bool}

/-- The kernel task, after `multitasking_initialize`. -/
def Worker.start (s : Scheduler) : Worker := ⟨s, .user, fun _ => none⟩

theorem Worker.start_inv (hk : kernelTask ≠ 0) (h0 : live 0 = false) :
    (Worker.start (Scheduler.multitaskingInitialize kernelTask ticks tcb live)).Inv := by
  have hp : (Scheduler.multitaskingInitialize kernelTask ticks tcb live).tasks.Placed [] [] [] :=
    multitaskingInitialize_placed hk
  refine ⟨⟨rfl, rfl⟩, multitaskingInitialize_blocks hk h0, [], [], [], ⟨hp.lists, hk, hp.created,
    by simp, hp.current_notMem, hp.running⟩, ⟨fun _ _ h => ?_, by simp, by simp⟩⟩
  cases h

/-- **A sleeping task never wakes early** while every `schedule` of
`micro_sleep_until` can switch: in every state of every run of such steps the
next step returns early only if it is a `schedule` that finds no ready task. -/
theorem sleep_never_early {es : List TaskEvent} {w : Worker} (hk : kernelTask ≠ 0)
    (h0 : live 0 = false)
    (hrun : Trace (fun w e w' => WorkStep w e w' ∧ Switches w e)
      (Worker.start (Scheduler.multitaskingInitialize kernelTask ticks tcb live)) es w) :
    (∀ e w', WorkStep w e w' → Switches w e → ¬ EarlyReturn w w') ∧
    ∀ e w', WorkStep w e w' →
      (EarlyReturn w w' ↔ e = .blockSchedule ∧ w.sched.tasks.firstReadyToRunTask = 0 ∧
        ∃ us, w.pending w.sched.tasks.currentTaskPCB = some us ∧
          w.sched.tasks.ticksSinceBoot < us) := by
  have hinv : w.Inv := hrun.invariant (Worker.start_inv hk h0) fun _ _ _ h hs => hs.1.inv hs.2 h
  refine ⟨fun e w' hs hsw hearly => ?_, fun e w' hs => hs.early_iff hinv⟩
  obtain ⟨he, hf, -⟩ := (hs.early_iff hinv).mp hearly
  exact hsw.ready he hf

/-- The step, when it is allowed and `schedule` can switch. -/
def TaskEvent.step (e : TaskEvent) (w : Worker) : Option Worker :=
  if e.Allowed w then
    (e.run w.sched w.pc).map fun p =>
      ⟨p.1, p.2, e.calls w.pending w.sched.tasks.currentTaskPCB p.1.tasks.currentTaskPCB p.2⟩
  else none

theorem TaskEvent.step_spec {e : TaskEvent} {w w' : Worker} (h : e.step w = some w') :
    WorkStep w e w' := by
  rw [TaskEvent.step] at h
  split at h
  · obtain ⟨⟨s', pc'⟩, hrun, rfl⟩ := Option.map_eq_some_iff.mp h
    exact ⟨‹_›, hrun, rfl⟩
  · cases h

/-- The step, when besides that no ready queue is empty and no interrupt comes in
front of the `schedule` of `micro_sleep_until`. -/
def TaskEvent.stepSwitching (e : TaskEvent) (w : Worker) : Option Worker :=
  if w.pc = .blocked ∧ (w.sched.tasks.firstReadyToRunTask = 0 ∨
    w.sched.tasks.due w.sched.tasks.currentTaskPCB = true) then none else e.step w

theorem TaskEvent.stepSwitching_spec {e : TaskEvent} {w w' : Worker}
    (h : e.stepSwitching w = some w') : WorkStep w e w' ∧ Switches w e := by
  rw [TaskEvent.stepSwitching] at h
  split at h
  · cases h
  · rename_i hn
    have hs := TaskEvent.step_spec h
    refine ⟨hs, fun he hf => ?_, fun _ hpc _ => ?_⟩
    · subst he
      have hpc : w.pc = .blocked := by
        have hrun := hs.run
        generalize w.pc = pc at hrun
        cases pc <;> first | rfl | cases hrun
      exact hn ⟨hpc, .inl hf⟩
    · exact Bool.eq_false_iff.mpr fun hdue => hn ⟨hpc, .inr hdue⟩

theorem sleep_never_early_booted : ∃ w,
    Trace (fun w e w' => WorkStep w e w' ∧ Switches w e) (Worker.start bootedTask)
      [.createKernelTask 8192 8448, .sleepSection 3, .irq0Handler, .blockSection, .blockSchedule,
        .irq0Handler, .irq0Handler, .terminateSection, .terminateBlock, .endSchedule] w ∧
    w.sched.tasks.currentTaskPCB = 4096 ∧
    ∀ e w', WorkStep w e w' → Switches w e → ¬ EarlyReturn w w' := by
  have hexec : (execute TaskEvent.stepSwitching [.createKernelTask 8192 8448, .sleepSection 3,
      .irq0Handler, .blockSection, .blockSchedule, .irq0Handler, .irq0Handler, .terminateSection,
      .terminateBlock, .endSchedule] (Worker.start bootedTask)).map
        (fun w => w.sched.tasks.currentTaskPCB) = some 4096 := by
    decide +kernel
  obtain ⟨w, hw, hcur⟩ := Option.map_eq_some_iff.mp hexec
  have hrun := Trace.of_execute (fun _ _ _ => TaskEvent.stepSwitching_spec) hw
  exact ⟨w, hrun, hcur, (sleep_never_early (by decide) rfl hrun).1⟩

/-- The only task sleeps until tick `5`, and the call returns at tick `0`. -/
theorem sleep_alone_returns : ∃ w w', Trace WorkStep (Worker.start bootedTask)
    [.sleepSection 5, .blockSection] w ∧ WorkStep w .blockSchedule w' ∧ EarlyReturn w w' := by
  have hexec : (execute TaskEvent.step [.sleepSection 5, .blockSection]
      (Worker.start bootedTask)).bind (fun w => (TaskEvent.blockSchedule.step w).map fun w' =>
        (w'.pc, w.pending w'.sched.tasks.currentTaskPCB, w'.sched.tasks.ticksSinceBoot))
      = some (.user, some 5, 0) := by
    decide +kernel
  obtain ⟨w, hw, hexec⟩ := Option.bind_eq_some_iff.mp hexec
  obtain ⟨w', hw', he⟩ := Option.map_eq_some_iff.mp hexec
  obtain ⟨hpc, he⟩ := Prod.mk.inj he
  obtain ⟨hus, hticks⟩ := Prod.mk.inj he
  refine ⟨w, w', Trace.of_execute (fun _ _ _ => TaskEvent.step_spec) hw, TaskEvent.step_spec hw',
    hpc, 5, hus, ?_⟩
  rw [hticks]
  decide

end Run

end ChoOS
