import ChoOS.Sched.Queue

/-!
# The lock counters

`postpone_task_switches_counter` and `IRQ_disable_counter` are global, while
`lock_scheduler` and `unlock_scheduler` nest within each task, and
`unlock_scheduler` may switch tasks between its two decrements.  Here a task is
seen as the sequence of its calls: `lock`, `unlock` and `schedule` in any order,
what it does inside of a section, and at the end `finish`.  `depth` counts the
sections that each task is inside of.  `create_kernel_task`, for example, is
`lock`, the event `createKernelTask` and `unlock`, and `micro_sleep_until` is two
sections and a `schedule`.

`schedule` and `unlock_scheduler` are not one step: `LockPc` says whether the
running task is in front of `_switch_to_task` or behind the `schedule` of
`unlock_scheduler`.  The events of interrupt handlers, `lock`, `unlock`, the
sections and the timer interrupt, can happen there too; handlers do not call
`schedule`.

The counters hold for any state of the queues: `Tasks.Closed` only says that the
pointers lead to tasks.  `IRQ_disable_counter` also counts the tasks that are
suspended in `unlock_scheduler`, so interrupts can be off in a task that holds no
lock; `Interrupts.lean` says when they are not.

A counter is a word, and `held` is what `IRQ_disable_counter` has to count.  As
long as it fits (`LockEvent.Fits`) the counters are what they stand for:
`lock_counters`.  After `2 ^ 32` calls of `lock_scheduler` they are `0` again:
`lock_counters_wrap`.
-/

namespace ChoOS

/-- Where the running task is. -/
inductive LockPc
  /-- In its own code, or in a handler that interrupted it there. -/
  | user
  /-- In `schedule`, called at `site`, in front of `_switch_to_task(n)`. -/
  | switching (site : Resume) (n : Nat)
  /-- In `unlock_scheduler`, behind its `schedule`. -/
  | unlocking
  deriving DecidableEq

/-- The scheduler and the sections that each task is inside of. -/
structure Nest where
  sched : Scheduler
  depth : Nat → Nat
  pc : LockPc

inductive LockEvent
  | lock
  | unlock
  | schedule
  /-- The last `schedule` of `terminate_task` or `mark_task_for_death`. -/
  | finish
  /-- `_switch_to_task` -/
  | switch
  /-- The end of an `unlock_scheduler` that was suspended in its `schedule`. -/
  | leave
  | irq0Handler
  | createKernelTask (newTask stackBase : Nat)
  | unblockTask (task : Nat)
  | microSleepUntil (microSeconds : Nat)
  | blockTask (reason : Int)
  | terminateTask
  | markTaskForDeath
  /-- The loop of `dead_tasks_cleanup` over the tasks `dead`. -/
  | deadTasksCleanup (dead : List Nat)
  deriving DecidableEq

namespace Nest

/-- The sections that the code now running is inside of. -/
def nesting (m : Nest) : Nat := m.depth m.sched.tasks.currentTaskPCB

def setNesting (m : Nest) (d : Nat) : Nest :=
  { m with depth := Function.update m.depth m.sched.tasks.currentTaskPCB d }

def onTasks (f : Tasks → Tasks) (m : Nest) : Nest := { m with sched := m.sched.onTasks f }

/-- The running task comes back to where `_switch_to_task` returns. -/
def resume (s : Scheduler) (depth : Nat → Nat) : Resume → Option Nest
  | .null => none
  | .forged => some ⟨s.onLocks (·.setInterrupts true), depth, .user⟩
  | .afterSchedule => some ⟨s, depth, .user⟩
  | .insideUnlock => some ⟨s, depth, .unlocking⟩
  | .ended => none

/-- `_switch_to_task` -/
def switch (site : Resume) (n : Nat) (m : Nest) : Option Nest :=
  match m.sched.switchToTask site n with
  | (s, false) => resume s m.depth site
  | (s, true) => resume s m.depth (s.tasks.tcb s.tasks.currentTaskPCB).esp

/-- `schedule`, called at `site` by the running task. -/
def schedule (site : Resume) (m : Nest) : Option Nest :=
  match m.sched.schedule with
  | (s, none) => if site = .ended then none else some { m with sched := s }
  | (s, some n) => some { m with sched := s, pc := .switching site n }

/-- `unlock_scheduler`.  A handler that interrupts `schedule` never finds a switch
postponed, so only a task comes to its second case. -/
def unlock (m : Nest) : Option Nest :=
  match m.sched.unlockStart with
  | (s, none) => some { m.setNesting (m.nesting - 1) with sched := s }
  | (s, some n) =>
    if m.pc = .user then
      some { m.setNesting (m.nesting - 1) with sched := s, pc := .switching .insideUnlock n }
    else none

end Nest

/-- Nothing but the list of the dead tasks leads to the tasks `d` on it, and none of
them is suspended in `unlock_scheduler`. -/
structure Tasks.DeadApart (t : Tasks) (d : List Nat) : Prop where
  list : Seg t.next t.deadTasks d 0
  null : 0 ∉ d
  current : t.currentTaskPCB ∉ d
  first : t.firstReadyToRunTask ∉ d
  last : t.lastReadyToRunTask ∉ d
  sleeping : t.sleepingTaskes ∉ d
  next : ∀ a ∈ t.created, a ∉ d → t.next a ∉ d
  esp : ∀ a ∈ d, (t.tcb a).esp ≠ .insideUnlock

namespace LockEvent

def run : LockEvent → Nest → Option Nest
  | .lock, m => some { m.setNesting (m.nesting + 1) with sched := m.sched.lockScheduler }
  | .unlock, m => m.unlock
  | .schedule, m => m.schedule .afterSchedule
  | .finish, m => m.schedule .ended
  | .switch, m =>
    match m.pc with
    | .switching site n => m.switch site n
    | _ => none
  | .leave, m => some { m with sched := m.sched.onLocks Locks.unlockTail, pc := .user }
  | .irq0Handler, m => m.sched.irq0Handler.map fun s => { m with sched := s }
  | .createKernelTask newTask stackBase, m => some (m.onTasks (·.createKernelTask newTask stackBase))
  | .unblockTask task, m => some (m.onTasks (·.unblockTask task))
  | .microSleepUntil us, m => some (m.onTasks (·.microSleepUntil us))
  | .blockTask reason, m => some (m.onTasks (·.blockTask reason))
  | .terminateTask, m => some (m.onTasks Tasks.terminateTask)
  | .markTaskForDeath, m => some (m.onTasks Tasks.markTaskForDeath)
  | .deadTasksCleanup _, m => m.sched.tasks.deadTasksCleanup.map fun t => m.onTasks fun _ => t

/-- Locks are balanced, the code of a section runs inside of one, and a task goes
on only when the handlers that interrupted it are done. -/
def Allowed (m : Nest) : LockEvent → Prop
  | .lock => True
  | .unlock => 0 < m.nesting
  | .schedule => m.pc = .user
  | .finish => m.pc = .user
  | .switch => m.nesting = 0
  | .leave => m.pc = .unlocking ∧ m.nesting = 0
  | .irq0Handler => m.sched.locks.interruptFlag = true
  | .createKernelTask newTask stackBase =>
    0 < m.nesting ∧ m.sched.tasks.Fresh newTask stackBase
  | .unblockTask task => 0 < m.nesting ∧ task ∈ m.sched.tasks.created
  | .microSleepUntil _ => 0 < m.nesting
  | .blockTask _ => 0 < m.nesting
  | .terminateTask => 0 < m.nesting
  | .markTaskForDeath => 0 < m.nesting
  | .deadTasksCleanup dead => m.pc = .user ∧ 0 < m.nesting ∧ m.sched.tasks.DeadApart dead

end LockEvent

structure LockStep (m : Nest) (e : LockEvent) (m' : Nest) : Prop where
  allowed : e.Allowed m
  run : e.run m = some m'

/-- The tasks that are suspended in the `schedule` of `unlock_scheduler`. -/
def Tasks.suspended (t : Tasks) : Finset Nat :=
  t.created.filter fun a => a ≠ t.currentTaskPCB ∧ (t.tcb a).esp = .insideUnlock

/-! ### Pointers lead to tasks -/

namespace Tasks

/-- `NULL` or a task. -/
def Ptr (t : Tasks) (a : Nat) : Prop := a = 0 ∨ a ∈ t.created

/-- The pointers lead to tasks. -/
structure Closed (t : Tasks) : Prop where
  null : 0 ∉ t.created
  current : t.currentTaskPCB ∈ t.created
  first : t.Ptr t.firstReadyToRunTask
  last : t.Ptr t.lastReadyToRunTask
  sleeping : t.Ptr t.sleepingTaskes
  dead : t.Ptr t.deadTasks
  next : ∀ a ∈ t.created, t.Ptr (t.next a)

variable {t t' : Tasks} {a n us newTask stackBase : Nat} {v : Int} {b : TaskControlBlock}
variable {site : Resume}

theorem Closed.setTcb (h : t.Closed) (hb : a ∈ t.created → t.Ptr b.next) :
    (t.setTcb a b).Closed :=
  { h with
    next := fun z hz => by
      rw [next_setTcb, Function.update_apply]
      split
      · rename_i e
        exact hb (e ▸ hz)
      · exact h.next z hz }

theorem Closed.seg_mem (h : t.Closed) {d : List Nat} (ha : t.Ptr a) (hs : Seg t.next a d 0)
    (h0 : 0 ∉ d) : ∀ z ∈ d, z ∈ t.created := by
  induction d generalizing a with
  | nil =>
    intro z hz
    cases hz
  | cons x d ih =>
    obtain ⟨rfl, hs⟩ := hs
    rw [List.mem_cons, not_or] at h0
    have ha := ha.resolve_left (Ne.symm h0.1)
    exact List.forall_mem_cons.mpr ⟨ha, ih (h.next a ha) hs h0.2⟩

theorem Closed.setNext (h : t.Closed) (hn : t.Ptr n) : (t.setNext a n).Closed :=
  h.setTcb fun _ => hn

theorem Closed.setState (h : t.Closed) : (t.setState a v).Closed := h.setTcb (h.next a)

theorem Closed.enqueue (h : t.Closed) (ha : a ∈ t.created) : (t.enqueue a).Closed := by
  rw [Tasks.enqueue]
  split
  · exact { h with first := .inr ha, last := .inr ha, next := h.next }
  · exact { h.setNext (.inr ha) with last := .inr ha }

theorem Closed.unblockTask (h : t.Closed) (ha : a ∈ t.created) : (t.unblockTask a).Closed :=
  (h.setState.setNext (.inl rfl)).enqueue ha

theorem Closed.createKernelTask (h : t.Closed) (h0 : newTask ≠ 0) :
    (t.createKernelTask newTask stackBase).Closed := by
  have hptr {z : Nat} (hz : t.Ptr z) : (t.fillTask newTask stackBase).Ptr z :=
    hz.imp_right Finset.mem_insert_of_mem
  have hfill : (t.fillTask newTask stackBase).Closed :=
    { null := fun hm => (Finset.mem_insert.mp hm).elim (fun e => h0 e.symm) h.null
      current := Finset.mem_insert_of_mem h.current
      first := hptr h.first
      last := hptr h.last
      sleeping := hptr h.sleeping
      dead := hptr h.dead
      next := fun z hz => by
        rw [fillTask, next_setTcb, Function.update_apply]
        split
        · exact .inl rfl
        · exact hptr (h.next z ((Finset.mem_insert.mp hz).resolve_left ‹_›)) }
  exact hfill.enqueue (Finset.mem_insert_self _ _)

theorem Closed.prepare (h : t.Closed) (hf : t.firstReadyToRunTask ≠ 0) :
    t.takeFirst.updateTimeUsed.requeueCurrent.Closed := by
  have hnext : t.Ptr (t.next t.firstReadyToRunTask) := h.next _ (h.first.resolve_left hf)
  have h₁ : t.takeFirst.Closed :=
    { h with
      first := hnext
      last := by
        change t.Ptr (if _ then _ else _)
        split
        · exact .inl rfl
        · exact h.last
      next := h.next }
  have h₂ : t.takeFirst.updateTimeUsed.Closed :=
    { h₁ with
      next := fun z hz => by
        rw [next_updateTimeUsed]
        exact h₁.next z hz }
  rw [Tasks.requeueCurrent]
  dsimp only
  split
  · have h₃ := (h₂.setState (a := t.currentTaskPCB) (v := taskStateReadyToRun)).setNext
      (a := t.currentTaskPCB) (.inl rfl)
    split
    · exact { h₃.setNext (.inr h.current) with last := .inr h.current }
    · exact { h₃ with first := .inr h.current, last := .inr h.current, next := h₃.next }
  · exact h₂

theorem Closed.switchTo (site : Resume) (h : t.Closed) (hn : n ∈ t.created) : (t.switchTo site n).Closed := by
  have h₁ : (t.setEsp t.currentTaskPCB site).Closed := h.setTcb (h.next _)
  have h₂ : ((t.setEsp t.currentTaskPCB site).setCurrent n).Closed := { h₁ with current := hn, next := h₁.next }
  exact h₂.setState

theorem Closed.microSleepUntil (h : t.Closed) : (t.microSleepUntil us).Closed := by
  have h₁ : (t.setTarget t.currentTaskPCB (u32 us)).Closed := h.setTcb (h.next _)
  have h₂ := h₁.setNext (a := t.currentTaskPCB) h.sleeping
  exact { h₂ with sleeping := .inr h.current, next := h₂.next }

theorem Closed.terminateTask (h : t.Closed) : t.terminateTask.Closed := by
  have h₁ := h.setNext (a := t.currentTaskPCB) h.dead
  exact { h₁ with dead := .inr h.current, next := h₁.next }

theorem Closed.unlinkSleeping (h : t.Closed) (hn : t.Ptr (t.next n)) :
    (t.unlinkSleeping a n).Closed := by
  rw [Tasks.unlinkSleeping]
  split
  · exact { h with sleeping := hn, next := h.next }
  · exact h.setNext hn

theorem Closed.wakeLoop {ticks fuel p : Nat} (h : t.Closed) (ha : t.Ptr a)
    (hw : t.wakeLoop ticks fuel p a = some t') : t'.Closed := by
  induction fuel generalizing p a t with
  | zero => exact absurd hw (by simp [Tasks.wakeLoop])
  | succ fuel ih =>
    rw [Tasks.wakeLoop] at hw
    split at hw
    · exact Option.some.inj hw ▸ h
    · rename_i hne
      have hmem := ha.resolve_left hne
      have hnext := h.next a hmem
      split at hw
      · have hrel := (Relinked.refl t).unlinkSleeping (p := p) (a := a)
        have h₁ := (h.unlinkSleeping (a := p) hnext).unblockTask (a := a) (hrel.created ▸ hmem)
        have hrel' := hrel.unblockTask (a := a)
        refine ih h₁ ?_ hw
        rw [Ptr, hrel'.created]
        exact hnext
      · exact ih h hnext hw

/-- **The loop of `dead_tasks_cleanup`** leaves no pointer to a task that it frees. -/
theorem Closed.deadTasksCleanup (h : t.Closed) (hb : t.Blocks) {d : List Nat} (hd : t.DeadApart d)
    (ht : t.deadTasksCleanup = some t') :
    t'.Closed ∧ t'.Blocks ∧ (∀ z, z ∈ t'.created ↔ z ∈ t.created ∧ z ∉ d) ∧
      ∃ live created, t' = { t with live := live, created := created, deadTasks := 0 } := by
  obtain ⟨t₁, hloop, ht⟩ := Option.bind_eq_some_iff.mp ht
  obtain rfl := Option.some.inj ht
  have hmem := h.seg_mem h.dead hd.list hd.null
  have hblocks := hb.freeLoop hd.list hd.null (hd.list.nodup hd.null) hmem hloop
  obtain ⟨hcr, live, created, rfl⟩ := freeLoop_created hd.list hd.null hloop
  have hptr {z : Nat} (hz : t.Ptr z) (hn : z ∉ d) : z = 0 ∨ z ∈ created :=
    hz.imp_right fun hm => (hcr z).mpr ⟨hm, hn⟩
  refine ⟨?_, hblocks.congr ⟨rfl, rfl, fun _ => rfl⟩, hcr, live, created, rfl⟩
  exact
    { null := fun hm => h.null ((hcr 0).mp hm).1
      current := (hcr _).mpr ⟨h.current, hd.current⟩
      first := hptr h.first hd.first
      last := hptr h.last hd.last
      sleeping := hptr h.sleeping hd.sleeping
      dead := .inl rfl
      next := fun z hz => hptr (h.next z ((hcr z).mp hz).1) (hd.next z ((hcr z).mp hz).1
        ((hcr z).mp hz).2) }

/-! ### Which stacks the tasks are on -/

/-- The same tasks with the same saved stacks. -/
structure SameStacks (t t' : Tasks) : Prop where
  created : t'.created = t.created
  currentTaskPCB : t'.currentTaskPCB = t.currentTaskPCB
  esp : ∀ z, (t'.tcb z).esp = (t.tcb z).esp

theorem SameStacks.trans {t'' : Tasks} (h : t.SameStacks t') (h' : t'.SameStacks t'') :
    t.SameStacks t'' :=
  ⟨h'.created.trans h.created, h'.currentTaskPCB.trans h.currentTaskPCB,
    fun z => (h'.esp z).trans (h.esp z)⟩

theorem SameStacks.suspended (h : t.SameStacks t') : t'.suspended = t.suspended := by
  simp only [Tasks.suspended, h.created, h.currentTaskPCB, h.esp]

theorem Relinked.sameStacks (h : t.Relinked t') : t.SameStacks t' :=
  ⟨h.created, h.currentTaskPCB, h.esp⟩

theorem SameStacks.setTcb (hb : b.esp = (t.tcb a).esp) : t.SameStacks (t.setTcb a b) :=
  ⟨rfl, rfl, fun z => by
    by_cases hz : z = a
    · simp [Tasks.setTcb, hz, hb]
    · simp [Tasks.setTcb, hz]⟩

theorem SameStacks.updateTimeUsed : t.SameStacks t.updateTimeUsed :=
  ⟨rfl, rfl, fun z => by
    by_cases hz : z = t.currentTaskPCB
    · simp [Tasks.updateTimeUsed, Tasks.setTcb, hz]
    · simp [Tasks.updateTimeUsed, Tasks.setTcb, hz]⟩

theorem SameStacks.prepare : t.SameStacks t.takeFirst.updateTimeUsed.requeueCurrent :=
  have h : t.SameStacks t.takeFirst := ⟨rfl, rfl, fun _ => rfl⟩
  h.trans (SameStacks.updateTimeUsed.trans Relinked.requeueCurrent.sameStacks)

theorem SameStacks.microSleepUntil : t.SameStacks (t.microSleepUntil us) := by
  have h₁ : t.SameStacks (t.setTarget t.currentTaskPCB (u32 us)) := .setTcb rfl
  have h₂ := h₁.trans ((Relinked.refl _).setNext (a := t.currentTaskPCB)
    (n := t.sleepingTaskes)).sameStacks
  exact ⟨h₂.created, h₂.currentTaskPCB, h₂.esp⟩

theorem SameStacks.terminateTask : t.SameStacks t.terminateTask := by
  have h := ((Relinked.refl t).setNext (a := t.currentTaskPCB) (n := t.deadTasks)).sameStacks
  exact ⟨h.created, h.currentTaskPCB, h.esp⟩

theorem suspended_createKernelTask (hn : newTask ∉ t.created) :
    (t.createKernelTask newTask stackBase).suspended = t.suspended := by
  have hrel := ((Relinked.refl (t.fillTask newTask stackBase)).enqueue (a := newTask)).sameStacks
  rw [createKernelTask, hrel.suspended]
  ext z
  simp only [Tasks.suspended, Finset.mem_filter]
  by_cases hz : z = newTask
  · subst hz
    simp [fillTask, Tasks.setTcb, hn]
  · simp [fillTask, Tasks.setTcb, hz]

theorem DeadApart.suspended {d : List Nat} (hd : t.DeadApart d)
    (hcr : ∀ z, z ∈ t'.created ↔ z ∈ t.created ∧ z ∉ d) (htcb : t'.tcb = t.tcb)
    (hcur : t'.currentTaskPCB = t.currentTaskPCB) : t'.suspended = t.suspended := by
  ext z
  have hz := hcr z
  have hesp := hd.esp z
  simp only [Tasks.suspended, Finset.mem_filter, htcb, hcur]
  tauto

theorem card_filter_ne {A : Finset Nat} {c : Nat} (hc : c ∈ A) (P : Nat → Prop) [DecidablePred P] :
    (A.filter P).card = (A.filter fun a => a ≠ c ∧ P a).card + if P c then 1 else 0 := by
  have hsplit : (A.filter fun a => a ≠ c ∧ P a) = (A.filter P).erase c := by
    ext a
    simp only [Finset.mem_filter, Finset.mem_erase]
    tauto
  rw [hsplit]
  split
  · rw [Finset.card_erase_add_one (Finset.mem_filter.mpr ⟨hc, ‹_›⟩)]
  · rw [Finset.erase_eq_of_notMem fun hm => ‹¬ _› (Finset.mem_filter.mp hm).2]
    rfl

theorem esp_switchTo (t : Tasks) (site : Resume) (n z : Nat) : ((t.switchTo site n).tcb z).esp
    = if z = t.currentTaskPCB then site else (t.tcb z).esp := by
  have h : ((t.setEsp t.currentTaskPCB site).setCurrent n).SameStacks (t.switchTo site n) :=
    .setTcb rfl
  rw [h.esp]
  by_cases hz : z = t.currentTaskPCB
  · simp [setEsp, Tasks.setTcb, setCurrent, hz]
  · simp [setEsp, Tasks.setTcb, setCurrent, hz]

theorem esp_reschedule (t : Tasks) (site : Resume) (z : Nat) :
    ((t.reschedule site).tcb z).esp = if z = t.currentTaskPCB then site else (t.tcb z).esp := by
  have h : t.SameStacks t.takeFirst.updateTimeUsed.requeueCurrent := .prepare
  rw [reschedule, esp_switchTo, h.currentTaskPCB, h.esp]

/-- **A switch suspends the running task and resumes the next one.** -/
theorem card_suspended_switchTo (site : Resume) (hc : t.currentTaskPCB ∈ t.created) (hn : n ∈ t.created) :
    (t.switchTo site n).suspended.card
        + (if ((t.switchTo site n).tcb n).esp = .insideUnlock then 1 else 0)
      = t.suspended.card + if site = .insideUnlock then 1 else 0 := by
  have hesp := fun z => t.esp_switchTo site n z
  have h₁ := card_filter_ne hn fun a => ((t.switchTo site n).tcb a).esp = .insideUnlock
  have h₂ := card_filter_ne hc fun a => ((t.switchTo site n).tcb a).esp = .insideUnlock
  have hold : (t.created.filter fun a => a ≠ t.currentTaskPCB ∧
      ((t.switchTo site n).tcb a).esp = .insideUnlock) = t.suspended := by
    ext a
    simp only [Tasks.suspended, Finset.mem_filter, hesp]
    by_cases ha : a = t.currentTaskPCB <;> simp [ha]
  rw [hold, hesp t.currentTaskPCB, if_pos rfl] at h₂
  exact h₁.symm.trans h₂

end Tasks

/-! ### The invariant -/

theorem toNat_add_one {c : BitVec 32} (h : c.toNat + 1 < 4294967296) :
    (c + 1).toNat = c.toNat + 1 := by
  rw [BitVec.toNat_add]
  exact Nat.mod_eq_of_lt h

theorem toNat_sub_one {c : BitVec 32} (h : 0 < c.toNat) : (c - 1).toNat = c.toNat - 1 := by
  have hlt := c.isLt
  have hone : (1 : BitVec 32).toNat = 1 := rfl
  rw [BitVec.toNat_sub, hone]
  omega

theorem eq_zero_iff_toNat {c : BitVec 32} : c = 0 ↔ c.toNat = 0 :=
  ⟨fun h => congrArg BitVec.toNat h, fun h => BitVec.eq_of_toNat_eq h⟩

/-- The open `unlock_scheduler` of the running task. -/
def LockPc.pending : LockPc → Nat
  | .user => 0
  | .switching site _ => if site = .insideUnlock then 1 else 0
  | .unlocking => 1

namespace Nest

/-- The sections that are open, and the `unlock_scheduler`s that are not at their
second decrement. -/
def held (m : Nest) : Nat := m.nesting + m.sched.tasks.suspended.card + m.pc.pending

end Nest

/-- How many sections the event opens, one inside of the other: the timer interrupt
takes the lock, and again for a task that it wakes. -/
def LockEvent.opens : LockEvent → Nat
  | .lock => 1
  | .irq0Handler => 2
  | _ => 0

/-- `IRQ_disable_counter` can count the sections that the event opens. -/
def LockEvent.Fits (e : LockEvent) (m : Nest) : Prop := m.held + e.opens < 4294967296

instance {e : LockEvent} {m : Nest} : Decidable (e.Fits m) := inferInstanceAs (Decidable (_ < _))

/-- Where the event decrements a counter, that counter is not `0`. -/
def LockEvent.Positive (m : Nest) : LockEvent → Prop
  | .unlock =>
    m.sched.locks.postponeTaskSwitchesCounter ≠ 0 ∧ m.sched.locks.irqDisableCounter ≠ 0
  | .leave => m.sched.locks.irqDisableCounter ≠ 0
  | .irq0Handler => ∀ l, l = m.sched.locks.lock ∨ l = m.sched.locks.lock.lock →
    l.postponeTaskSwitchesCounter ≠ 0 ∧ l.irqDisableCounter ≠ 0
  | _ => True

/-- A step whose sections `IRQ_disable_counter` can count. -/
structure CountedStep (m : Nest) (e : LockEvent) (m' : Nest) : Prop extends LockStep m e m' where
  fits : e.Fits m

namespace Nest

/-- The invariant of the counters, wherever the running task is. -/
structure Inv (m : Nest) : Prop where
  closed : m.sched.tasks.Closed
  blocks : m.sched.tasks.Blocks
  postpone : m.sched.locks.postponeTaskSwitchesCounter.toNat = m.nesting
  irq : m.sched.locks.irqDisableCounter.toNat = m.held
  interrupts : m.sched.locks.interruptFlag = true → m.nesting = 0
  others : ∀ a, a ≠ m.sched.tasks.currentTaskPCB → m.depth a = 0
  flag : m.sched.locks.taskSwitchesPostponedFlag = true → 0 < m.nesting ∧ m.pc = .user
  lostSwitch : m.sched.lostSwitch = false
  next : ∀ site n, m.pc = .switching site n → n ∈ m.sched.tasks.created

variable {m m' : Nest} {s s' : Scheduler} {t : Tasks} {site : Resume} {n d : Nat}

theorem Inv.counter_eq_zero_iff (h : m.Inv) :
    m.sched.locks.postponeTaskSwitchesCounter = 0 ↔ m.nesting = 0 := by
  rw [eq_zero_iff_toNat, h.postpone]

theorem Inv.flag_eq_false (h : m.Inv) (hd : m.nesting = 0) :
    m.sched.locks.taskSwitchesPostponedFlag = false := by
  by_contra hf
  have := (h.flag (by simpa using hf)).1
  omega

/-- With interrupts on the running code is outside of every section. -/
theorem Inv.quiet (h : m.Inv) (hi : m.sched.locks.interruptFlag = true) : m.sched.locks.Quiet :=
  ⟨h.counter_eq_zero_iff.mpr (h.interrupts hi), h.flag_eq_false (h.interrupts hi)⟩

theorem Inv.depth_eq_zero (h : m.Inv) (hd : m.nesting = 0) (a : Nat) : m.depth a = 0 := by
  by_cases ha : a = m.sched.tasks.currentTaskPCB
  · rw [ha]
    exact hd
  · exact h.others a ha

theorem Inv.onTasks {f : Tasks → Tasks} (h : m.Inv) (hc : (f m.sched.tasks).Closed)
    (hb : (f m.sched.tasks).Blocks)
    (hcur : (f m.sched.tasks).currentTaskPCB = m.sched.tasks.currentTaskPCB)
    (hs : (f m.sched.tasks).suspended = m.sched.tasks.suspended)
    (hnext : ∀ site n, m.pc = .switching site n → n ∈ (f m.sched.tasks).created) :
    (m.onTasks f).Inv := by
  have hnest : (m.onTasks f).nesting = m.nesting := congrArg m.depth hcur
  have hheld : (m.onTasks f).held = m.held := by
    rw [held, hnest]
    exact congrArg (fun A : Finset Nat => m.nesting + A.card + m.pc.pending) hs
  exact
    { closed := hc
      blocks := hb
      postpone := hnest ▸ h.postpone
      irq := hheld ▸ h.irq
      interrupts := hnest ▸ h.interrupts
      others := fun a ha => h.others a (hcur ▸ ha)
      flag := fun hf => hnest ▸ h.flag hf
      lostSwitch := h.lostSwitch
      next := hnext }

theorem Inv.onTasks_same {f : Tasks → Tasks} (h : m.Inv) (hc : (f m.sched.tasks).Closed)
    (hb : m.sched.tasks.SameBlocks (f m.sched.tasks))
    (hs : m.sched.tasks.SameStacks (f m.sched.tasks)) : (m.onTasks f).Inv :=
  h.onTasks hc (h.blocks.congr hb) hs.currentTaskPCB hs.suspended
    fun site n hp => hs.created.symm ▸ h.next site n hp

theorem Inv.lock (h : m.Inv) (hfit : m.held + 1 < 4294967296) :
    Inv { m.setNesting (m.nesting + 1) with sched := m.sched.lockScheduler } := by
  have hnest : nesting { m.setNesting (m.nesting + 1) with sched := m.sched.lockScheduler }
      = m.nesting + 1 := Function.update_self _ _ _
  have hle : m.nesting ≤ m.held := Nat.le_add_right_of_le (Nat.le_add_right _ _)
  exact
    { closed := h.closed
      blocks := h.blocks
      postpone := by
        rw [hnest, ← h.postpone]
        exact toNat_add_one (by rw [h.postpone]; omega)
      irq := by
        rw [held, hnest]
        refine (toNat_add_one (by rw [h.irq]; exact hfit)).trans ?_
        rw [h.irq]
        change m.nesting + m.sched.tasks.suspended.card + m.pc.pending + 1
          = m.nesting + 1 + m.sched.tasks.suspended.card + m.pc.pending
        omega
      interrupts := fun hon => by cases hon
      others := fun a ha => (Function.update_of_ne ha _ _).trans (h.others a ha)
      flag := fun hf => by
        rw [hnest]
        exact ⟨Nat.succ_pos _, (h.flag hf).2⟩
      lostSwitch := h.lostSwitch
      next := h.next }

theorem Inv.unlockTail {l : Locks} (h : m.Inv) (hd : 0 < m.nesting)
    (hl : l.postponeTaskSwitchesCounter.toNat = m.nesting - 1)
    (hi : l.irqDisableCounter = m.sched.locks.irqDisableCounter)
    (hon : l.interruptFlag = m.sched.locks.interruptFlag)
    (hf : l.taskSwitchesPostponedFlag = true → 1 < m.nesting ∧ m.pc = .user) :
    Inv ⟨⟨m.sched.tasks, l.unlockTail, m.sched.lostSwitch⟩, (m.setNesting (m.nesting - 1)).depth,
      m.pc⟩ := by
  have hnest : nesting ⟨⟨m.sched.tasks, l.unlockTail, m.sched.lostSwitch⟩,
      (m.setNesting (m.nesting - 1)).depth, m.pc⟩ = m.nesting - 1 := Function.update_self _ _ _
  have hirq : (l.irqDisableCounter - 1).toNat
      = m.nesting - 1 + m.sched.tasks.suspended.card + m.pc.pending := by
    have h' := hi ▸ h.irq
    rw [held] at h'
    rw [toNat_sub_one (by omega), h']
    omega
  exact
    { closed := h.closed
      blocks := h.blocks
      postpone := by
        rw [hnest]
        exact hl
      irq := by
        rw [held, hnest]
        exact hirq
      interrupts := fun hon' => by
        rw [hnest]
        change (if l.irqDisableCounter - 1 = 0 then true else l.interruptFlag) = true at hon'
        split at hon'
        · -- `sti`: the counter is `0`, and it counts the sections
          rename_i hz
          rw [hz] at hirq
          change 0 = _ at hirq
          omega
        · rw [hon] at hon'
          have := h.interrupts hon'
          omega
      others := fun a ha => (Function.update_of_ne ha _ _).trans (h.others a ha)
      flag := fun hflag => by
        rw [hnest]
        have := hf hflag
        exact ⟨by omega, this.2⟩
      lostSwitch := h.lostSwitch
      next := h.next }

theorem Inv.unlockSwitch {l : Locks} (h : m.Inv) (hd : m.nesting = 1) (hpc : m.pc = .user)
    (hf : m.sched.tasks.firstReadyToRunTask ≠ 0) (hl : l.postponeTaskSwitchesCounter = 0)
    (hi : l.irqDisableCounter = m.sched.locks.irqDisableCounter)
    (hflag : l.taskSwitchesPostponedFlag = false) :
    Inv ⟨⟨m.sched.tasks.takeFirst.updateTimeUsed.requeueCurrent, l, m.sched.lostSwitch⟩,
      (m.setNesting (m.nesting - 1)).depth,
      .switching .insideUnlock m.sched.tasks.firstReadyToRunTask⟩ := by
  have hsame : m.sched.tasks.SameStacks _ := .prepare
  have hcur := hsame.currentTaskPCB
  have hnest : nesting ⟨⟨m.sched.tasks.takeFirst.updateTimeUsed.requeueCurrent, l,
      m.sched.lostSwitch⟩, (m.setNesting (m.nesting - 1)).depth,
      .switching .insideUnlock m.sched.tasks.firstReadyToRunTask⟩ = 0 := by
    change Function.update m.depth _ (m.nesting - 1) _ = 0
    rw [hcur, Function.update_self]
    omega
  have hirq := h.irq
  rw [held, hpc, hd] at hirq
  exact
    { closed := h.closed.prepare hf
      blocks := h.blocks.congr .prepare
      postpone := by
        rw [hnest]
        exact congrArg BitVec.toNat hl
      irq := by
        rw [held, hnest, hsame.suspended]
        refine (congrArg BitVec.toNat hi).trans (hirq.trans ?_)
        change 1 + m.sched.tasks.suspended.card + 0 = 0 + m.sched.tasks.suspended.card + 1
        omega
      interrupts := fun _ => hnest
      others := fun a ha => by
        rw [hcur] at ha
        exact (Function.update_of_ne ha _ _).trans (h.others a ha)
      flag := fun hf' => by
        rw [hflag] at hf'
        cases hf'
      lostSwitch := h.lostSwitch
      next := fun site n hn => by
        obtain ⟨-, rfl⟩ := LockPc.switching.inj hn
        rw [hsame.created]
        exact h.closed.first.resolve_left hf }

theorem Inv.unlock (h : m.Inv) (hd : 0 < m.nesting) (hs : m.unlock = some m') : m'.Inv := by
  have hp : (m.sched.locks.postponeTaskSwitchesCounter - 1).toNat = m.nesting - 1 := by
    rw [toNat_sub_one (by rw [h.postpone]; exact hd), h.postpone]
  rw [Nest.unlock] at hs
  rcases m.sched.unlockStart_cases with ⟨hn, he⟩ | ⟨hp1, hflag, he⟩ | ⟨hp1, hflag, hf, he⟩ <;>
    rw [he] at hs
  · obtain rfl := Option.some.inj hs
    refine h.unlockTail (l := m.sched.locks.release) hd hp rfl rfl fun hf => ⟨?_, (h.flag hf).2⟩
    by_contra hlt
    exact hn ⟨eq_zero_iff_toNat.mpr (by omega), hf⟩
  · obtain rfl := Option.some.inj hs
    refine h.unlockTail (l := m.sched.locks.release.setFlag false) hd hp rfl rfl fun hf => ?_
    cases hf
  · have hpc := (h.flag hflag).2
    have hzero := eq_zero_iff_toNat.mp hp1
    dsimp only at hs
    rw [if_pos hpc] at hs
    obtain rfl := Option.some.inj hs
    exact h.unlockSwitch (l := m.sched.locks.release.setFlag false) (by omega) hpc hf hp1 rfl rfl

theorem Inv.schedule (h : m.Inv) (hpc : m.pc = .user) (hsite : site ≠ .insideUnlock)
    (hs : m.schedule site = some m') : m'.Inv := by
  have hz := h.counter_eq_zero_iff
  rw [Nest.schedule] at hs
  rcases m.sched.schedule_cases with ⟨hne, he⟩ | ⟨-, -, he⟩ | ⟨hp, hf, he⟩ <;> rw [he] at hs <;>
    dsimp only at hs
  · split at hs
    · cases hs
    · obtain rfl := Option.some.inj hs
      have hpos : 0 < m.nesting := Nat.pos_of_ne_zero fun hd => hne (hz.mpr hd)
      exact { h with flag := fun _ => ⟨hpos, hpc⟩ }
  · split at hs
    · cases hs
    · obtain rfl := Option.some.inj hs
      exact h
  · obtain rfl := Option.some.inj hs
    have hsame : m.sched.tasks.SameStacks _ := .prepare
    have h' := h.onTasks_same (f := fun t => t.takeFirst.updateTimeUsed.requeueCurrent)
      (h.closed.prepare hf) .prepare hsame
    exact
      { h' with
        irq := by
          refine h'.irq.trans ?_
          change _ + m.pc.pending = _ + LockPc.pending (.switching site _)
          rw [hpc, LockPc.pending, LockPc.pending, if_neg hsite]
          rfl
        flag := fun hflag => by
          have := (h.flag hflag).1
          have := hz.mp hp
          omega
        next := fun site' n hn => by
          obtain ⟨-, rfl⟩ := LockPc.switching.inj hn
          change _ ∈ (m.sched.tasks.takeFirst.updateTimeUsed.requeueCurrent).created
          rw [hsame.created]
          exact h.closed.first.resolve_left hf }

theorem Inv.of_depth_zero {l : Locks} {depth : Nat → Nat} {pc : LockPc} (hc : t.Closed)
    (hb : t.Blocks) (hd : ∀ a, depth a = 0) (hp : l.postponeTaskSwitchesCounter = 0)
    (hi : l.irqDisableCounter.toNat = t.suspended.card + pc.pending)
    (hf : l.taskSwitchesPostponedFlag = false) (hpc : ∀ site n, pc ≠ .switching site n) :
    Inv ⟨⟨t, l, false⟩, depth, pc⟩ where
  closed := hc
  blocks := hb
  postpone := (congrArg BitVec.toNat hp).trans (hd _).symm
  irq := by
    have hz : nesting ⟨⟨t, l, false⟩, depth, pc⟩ = 0 := hd _
    rw [held, hz, Nat.zero_add]
    exact hi
  interrupts _ := hd _
  others a _ := hd a
  flag hf' := by
    rw [hf] at hf'
    cases hf'
  lostSwitch := rfl
  next site n hn := absurd hn (hpc site n)

/-- **`_switch_to_task`** finds the counter at `0`, and switches. -/
theorem Inv.switch (h : m.Inv) (hd : m.nesting = 0) (hpc : m.pc = .switching site n)
    (hs : m.switch site n = some m') : m'.Inv := by
  have hp := h.counter_eq_zero_iff.mpr hd
  have hirq := h.irq
  have hn := h.next site n hpc
  have hcard := Tasks.card_suspended_switchTo site h.closed.current hn
  have hdepth := h.depth_eq_zero hd
  have hflag := h.flag_eq_false hd
  have hclosed := h.closed.switchTo site hn
  have hblocks := h.blocks.congr (Tasks.SameBlocks.switchTo site (n := n))
  rw [held, hpc, hd, LockPc.pending] at hirq
  rw [Nest.switch, Scheduler.switchToTask, if_neg (not_not.mpr hp)] at hs
  -- where the next task comes back decides who still has to decrement
  have hresume : Nest.resume (m.sched.onTasks (·.switchTo site n)) m.depth
      ((m.sched.tasks.switchTo site n).tcb n).esp = some m' := hs
  have hlost := h.lostSwitch
  obtain ⟨⟨t, l, lost⟩, depth, pc⟩ := m
  obtain rfl : lost = false := hlost
  cases he : ((t.switchTo site n).tcb n).esp <;> rw [he] at hresume hcard
  · cases hresume
  · obtain rfl := Option.some.inj hresume
    refine .of_depth_zero hclosed hblocks hdepth hp ?_ hflag (by simp)
    refine hirq.trans ?_
    rw [Nat.zero_add, ← hcard]
    rfl
  · obtain rfl := Option.some.inj hresume
    refine .of_depth_zero hclosed hblocks hdepth hp ?_ hflag (by simp)
    refine hirq.trans ?_
    rw [Nat.zero_add, ← hcard]
    rfl
  · obtain rfl := Option.some.inj hresume
    refine .of_depth_zero hclosed hblocks hdepth hp ?_ hflag (by simp)
    refine hirq.trans ?_
    rw [Nat.zero_add, ← hcard]
    rfl
  · cases hresume

theorem Inv.leave (h : m.Inv) (hd : m.nesting = 0) (hpc : m.pc = .unlocking) :
    Inv { m with sched := m.sched.onLocks Locks.unlockTail, pc := .user } := by
  have hirq := h.irq
  rw [held, hpc, LockPc.pending] at hirq
  exact
    { h with
      irq := by
        refine (toNat_sub_one (by omega)).trans ?_
        rw [hirq]
        rfl
      interrupts := fun _ => hd
      flag := fun hf => by
        have := (h.flag hf).1
        omega
      next := fun _ _ hn => by cases hn }

theorem Inv.createKernelTask {newTask stackBase : Nat} (h : m.Inv)
    (hf : m.sched.tasks.Fresh newTask stackBase) :
    (m.onTasks (·.createKernelTask newTask stackBase)).Inv := by
  have hrel := (Tasks.Relinked.refl (m.sched.tasks.fillTask newTask stackBase)).enqueue
    (a := newTask)
  refine h.onTasks (h.closed.createKernelTask hf.task_ne) (h.blocks.createKernelTask hf)
    hrel.currentTaskPCB (Tasks.suspended_createKernelTask (hf.notMem h.blocks)) ?_
  intro site n hp
  have hcr : (m.sched.tasks.createKernelTask newTask stackBase).created
      = insert newTask m.sched.tasks.created := hrel.created
  exact hcr ▸ Finset.mem_insert_of_mem (h.next site n hp)

theorem Inv.deadTasksCleanup {dead : List Nat} (h : m.Inv) (hpc : m.pc = .user)
    (hd : m.sched.tasks.DeadApart dead) (ht : m.sched.tasks.deadTasksCleanup = some t) :
    (m.onTasks fun _ => t).Inv := by
  obtain ⟨hclosed, hblocks, hcr, live, created, rfl⟩ := h.closed.deadTasksCleanup h.blocks hd ht
  refine h.onTasks hclosed hblocks rfl (hd.suspended hcr rfl rfl) fun site n hp => ?_
  rw [hpc] at hp
  cases hp

theorem Inv.irq0Handler (h : m.Inv) (hi : m.sched.locks.interruptFlag = true)
    (hs : m.sched.irq0Handler = some s) : Inv { m with sched := s } := by
  rw [Scheduler.irq0Handler_eq (h.quiet hi).steady] at hs
  obtain ⟨t, ht, rfl⟩ := Option.map_eq_some_iff.mp hs
  have hrel := (Tasks.Relinked.refl m.sched.tasks.addTick).wakeLoop ht
  have hclosed : m.sched.tasks.addTick.Closed := { h.closed with next := h.closed.next }
  exact h.onTasks_same (f := fun _ => t) (hclosed.wakeLoop hclosed.sleeping ht) (.tick ht)
    ⟨hrel.created, hrel.currentTaskPCB, hrel.esp⟩

end Nest

/-- **A step keeps the counters.** -/
theorem LockStep.inv {m m' : Nest} {e : LockEvent} (hs : LockStep m e m')
    (hfit : e = .lock → m.held + 1 < 4294967296) (h : m.Inv) : m'.Inv := by
  obtain ⟨ha, hs⟩ := hs
  cases e with
  | lock =>
    obtain rfl := Option.some.inj hs
    exact h.lock (hfit rfl)
  | unlock => exact h.unlock ha hs
  | schedule => exact h.schedule ha (by decide) hs
  | finish => exact h.schedule ha (by decide) hs
  | switch =>
    rw [LockEvent.run] at hs
    split at hs
    · exact h.switch ha ‹_› hs
    · cases hs
  | leave =>
    obtain rfl := Option.some.inj hs
    exact h.leave ha.2 ha.1
  | irq0Handler =>
    obtain ⟨s, hirq, rfl⟩ := Option.map_eq_some_iff.mp hs
    exact h.irq0Handler ha hirq
  | createKernelTask newTask stackBase =>
    obtain rfl := Option.some.inj hs
    exact h.createKernelTask ha.2
  | unblockTask task =>
    obtain rfl := Option.some.inj hs
    have hrel := (Tasks.Relinked.refl m.sched.tasks).unblockTask (a := task)
    exact h.onTasks_same (h.closed.unblockTask ha.2) hrel.sameBlocks hrel.sameStacks
  | microSleepUntil us =>
    obtain rfl := Option.some.inj hs
    exact h.onTasks_same h.closed.microSleepUntil .microSleepUntil .microSleepUntil
  | blockTask reason =>
    obtain rfl := Option.some.inj hs
    exact h.onTasks_same h.closed.setState .setState (.setTcb rfl)
  | terminateTask =>
    obtain rfl := Option.some.inj hs
    exact h.onTasks_same h.closed.terminateTask .terminateTask .terminateTask
  | markTaskForDeath =>
    obtain rfl := Option.some.inj hs
    have hstate := ((Tasks.Relinked.refl m.sched.tasks).setState
      (a := m.sched.tasks.currentTaskPCB) (v := taskStateDead)).sameStacks
    exact h.onTasks_same (h.closed.setState.terminateTask) .markTaskForDeath
      (hstate.trans .terminateTask)
  | deadTasksCleanup dead =>
    obtain ⟨t, ht, rfl⟩ := Option.map_eq_some_iff.mp hs
    exact h.deadTasksCleanup ha.1 ha.2.2 ht

theorem CountedStep.inv {m m' : Nest} {e : LockEvent} (hs : CountedStep m e m') (h : m.Inv) :
    m'.Inv :=
  hs.toLockStep.inv (by rintro rfl; exact hs.fits) h

/-- **A decrement never starts at `0`.** -/
theorem Nest.Inv.positive {m : Nest} {e : LockEvent} (h : m.Inv) (ha : e.Allowed m)
    (hf : e.Fits m) : e.Positive m := by
  have hp := h.postpone
  have hirq := h.irq
  cases e with
  | unlock =>
    have hd : 0 < m.nesting := ha
    rw [Nest.held] at hirq
    rw [LockEvent.Positive, Ne, Ne, eq_zero_iff_toNat, eq_zero_iff_toNat]
    omega
  | leave =>
    rw [Nest.held, ha.1, LockPc.pending] at hirq
    rw [LockEvent.Positive, Ne, eq_zero_iff_toNat]
    omega
  | irq0Handler =>
    have hfit : m.held + 2 < 4294967296 := hf
    have hd := h.interrupts ha
    have hp₁ := toNat_add_one (c := m.sched.locks.postponeTaskSwitchesCounter) (by omega)
    have hp₂ := toNat_add_one (c := m.sched.locks.postponeTaskSwitchesCounter + 1) (by omega)
    have hi₁ := toNat_add_one (c := m.sched.locks.irqDisableCounter) (by omega)
    have hi₂ := toNat_add_one (c := m.sched.locks.irqDisableCounter + 1) (by omega)
    rintro l (rfl | rfl) <;> rw [Ne, Ne, eq_zero_iff_toNat, eq_zero_iff_toNat] <;>
      simp only [Locks.lock] <;> omega
  | lock => trivial
  | schedule => trivial
  | finish => trivial
  | switch => trivial
  | createKernelTask newTask stackBase => trivial
  | unblockTask task => trivial
  | microSleepUntil us => trivial
  | blockTask reason => trivial
  | terminateTask => trivial
  | markTaskForDeath => trivial
  | deadTasksCleanup dead => trivial

/-! ### Runs -/

section Run

variable {kernelTask ticks : Nat} {tcb : Nat → TaskControlBlock} {live : Nat → Bool}

/-- The kernel task, outside of every section. -/
def Nest.start (s : Scheduler) : Nest := ⟨s, fun _ => 0, .user⟩

theorem multitaskingInitialize_closed (hk : kernelTask ≠ 0) :
    (Scheduler.multitaskingInitialize kernelTask ticks tcb live).tasks.Closed where
  null hm := hk (mem_created_multitaskingInitialize.mp hm).symm
  current := mem_created_multitaskingInitialize.mpr rfl
  first := .inl rfl
  last := .inl rfl
  sleeping := .inl rfl
  dead := .inl rfl
  next a ha := by
    refine .inr (mem_created_multitaskingInitialize.mpr ?_)
    rw [mem_created_multitaskingInitialize.mp ha, Tasks.next, tcb_multitaskingInitialize]

theorem suspended_multitaskingInitialize :
    (Scheduler.multitaskingInitialize kernelTask ticks tcb live).tasks.suspended = ∅ :=
  Finset.filter_eq_empty_iff.mpr fun _ ha hp => hp.1 (mem_created_multitaskingInitialize.mp ha)

theorem multitaskingInitialize_nest (hk : kernelTask ≠ 0) (h0 : live 0 = false) :
    (Nest.start (Scheduler.multitaskingInitialize kernelTask ticks tcb live)).Inv := by
  refine .of_depth_zero (t := (Scheduler.multitaskingInitialize kernelTask ticks tcb live).tasks)
    (l := (Scheduler.multitaskingInitialize kernelTask ticks tcb live).locks)
    (multitaskingInitialize_closed hk) (multitaskingInitialize_blocks hk h0) (fun _ => rfl) rfl
    ?_ rfl (by simp)
  rw [suspended_multitaskingInitialize]
  rfl

instance Seg.decidable {next : Nat → Nat} {b : Nat} : (a : Nat) → (l : List Nat) →
    Decidable (Seg next a l b)
  | a, [] => inferInstanceAs (Decidable (a = b))
  | a, x :: l =>
    have : Decidable (Seg next (next x) l b) := Seg.decidable (next x) l
    inferInstanceAs (Decidable (a = x ∧ Seg next (next x) l b))

instance {t : Tasks} {d : List Nat} : Decidable (t.DeadApart d) :=
  decidable_of_iff (Seg t.next t.deadTasks d 0 ∧ 0 ∉ d ∧ t.currentTaskPCB ∉ d ∧
      t.firstReadyToRunTask ∉ d ∧ t.lastReadyToRunTask ∉ d ∧ t.sleepingTaskes ∉ d ∧
      (∀ a ∈ t.created, a ∉ d → t.next a ∉ d) ∧ ∀ a ∈ d, (t.tcb a).esp ≠ .insideUnlock)
    ⟨fun ⟨h1, h2, h3, h4, h5, h6, h7, h8⟩ => ⟨h1, h2, h3, h4, h5, h6, h7, h8⟩,
      fun ⟨h1, h2, h3, h4, h5, h6, h7, h8⟩ => ⟨h1, h2, h3, h4, h5, h6, h7, h8⟩⟩

instance {m : Nest} : (e : LockEvent) → Decidable (e.Allowed m)
  | .lock => inferInstanceAs (Decidable True)
  | .unlock => inferInstanceAs (Decidable (_ < _))
  | .schedule => inferInstanceAs (Decidable (_ = _))
  | .finish => inferInstanceAs (Decidable (_ = _))
  | .switch => inferInstanceAs (Decidable (_ = _))
  | .leave => inferInstanceAs (Decidable (_ ∧ _))
  | .irq0Handler => inferInstanceAs (Decidable (_ = _))
  | .createKernelTask newTask stackBase =>
    inferInstanceAs (Decidable (_ ∧ m.sched.tasks.Fresh newTask stackBase))
  | .unblockTask _ => inferInstanceAs (Decidable (_ ∧ _ ∈ _))
  | .microSleepUntil _ => inferInstanceAs (Decidable (_ < _))
  | .blockTask _ => inferInstanceAs (Decidable (_ < _))
  | .terminateTask => inferInstanceAs (Decidable (_ < _))
  | .markTaskForDeath => inferInstanceAs (Decidable (_ < _))
  | .deadTasksCleanup dead =>
    inferInstanceAs (Decidable (_ = _ ∧ _ < _ ∧ m.sched.tasks.DeadApart dead))

/-- The event, when it is allowed. -/
def LockEvent.step (e : LockEvent) (m : Nest) : Option Nest :=
  if e.Allowed m then e.run m else none

theorem LockEvent.step_spec {e : LockEvent} {m m' : Nest} (h : e.step m = some m') :
    LockStep m e m' := by
  rw [LockEvent.step] at h
  split at h
  · exact ⟨‹_›, h⟩
  · cases h

/-- The event, when it is allowed and can be counted. -/
def LockEvent.countedStep (e : LockEvent) (m : Nest) : Option Nest :=
  if e.Fits m then e.step m else none

theorem LockEvent.countedStep_spec {e : LockEvent} {m m' : Nest} (h : e.countedStep m = some m') :
    CountedStep m e m' := by
  rw [LockEvent.countedStep] at h
  split at h
  · exact ⟨LockEvent.step_spec h, ‹_›⟩
  · cases h

/-- **The lock counters**, in every state of every run whose sections they can count:
the one counts the sections that the running code is inside of, the other one also
the tasks that are suspended in `unlock_scheduler`.  No counter is decremented at
`0`, a switch is postponed only inside of a section, and `_switch_to_task` never
returns early. -/
theorem lock_counters {es : List LockEvent} {m : Nest} (hk : kernelTask ≠ 0)
    (h0 : live 0 = false)
    (hrun : Trace CountedStep
      (Nest.start (Scheduler.multitaskingInitialize kernelTask ticks tcb live)) es m) :
    m.sched.locks.postponeTaskSwitchesCounter.toNat = m.nesting ∧
    (m.pc = .user → m.sched.locks.irqDisableCounter.toNat
      = m.nesting + m.sched.tasks.suspended.card) ∧
    (m.sched.locks.taskSwitchesPostponedFlag = true → 0 < m.nesting) ∧
    m.sched.lostSwitch = false ∧
    ∀ e : LockEvent, e.Allowed m → e.Fits m → e.Positive m := by
  have h : m.Inv := hrun.invariant (multitaskingInitialize_nest hk h0) fun _ _ _ h hs => hs.inv h
  refine ⟨h.postpone, fun hpc => ?_, fun hf => (h.flag hf).1, h.lostSwitch,
    fun e ha hf => h.positive ha hf⟩
  have hirq := h.irq
  rw [Nest.held, hpc] at hirq
  exact hirq

/-- The kernel task creates a task, and calls `schedule` in a section; the new task
does the same and both come back.  Then the new task ends and is cleaned up. -/
def pingPong : List LockEvent :=
  [.lock, .createKernelTask 8192 8448, .unlock, .lock, .schedule, .unlock, .switch, .lock, .lock,
    .schedule, .unlock, .unlock, .switch, .leave, .schedule, .switch, .leave, .irq0Handler, .lock,
    .markTaskForDeath, .unlock, .finish, .switch, .lock, .deadTasksCleanup [8192], .unlock]

theorem lock_counters_booted : ∃ m, Trace CountedStep (Nest.start bootedTask) pingPong m ∧
    m.sched.locks.postponeTaskSwitchesCounter.toNat = m.nesting ∧ m.sched.lostSwitch = false ∧
    ∀ e : LockEvent, e.Allowed m → e.Fits m → e.Positive m := by
  obtain ⟨m, hm⟩ := Option.isSome_iff_exists.mp (show
    (execute LockEvent.countedStep pingPong (Nest.start bootedTask)).isSome = true by decide +kernel)
  have hrun := Trace.of_execute (fun _ _ _ => LockEvent.countedStep_spec) hm
  obtain ⟨hp, -, -, hl, hpos⟩ := lock_counters (by decide) rfl hrun
  exact ⟨m, hrun, hp, hl, hpos⟩

theorem exists_locks (s : Scheduler) (n : Nat) : ∃ m,
    Trace LockStep (Nest.start s) (List.replicate n .lock) m ∧ m.nesting = n ∧
      m.sched.locks.postponeTaskSwitchesCounter
        = s.locks.postponeTaskSwitchesCounter + BitVec.ofNat 32 n := by
  induction n with
  | zero => exact ⟨_, .nil, rfl, (BitVec.add_zero _).symm⟩
  | succ n ih =>
    obtain ⟨m, hrun, hn, hp⟩ := ih
    rw [List.replicate_succ']
    refine ⟨_, .snoc hrun ⟨trivial, rfl⟩, ?_, ?_⟩
    · refine (Function.update_self _ _ _).trans ?_
      rw [hn]
    · change m.sched.locks.postponeTaskSwitchesCounter + 1 = _
      rw [hp, BitVec.add_assoc, BitVec.ofNat_add]
      rfl

/-- **Behind `2 ^ 32` calls of `lock_scheduler`** the counter is `0`. -/
theorem lock_counters_wrap : ¬ ∀ es m, Trace LockStep (Nest.start bootedTask) es m →
    m.sched.locks.postponeTaskSwitchesCounter.toNat = m.nesting := by
  intro hall
  obtain ⟨n, hn⟩ : ∃ n, n = 4294967296 := ⟨_, rfl⟩
  obtain ⟨m, hrun, hnest, hp⟩ := exists_locks bootedTask n
  have heq := hall _ m hrun
  rw [hnest, hp, BitVec.toNat_add, BitVec.toNat_ofNat, hn] at heq
  exact absurd heq (by decide)

end Run

end ChoOS
