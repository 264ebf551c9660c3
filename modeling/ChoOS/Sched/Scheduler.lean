import Mathlib.Data.Finset.Card
import ChoOS.Heap.Allocators

/-!
# The scheduler

The code of `scheduler.c`, `task.c` and `sleep.c`, with `_switch_to_task` and
the timer interrupt.  `Tasks` holds the task control blocks and the pointers
into them, `Locks` the two counters, the flag and the interrupt flag of the
processor, and `Scheduler` both.  A function of `Tasks` is what the source does
between `lock_scheduler` and `unlock_scheduler`; the function of `Scheduler`
with the same name adds the locking.

All tasks run on one processor, so a step is a function of the state; what a
task has on its stack is only the place where it continues.  `Resume` is that
place, and it is what `esp` stands for here.  `schedule` returns the task that
it hands to `_switch_to_task`, if it gets that far, and `Scheduler.resume` runs
what stands between the return of `_switch_to_task` and the code of the task.

`kmalloc` and `kfree` are what callers see of them: `live` is the set of blocks
handed out, `kmalloc` gives blocks outside of it, and `kfree` of a pointer that
is not in it has no result.  The locks that they take inside a locked section
leave the counters as they were.  The counters are words of 32 bits and wrap.
-/

namespace ChoOS

/-- The value of a 64-bit machine word. -/
def u64 (n : Nat) : Nat := n % 18446744073709551616

/-- Where a task continues on its saved stack. -/
inductive Resume
  /-- Nothing was saved yet. -/
  | null
  /-- The stack of `_forge_kernel_stack`: `task_start_up`, then the task. -/
  | forged
  /-- Behind a `schedule` that the task called. -/
  | afterSchedule
  /-- Behind the `schedule` in `unlock_scheduler`. -/
  | insideUnlock
  /-- Behind the last `schedule` of the task: the next thing there is `abort`. -/
  | ended
  deriving DecidableEq

/-! ### `task.h` -/

def taskStateTerminated : Int := -2

def taskStateDead : Int := 0

def taskStateReadyToRun : Int := 1

def taskStateRunning : Int := 2

def taskStateSleeping : Int := 3

/-- `struct TaskControlBlock`, without `esp0` and `cr3`. -/
structure TaskControlBlock where
  id : Nat
  esp : Resume
  next : Nat
  state : Int
  timeUsed : Nat
  stackBase : Nat
  targetWakeupTime : Nat

/-- A block after `memset`. -/
def TaskControlBlock.zero : TaskControlBlock :=
  { id := 0, esp := .null, next := 0, state := 0, timeUsed := 0, stackBase := 0,
    targetWakeupTime := 0 }

/-- The task control blocks and the pointers into them.  `live` are the blocks of
the heap that are handed out, `created` the tasks that were created and not yet
cleaned up. -/
structure Tasks where
  tcb : Nat → TaskControlBlock
  currentTaskPCB : Nat
  firstReadyToRunTask : Nat
  lastReadyToRunTask : Nat
  deadTasks : Nat
  sleepingTaskes : Nat
  currentPid : Nat
  lastTick : Nat
  ticksSinceBoot : Nat
  live : Nat → Bool
  created : Finset Nat

namespace Tasks

def next (t : Tasks) (a : Nat) : Nat := (t.tcb a).next

def state (t : Tasks) (a : Nat) : Int := (t.tcb a).state

def setTcb (t : Tasks) (a : Nat) (b : TaskControlBlock) : Tasks :=
  { t with tcb := Function.update t.tcb a b }

def setNext (t : Tasks) (a n : Nat) : Tasks := t.setTcb a { t.tcb a with next := n }

def setState (t : Tasks) (a : Nat) (v : Int) : Tasks := t.setTcb a { t.tcb a with state := v }

def setEsp (t : Tasks) (a : Nat) (r : Resume) : Tasks := t.setTcb a { t.tcb a with esp := r }

def setTarget (t : Tasks) (a n : Nat) : Tasks := t.setTcb a { t.tcb a with targetWakeupTime := n }

def setCurrent (t : Tasks) (a : Nat) : Tasks := { t with currentTaskPCB := a }

def setFirst (t : Tasks) (a : Nat) : Tasks := { t with firstReadyToRunTask := a }

def setLast (t : Tasks) (a : Nat) : Tasks := { t with lastReadyToRunTask := a }

def setSleeping (t : Tasks) (a : Nat) : Tasks := { t with sleepingTaskes := a }

def setDead (t : Tasks) (a : Nat) : Tasks := { t with deadTasks := a }

/-! ### The ready queue -/

/-- The end of `create_kernel_task` and of `unblock_task`. -/
def enqueue (t : Tasks) (a : Nat) : Tasks :=
  if t.firstReadyToRunTask = 0 then (t.setFirst a).setLast a
  else (t.setNext t.lastReadyToRunTask a).setLast a

/-- `create_kernel_task` fills the control block; the blocks are what `kmalloc`
returned. -/
def fillTask (newTask stackBase : Nat) (t : Tasks) : Tasks :=
  let pid := u64 (t.currentPid + 1)
  let t := { t with
    currentPid := pid
    live := Function.update (Function.update t.live newTask true) stackBase true
    created := insert newTask t.created }
  t.setTcb newTask
    { id := u32 pid, esp := .forged, next := 0, state := taskStateReadyToRun, timeUsed := 0,
      stackBase := stackBase, targetWakeupTime := 0 }

def createKernelTask (newTask stackBase : Nat) (t : Tasks) : Tasks :=
  (t.fillTask newTask stackBase).enqueue newTask

def unblockTask (task : Nat) (t : Tasks) : Tasks :=
  ((t.setState task taskStateReadyToRun).setNext task 0).enqueue task

/-- `schedule` takes the first task from the queue. -/
def takeFirst (t : Tasks) : Tasks :=
  let first := t.next t.firstReadyToRunTask
  (t.setFirst first).setLast (if first = 0 then 0 else t.lastReadyToRunTask)

def updateTimeUsed (t : Tasks) : Tasks :=
  let elapsed := u64 (t.ticksSinceBoot + (18446744073709551616 - u64 t.lastTick))
  let b := t.tcb t.currentTaskPCB
  { t.setTcb t.currentTaskPCB { b with timeUsed := u64 (b.timeUsed + elapsed) } with
    lastTick := t.ticksSinceBoot }

/-- `schedule` puts the running task at the end of the queue.  It looks at the
last task, not at the first one. -/
def requeueCurrent (t : Tasks) : Tasks :=
  let c := t.currentTaskPCB
  if t.state c = taskStateRunning ∨ t.state c = taskStateReadyToRun then
    let t := (t.setState c taskStateReadyToRun).setNext c 0
    if t.lastReadyToRunTask ≠ 0 then (t.setNext t.lastReadyToRunTask c).setLast c
    else (t.setFirst c).setLast c
  else t

/-- The part of `_switch_to_task` that changes the control blocks.  The state is
an `int` and `movb` writes its low byte. -/
def switchTo (site : Resume) (n : Nat) (t : Tasks) : Tasks :=
  let t := (t.setEsp t.currentTaskPCB site).setCurrent n
  t.setState n (t.state n - t.state n % 256 + taskStateRunning)

/-! ### Sleeping, blocking and ending -/

def microSleepUntil (microSeconds : Nat) (t : Tasks) : Tasks :=
  let c := t.currentTaskPCB
  let t := t.setTarget c (u32 microSeconds)
  (t.setNext c t.sleepingTaskes).setSleeping c

def blockTask (reason : Int) (t : Tasks) : Tasks := t.setState t.currentTaskPCB reason

def terminateTask (t : Tasks) : Tasks :=
  (t.setNext t.currentTaskPCB t.deadTasks).setDead t.currentTaskPCB

def markTaskForDeath (t : Tasks) : Tasks :=
  ((t.setState t.currentTaskPCB taskStateDead).setNext t.currentTaskPCB t.deadTasks).setDead
    t.currentTaskPCB

/-- `kfree`, for its caller. -/
def kfree (ptr : Nat) (t : Tasks) : Option Tasks :=
  if t.live ptr then some { t with live := Function.update t.live ptr false } else none

/-- `free_task` -/
def freeTask (node : Nat) (t : Tasks) : Option Tasks := do
  let t ← t.kfree (t.tcb node).stackBase
  let t ← t.kfree node
  return { t with created := t.created.erase node }

/-- The loop of `dead_tasks_cleanup`. -/
def freeLoop : Nat → Nat → Tasks → Option Tasks
  | 0, _, _ => none
  | fuel + 1, node, t =>
    if node = 0 then some t
    else do
      let next := t.next node
      freeLoop fuel next (← t.freeTask node)

def deadTasksCleanup (t : Tasks) : Option Tasks := do
  let t ← freeLoop walkFuel t.deadTasks t
  return t.setDead 0

end Tasks

/-- The state behind `lock_scheduler` and `unlock_scheduler`. -/
structure Locks where
  irqDisableCounter : BitVec 32
  postponeTaskSwitchesCounter : BitVec 32
  taskSwitchesPostponedFlag : Bool
  interruptFlag : Bool

namespace Locks

/-- `lock_scheduler` -/
def lock (l : Locks) : Locks :=
  { l with
    interruptFlag := false
    irqDisableCounter := l.irqDisableCounter + 1
    postponeTaskSwitchesCounter := l.postponeTaskSwitchesCounter + 1 }

/-- The first decrement of `unlock_scheduler`. -/
def release (l : Locks) : Locks :=
  { l with postponeTaskSwitchesCounter := l.postponeTaskSwitchesCounter - 1 }

/-- `unlock_scheduler` from its second decrement on. -/
def unlockTail (l : Locks) : Locks :=
  { l with
    irqDisableCounter := l.irqDisableCounter - 1
    interruptFlag := if l.irqDisableCounter - 1 = 0 then true else l.interruptFlag }

def setFlag (l : Locks) (b : Bool) : Locks := { l with taskSwitchesPostponedFlag := b }

def setInterrupts (l : Locks) (b : Bool) : Locks := { l with interruptFlag := b }

end Locks

/-- The whole scheduler.  `lostSwitch` says that `_switch_to_task` returned early. -/
structure Scheduler where
  tasks : Tasks
  locks : Locks
  lostSwitch : Bool

namespace Scheduler

def onTasks (f : Tasks → Tasks) (s : Scheduler) : Scheduler := { s with tasks := f s.tasks }

def onLocks (f : Locks → Locks) (s : Scheduler) : Scheduler := { s with locks := f s.locks }

def lockScheduler (s : Scheduler) : Scheduler := s.onLocks Locks.lock

/-- `schedule`, up to the call of `_switch_to_task`. -/
def schedule (s : Scheduler) : Scheduler × Option Nat :=
  if s.locks.postponeTaskSwitchesCounter ≠ 0 then (s.onLocks (·.setFlag true), none)
  else if s.tasks.firstReadyToRunTask = 0 then (s, none)
  else (s.onTasks fun t => t.takeFirst.updateTimeUsed.requeueCurrent,
    some s.tasks.firstReadyToRunTask)

/-- `_switch_to_task`, called from `site`; it says whether it switched. -/
def switchToTask (site : Resume) (n : Nat) (s : Scheduler) : Scheduler × Bool :=
  if s.locks.postponeTaskSwitchesCounter ≠ 0 then
    ({ s.onLocks (·.setFlag true) with lostSwitch := true }, false)
  else (s.onTasks (·.switchTo site n), true)

/-- From a return on a saved stack to the code of the task.  `none` is `abort`. -/
def resume : Resume → Scheduler → Option Scheduler
  | .null, _ => none
  | .forged, s => some (s.onLocks (·.setInterrupts true))
  | .afterSchedule, s => some s
  | .insideUnlock, s => some (s.onLocks Locks.unlockTail)
  | .ended, _ => none

/-- `_switch_to_task`, up to the code of the task that runs then. -/
def switchAndResume (site : Resume) (n : Nat) (s : Scheduler) : Option Scheduler :=
  match s.switchToTask site n with
  | (s, false) => resume site s
  | (s, true) => resume (s.tasks.tcb s.tasks.currentTaskPCB).esp s

/-- A call of `schedule` at `site`, up to the code of the task that runs then. -/
def callSchedule (site : Resume) (s : Scheduler) : Option Scheduler :=
  match s.schedule with
  | (s, none) => resume site s
  | (s, some n) => s.switchAndResume site n

/-- `unlock_scheduler`, up to the call of `_switch_to_task`. -/
def unlockStart (s : Scheduler) : Scheduler × Option Nat :=
  let s := s.onLocks Locks.release
  if s.locks.postponeTaskSwitchesCounter = 0 ∧ s.locks.taskSwitchesPostponedFlag = true then
    match (s.onLocks (·.setFlag false)).schedule with
    | (s, none) => (s.onLocks Locks.unlockTail, none)
    | (s, some n) => (s, some n)
  else (s.onLocks Locks.unlockTail, none)

def unlockScheduler (s : Scheduler) : Option Scheduler :=
  match s.unlockStart with
  | (s, none) => some s
  | (s, some n) => s.switchAndResume .insideUnlock n

/-- `unlock_scheduler`, for a caller that goes on without a task switch. -/
def unlockHere (s : Scheduler) : Option Scheduler :=
  match s.unlockStart with
  | (s, none) => some s
  | (_, some _) => none

/-- A section between `lock_scheduler` and `unlock_scheduler` that its caller
leaves without a task switch.  With a switch the code behind it runs later, so
that is not one step; `criticalSection_eq` says when there is none. -/
def criticalSection (body : Scheduler → Option Scheduler) (s : Scheduler) : Option Scheduler := do
  (← body s.lockScheduler).unlockHere

def createKernelTask (newTask stackBase : Nat) : Scheduler → Option Scheduler :=
  criticalSection fun s => some (s.onTasks (·.createKernelTask newTask stackBase))

def unblockTask (task : Nat) : Scheduler → Option Scheduler :=
  criticalSection fun s => some (s.onTasks (·.unblockTask task))

def blockSection (reason : Int) : Scheduler → Option Scheduler :=
  criticalSection fun s => some (s.onTasks (·.blockTask reason))

/-- `block_task`; `site` is where its `schedule` leaves the task. -/
def blockTask (reason : Int) (site : Resume) (s : Scheduler) : Option Scheduler := do
  callSchedule site (← s.blockSection reason)

def sleepSection (microSeconds : Nat) : Scheduler → Option Scheduler :=
  criticalSection fun s => some (s.onTasks (·.microSleepUntil microSeconds))

def microSleepUntil (microSeconds : Nat) (s : Scheduler) : Option Scheduler := do
  blockTask taskStateSleeping .afterSchedule (← s.sleepSection microSeconds)

def terminateTask (s : Scheduler) : Option Scheduler := do
  blockTask taskStateTerminated .ended
    (← s.criticalSection fun s => some (s.onTasks Tasks.terminateTask))

def markTaskForDeath (s : Scheduler) : Option Scheduler := do
  callSchedule .ended (← s.criticalSection fun s => some (s.onTasks Tasks.markTaskForDeath))

def deadTasksCleanup : Scheduler → Option Scheduler :=
  criticalSection fun s => s.tasks.deadTasksCleanup.map fun t => { s with tasks := t }

/-- The loop of `internal_update_awoken_taskes`. -/
def wakeLoop (ticks : Nat) : Nat → Nat → Nat → Scheduler → Option Scheduler
  | 0, _, _, _ => none
  | fuel + 1, prev, curr, s =>
    if curr = 0 then some s
    else
      let next := s.tasks.next curr
      if (s.tasks.tcb curr).targetWakeupTime ≤ ticks then do
        let s := s.onTasks fun t => if prev = 0 then t.setSleeping next else t.setNext prev next
        wakeLoop ticks fuel prev next (← s.unblockTask curr)
      else wakeLoop ticks fuel curr next s

def internalUpdateAwokenTaskes (ticks : Nat) : Scheduler → Option Scheduler :=
  criticalSection fun s => wakeLoop ticks walkFuel 0 s.tasks.sleepingTaskes s

/-- `irq_0_handler` with the gate that clears the interrupt flag and the `iret`
that restores it; the event installed is `internal_update_awoken_taskes`. -/
def irq0Handler (s : Scheduler) : Option Scheduler := do
  let flag := s.locks.interruptFlag
  let s := s.onLocks (·.setInterrupts false)
  let s := s.onTasks fun t => { t with ticksSinceBoot := u64 (t.ticksSinceBoot + 1) }
  let s ← s.internalUpdateAwokenTaskes s.tasks.ticksSinceBoot
  return s.onLocks (·.setInterrupts flag)

/-- `multitasking_initialize`, after `ticks` timer interrupts.  The pointers that
it does not set are zero from the start, `tcb` is what the memory holds. -/
def multitaskingInitialize (kernelTask ticks : Nat) (tcb : Nat → TaskControlBlock)
    (live : Nat → Bool) : Scheduler where
  tasks :=
    { tcb := Function.update tcb kernelTask
        { TaskControlBlock.zero with next := kernelTask, state := taskStateRunning }
      currentTaskPCB := kernelTask
      firstReadyToRunTask := 0
      lastReadyToRunTask := 0
      deadTasks := 0
      sleepingTaskes := 0
      currentPid := 0
      lastTick := ticks
      ticksSinceBoot := ticks
      live := Function.update live kernelTask true
      created := {kernelTask} }
  locks :=
    { irqDisableCounter := 0
      postponeTaskSwitchesCounter := 0
      taskSwitchesPostponedFlag := false
      interruptFlag := true }
  lostSwitch := false

end Scheduler

end ChoOS
