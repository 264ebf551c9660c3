import Mathlib.Algebra.BigOperators.Group.Finset.Piecewise
import Mathlib.Algebra.Order.BigOperators.Group.Finset
import ChoOS.Sched.Locks

/-!
# Who pays for a tick

`update_time_used` charges the running task for the ticks since `last_tick`, and
`schedule` and `get_current_task_time_used` call it.  `Clocked` is the scheduler
with a count of the ticks that each task really ran, and `Tasks.Charged` says
that the two accounts agree: what is charged adds up to `last_tick`, and only the
running task has ticks that are not charged yet.

`schedule` charges the task that gives up the processor before it switches, so at
the switch nothing is open (`Charged.prepare`, `Charged.switchTo`).  Its early
exits charge nothing.  The lists are not needed: a run may break the ready queue,
and the accounts still agree (`time_charged`).

A call is cut here into the parts between which a timer interrupt may come:
`create_kernel_task` is `lock`, `createKernelTask` and `unlock`, `micro_sleep_until`
is two sections and a `schedule`, and `terminate_task` two sections and `finish`.
-/

namespace ChoOS

namespace Tasks

/-- `get_current_task_time_used` -/
def getCurrentTaskTimeUsed (t : Tasks) : Tasks × Nat :=
  let t := t.updateTimeUsed
  (t, (t.tcb t.currentTaskPCB).timeUsed)

/-- The same accounts. -/
structure SameUsed (t t' : Tasks) : Prop where
  timeUsed : ∀ z, (t'.tcb z).timeUsed = (t.tcb z).timeUsed
  currentTaskPCB : t'.currentTaskPCB = t.currentTaskPCB
  created : t'.created = t.created
  lastTick : t'.lastTick = t.lastTick
  ticks : t'.ticksSinceBoot = t.ticksSinceBoot

variable {t t' t'' : Tasks} {a n us p : Nat} {v : Int} {b : TaskControlBlock} {site : Resume}

theorem SameUsed.refl (t : Tasks) : t.SameUsed t := ⟨fun _ => rfl, rfl, rfl, rfl, rfl⟩

theorem SameUsed.trans (h : t.SameUsed t') (h' : t'.SameUsed t'') : t.SameUsed t'' where
  timeUsed z := (h'.timeUsed z).trans (h.timeUsed z)
  currentTaskPCB := h'.currentTaskPCB.trans h.currentTaskPCB
  created := h'.created.trans h.created
  lastTick := h'.lastTick.trans h.lastTick
  ticks := h'.ticks.trans h.ticks

theorem SameUsed.setTcb (hb : b.timeUsed = (t.tcb a).timeUsed) : t.SameUsed (t.setTcb a b) := by
  refine ⟨fun z => ?_, rfl, rfl, rfl, rfl⟩
  by_cases hz : z = a
  · simp [Tasks.setTcb, hz, hb]
  · simp [Tasks.setTcb, hz]

theorem SameUsed.setNext : t.SameUsed (t.setNext a n) := .setTcb rfl

theorem SameUsed.setState : t.SameUsed (t.setState a v) := .setTcb rfl

theorem SameUsed.setFirst : t.SameUsed (t.setFirst a) := ⟨fun _ => rfl, rfl, rfl, rfl, rfl⟩

theorem SameUsed.setLast : t.SameUsed (t.setLast a) := ⟨fun _ => rfl, rfl, rfl, rfl, rfl⟩

theorem SameUsed.setSleeping : t.SameUsed (t.setSleeping a) :=
  ⟨fun _ => rfl, rfl, rfl, rfl, rfl⟩

theorem SameUsed.setDead : t.SameUsed (t.setDead a) := ⟨fun _ => rfl, rfl, rfl, rfl, rfl⟩

theorem SameUsed.enqueue : t.SameUsed (t.enqueue a) := by
  rw [Tasks.enqueue]
  split
  · exact SameUsed.setFirst.trans .setLast
  · exact SameUsed.setNext.trans .setLast

theorem SameUsed.unblockTask : t.SameUsed (t.unblockTask a) :=
  SameUsed.setState.trans (SameUsed.setNext.trans .enqueue)

theorem SameUsed.requeueCurrent : t.SameUsed t.requeueCurrent := by
  rw [Tasks.requeueCurrent]
  dsimp only
  split
  · have h : t.SameUsed ((t.setState t.currentTaskPCB taskStateReadyToRun).setNext
        t.currentTaskPCB 0) := SameUsed.setState.trans .setNext
    split
    · exact h.trans (SameUsed.setNext.trans .setLast)
    · exact h.trans (SameUsed.setFirst.trans .setLast)
  · exact .refl t

theorem SameUsed.microSleepUntil : t.SameUsed (t.microSleepUntil us) := by
  have h : t.SameUsed (t.setTarget t.currentTaskPCB (u32 us)) := .setTcb rfl
  exact h.trans (SameUsed.setNext.trans .setSleeping)

theorem SameUsed.terminateTask : t.SameUsed t.terminateTask := SameUsed.setNext.trans .setDead

theorem SameUsed.markTaskForDeath : t.SameUsed t.markTaskForDeath := by
  have h : t.SameUsed (t.setState t.currentTaskPCB taskStateDead) := .setState
  exact h.trans .terminateTask

theorem SameUsed.unlinkSleeping : t.SameUsed (t.unlinkSleeping p a) := by
  rw [Tasks.unlinkSleeping]
  split
  · exact .setSleeping
  · exact .setNext

theorem SameUsed.wakeLoop {ticks : Nat} : ∀ (fuel p a : Nat) (t t' : Tasks),
    t.wakeLoop ticks fuel p a = some t' → t.SameUsed t' := by
  intro fuel
  induction fuel with
  | zero => intro p a t t' h; cases h
  | succ fuel ih =>
    intro p a t t' h
    rw [Tasks.wakeLoop] at h
    split at h
    · exact Option.some.inj h ▸ .refl t
    · split at h
      · have hstep := SameUsed.unlinkSleeping.trans (.unblockTask (t := t.unlinkSleeping p a)
          (a := a))
        exact hstep.trans (ih _ _ _ _ h)
      · exact ih _ _ _ _ h

/-! ### The accounts -/

/-- What was charged since the tick `start` is what was used: `ran` are the ticks
that each task was the running one. -/
structure Charged (t : Tasks) (ran : Nat → Nat) (start : Nat) : Prop where
  current : t.currentTaskPCB ∈ t.created
  last_le : t.lastTick ≤ t.ticksSinceBoot
  bound : t.ticksSinceBoot < 18446744073709551616
  total : ∑ a ∈ t.created, (t.tcb a).timeUsed + start = t.lastTick
  each : ∀ a ∈ t.created, (t.tcb a).timeUsed
    + (if a = t.currentTaskPCB then t.ticksSinceBoot - t.lastTick else 0) = ran a
  fresh : ∀ a, a ∉ t.created → ran a = 0

variable {ran : Nat → Nat} {start : Nat}

theorem Charged.congr (h : t.Charged ran start) (hs : t.SameUsed t') : t'.Charged ran start where
  current := by
    rw [hs.currentTaskPCB, hs.created]
    exact h.current
  last_le := by
    rw [hs.lastTick, hs.ticks]
    exact h.last_le
  bound := hs.ticks ▸ h.bound
  total := by
    rw [hs.created, hs.lastTick, ← h.total]
    exact congrArg (· + start) (Finset.sum_congr rfl fun a _ => hs.timeUsed a)
  each a ha := by
    rw [hs.timeUsed, hs.currentTaskPCB, hs.ticks, hs.lastTick]
    exact h.each a (hs.created ▸ ha)
  fresh a ha := h.fresh a (hs.created ▸ ha)

theorem Charged.timeUsed_le (h : t.Charged ran start) (ha : a ∈ t.created) :
    (t.tcb a).timeUsed + start ≤ t.lastTick := by
  rw [← h.total]
  exact Nat.add_le_add_right
    (Finset.single_le_sum (f := fun a => (t.tcb a).timeUsed) (fun _ _ => Nat.zero_le _) ha) start

theorem Charged.timeUsed_updateTimeUsed (h : t.Charged ran start) (z : Nat) :
    (t.updateTimeUsed.tcb z).timeUsed = (t.tcb z).timeUsed
      + if z = t.currentTaskPCB then t.ticksSinceBoot - t.lastTick else 0 := by
  have hle := h.timeUsed_le h.current
  have hlast := h.last_le
  have hbound := h.bound
  by_cases hz : z = t.currentTaskPCB
  · simp only [Tasks.updateTimeUsed, Tasks.setTcb, hz, Function.update_self, u64, if_pos]
    omega
  · simp [Tasks.updateTimeUsed, Tasks.setTcb, hz]

/-- **`update_time_used`** closes the account of the running task. -/
theorem Charged.updateTimeUsed (h : t.Charged ran start) :
    t.updateTimeUsed.Charged ran start ∧ t.updateTimeUsed.lastTick = t.ticksSinceBoot := by
  have hlast := h.last_le
  refine ⟨⟨h.current, le_rfl, h.bound, ?_, fun a ha => ?_, h.fresh⟩, rfl⟩
  · have hsum : ∑ a ∈ t.created, (t.updateTimeUsed.tcb a).timeUsed
        = ∑ a ∈ t.created, (t.tcb a).timeUsed + (t.ticksSinceBoot - t.lastTick) := by
      rw [Finset.sum_congr rfl fun a _ => h.timeUsed_updateTimeUsed a, Finset.sum_add_distrib,
        Finset.sum_ite_eq' t.created t.currentTaskPCB, if_pos h.current]
    have htotal := h.total
    change ∑ a ∈ t.created, (t.updateTimeUsed.tcb a).timeUsed + start = t.ticksSinceBoot
    omega
  · rw [h.timeUsed_updateTimeUsed, h.each a ha]
    change ran a + (if _ then t.ticksSinceBoot - t.ticksSinceBoot else 0) = ran a
    rw [Nat.sub_self, ite_self, Nat.add_zero]

/-- **The part of `schedule` in front of `_switch_to_task`** leaves no account open. -/
theorem Charged.prepare (h : t.Charged ran start) :
    t.takeFirst.updateTimeUsed.requeueCurrent.Charged ran start ∧
      t.takeFirst.updateTimeUsed.requeueCurrent.lastTick
        = t.takeFirst.updateTimeUsed.requeueCurrent.ticksSinceBoot := by
  have hfirst : t.SameUsed t.takeFirst := SameUsed.setFirst.trans .setLast
  obtain ⟨hc, hl⟩ := (h.congr hfirst).updateTimeUsed
  have hs : t.takeFirst.updateTimeUsed.SameUsed t.takeFirst.updateTimeUsed.requeueCurrent :=
    .requeueCurrent
  refine ⟨hc.congr hs, ?_⟩
  rw [hs.lastTick, hs.ticks, hl]
  rfl

/-- **`_switch_to_task`** changes who pays from now on. -/
theorem Charged.switchTo (h : t.Charged ran start) (hl : t.lastTick = t.ticksSinceBoot)
    (hn : n ∈ t.created) : (t.switchTo site n).Charged ran start := by
  have hesp : t.SameUsed (t.setEsp t.currentTaskPCB site) := .setTcb rfl
  have h₁ := h.congr hesp
  have h₂ : ((t.setEsp t.currentTaskPCB site).setCurrent n).Charged ran start :=
    { h₁ with
      current := hn
      total := h₁.total
      each := fun a ha => by
        have heach := h₁.each a ha
        change ((t.setEsp t.currentTaskPCB site).tcb a).timeUsed
          + (if _ then t.ticksSinceBoot - t.lastTick else 0) = ran a at heach
        change ((t.setEsp t.currentTaskPCB site).tcb a).timeUsed
          + (if _ then t.ticksSinceBoot - t.lastTick else 0) = ran a
        rw [hl, Nat.sub_self, ite_self] at heach ⊢
        exact heach
      fresh := h₁.fresh }
  exact h₂.congr .setState

/-- **A whole `schedule`.** -/
theorem Charged.reschedule (h : t.Charged ran start) (hc : t.Closed)
    (hf : t.firstReadyToRunTask ≠ 0) : (t.reschedule site).Charged ran start := by
  obtain ⟨hp, hl⟩ := h.prepare
  refine hp.switchTo hl ?_
  have hcreated : t.takeFirst.updateTimeUsed.requeueCurrent.created = t.created :=
    created_requeueCurrent
  rw [hcreated]
  exact hc.first.resolve_left hf

/-- **A tick** is used by the running task. -/
theorem Charged.addTick (h : t.Charged ran start) (hb : t.ticksSinceBoot + 1 < 18446744073709551616) :
    t.addTick.Charged
      (Function.update ran t.currentTaskPCB (ran t.currentTaskPCB + 1)) start := by
  have hticks : t.addTick.ticksSinceBoot = t.ticksSinceBoot + 1 := Nat.mod_eq_of_lt hb
  have hlast := h.last_le
  refine ⟨h.current, ?_, hticks ▸ hb, h.total, fun a ha => ?_, fun a ha => ?_⟩
  · rw [hticks]
    exact Nat.le_succ_of_le hlast
  · have heach := h.each a ha
    rw [hticks]
    change (t.tcb a).timeUsed
      + (if a = t.currentTaskPCB then t.ticksSinceBoot + 1 - t.lastTick else 0) = _
    by_cases hac : a = t.currentTaskPCB
    · subst hac
      rw [if_pos rfl] at heach ⊢
      rw [Function.update_self, ← heach]
      omega
    · rw [if_neg hac] at heach ⊢
      rw [Function.update_of_ne hac]
      exact heach
  · have hac : a ≠ t.currentTaskPCB := fun e => ha (e ▸ h.current)
    rw [Function.update_of_ne hac]
    exact h.fresh a ha

/-- **A new task** has used nothing. -/
theorem Charged.createKernelTask {newTask stackBase : Nat} (h : t.Charged ran start)
    (hn : newTask ∉ t.created) :
    (t.createKernelTask newTask stackBase).Charged ran start := by
  have hnew : ((t.fillTask newTask stackBase).tcb newTask).timeUsed = 0 := by
    simp [fillTask, Tasks.setTcb]
  have hold : ∀ z, z ∈ t.created → ((t.fillTask newTask stackBase).tcb z).timeUsed
      = (t.tcb z).timeUsed := by
    intro z hz
    have hne : z ≠ newTask := fun e => hn (e ▸ hz)
    simp [fillTask, Tasks.setTcb, hne]
  have hcur : newTask ≠ t.currentTaskPCB := fun e => hn (e ▸ h.current)
  have h₁ : (t.fillTask newTask stackBase).Charged ran start :=
    { current := Finset.mem_insert_of_mem h.current
      last_le := h.last_le
      bound := h.bound
      total := by
        change ∑ a ∈ insert newTask t.created, _ + start = t.lastTick
        rw [Finset.sum_insert hn, hnew, Nat.zero_add, Finset.sum_congr rfl hold]
        exact h.total
      each := fun a ha => by
        change _ + (if a = t.currentTaskPCB then t.ticksSinceBoot - t.lastTick else 0) = ran a
        rcases Finset.mem_insert.mp ha with rfl | ha
        · rw [hnew, if_neg hcur, h.fresh _ hn]
        · rw [hold a ha]
          exact h.each a ha
      fresh := fun a ha => h.fresh a fun hm => ha (Finset.mem_insert_of_mem hm) }
  exact h₁.congr .enqueue

end Tasks

/-! ### Runs -/

/-- The scheduler, and the ticks at which each task was the running one. -/
structure Clocked where
  sched : Scheduler
  ran : Nat → Nat

inductive TimeEvent
  | lock
  | unlock
  | schedule
  /-- The last `schedule` of `terminate_task` or `mark_task_for_death`. -/
  | finish
  | irq0Handler
  | getCurrentTaskTimeUsed
  | createKernelTask (newTask stackBase : Nat)
  | microSleepUntil (microSeconds : Nat)
  | blockTask (reason : Int)
  | terminateTask
  | markTaskForDeath

namespace TimeEvent

def run : TimeEvent → Scheduler → Option Scheduler
  | .lock, s => some s.lockScheduler
  | .unlock, s => s.unlockScheduler
  | .schedule, s => s.callSchedule .afterSchedule
  | .finish, s => s.callSchedule .ended
  | .irq0Handler, s => s.irq0Handler
  | .getCurrentTaskTimeUsed, s => some (s.onTasks fun t => t.getCurrentTaskTimeUsed.1)
  | .createKernelTask newTask stackBase, s => some (s.onTasks (·.createKernelTask newTask stackBase))
  | .microSleepUntil us, s => some (s.onTasks (·.microSleepUntil us))
  | .blockTask reason, s => some (s.onTasks (·.blockTask reason))
  | .terminateTask, s => some (s.onTasks Tasks.terminateTask)
  | .markTaskForDeath, s => some (s.onTasks Tasks.markTaskForDeath)

/-- `kmalloc` does not hand out a control block again, and the clock does not wrap. -/
def Allowed (s : Scheduler) : TimeEvent → Prop
  | .createKernelTask newTask _ => newTask ≠ 0 ∧ newTask ∉ s.tasks.created
  | .irq0Handler => s.tasks.ticksSinceBoot + 1 < 18446744073709551616
  | _ => True

/-- A tick is a tick of the running task. -/
def count (current : Nat) (ran : Nat → Nat) : TimeEvent → Nat → Nat
  | .irq0Handler => Function.update ran current (ran current + 1)
  | _ => ran

end TimeEvent

structure TimeStep (c : Clocked) (e : TimeEvent) (c' : Clocked) : Prop where
  allowed : e.Allowed c.sched
  run : e.run c.sched = some c'.sched
  ran : c'.ran = e.count c.sched.tasks.currentTaskPCB c.ran

/-- The accounts agree. -/
structure Clocked.Inv (start : Nat) (c : Clocked) : Prop where
  closed : c.sched.tasks.Closed
  charged : c.sched.tasks.Charged c.ran start

theorem Tasks.Closed.updateTimeUsed {t : Tasks} (h : t.Closed) : t.updateTimeUsed.Closed :=
  { h with
    next := fun z hz => by
      rw [next_updateTimeUsed]
      exact h.next z hz }

theorem Tasks.Closed.reschedule {t : Tasks} {site : Resume} (h : t.Closed)
    (hf : t.firstReadyToRunTask ≠ 0) : (t.reschedule site).Closed := by
  refine (h.prepare hf).switchTo site ?_
  have hcreated : t.takeFirst.updateTimeUsed.requeueCurrent.created = t.created :=
    created_requeueCurrent
  rw [hcreated]
  exact h.first.resolve_left hf

section Step

variable {c c' : Clocked} {e : TimeEvent} {start : Nat} {site : Resume} {t : Tasks}
  {ran : Nat → Nat}

theorem Clocked.Inv.switch (h : c.Inv start) (ht : t = c.sched.tasks ∨
    c.sched.tasks.firstReadyToRunTask ≠ 0 ∧ t = c.sched.tasks.reschedule site) :
    t.Closed ∧ t.Charged c.ran start := by
  rcases ht with rfl | ⟨hf, rfl⟩
  · exact ⟨h.closed, h.charged⟩
  · exact ⟨h.closed.reschedule hf, h.charged.reschedule h.closed hf⟩

/-- **A step keeps the accounts.** -/
theorem TimeStep.inv (hs : TimeStep c e c') (h : c.Inv start) : c'.Inv start := by
  obtain ⟨s', ran'⟩ := c'
  obtain ⟨ha, hrun, rfl⟩ := hs
  suffices hinv : s'.tasks.Closed ∧
      s'.tasks.Charged (e.count c.sched.tasks.currentTaskPCB c.ran) start from ⟨hinv.1, hinv.2⟩
  cases e with
  | lock =>
    obtain rfl := Option.some.inj hrun
    exact ⟨h.closed, h.charged⟩
  | unlock => exact h.switch (Scheduler.unlockScheduler_tasks hrun)
  | schedule => exact h.switch (Scheduler.callSchedule_tasks hrun)
  | finish => exact h.switch (Scheduler.callSchedule_tasks hrun)
  | irq0Handler =>
    have htick := Scheduler.irq0Handler_tick hrun
    have hclosed : c.sched.tasks.addTick.Closed := { h.closed with next := h.closed.next }
    exact ⟨hclosed.wakeLoop hclosed.sleeping htick,
      (h.charged.addTick ha).congr (.wakeLoop _ _ _ _ _ htick)⟩
  | getCurrentTaskTimeUsed =>
    obtain rfl := Option.some.inj hrun
    exact ⟨h.closed.updateTimeUsed, h.charged.updateTimeUsed.1⟩
  | createKernelTask newTask stackBase =>
    obtain rfl := Option.some.inj hrun
    exact ⟨h.closed.createKernelTask ha.1, h.charged.createKernelTask ha.2⟩
  | microSleepUntil us =>
    obtain rfl := Option.some.inj hrun
    exact ⟨h.closed.microSleepUntil, h.charged.congr .microSleepUntil⟩
  | blockTask reason =>
    obtain rfl := Option.some.inj hrun
    exact ⟨h.closed.setState, h.charged.congr .setState⟩
  | terminateTask =>
    obtain rfl := Option.some.inj hrun
    exact ⟨h.closed.terminateTask, h.charged.congr .terminateTask⟩
  | markTaskForDeath =>
    obtain rfl := Option.some.inj hrun
    exact ⟨h.closed.setState.terminateTask, h.charged.congr .markTaskForDeath⟩

end Step

/-- **What `get_current_task_time_used` returns** is what the task used. -/
theorem Clocked.Inv.getCurrentTaskTimeUsed {c : Clocked} {start : Nat} (h : c.Inv start) :
    c.sched.tasks.getCurrentTaskTimeUsed.2 = c.ran c.sched.tasks.currentTaskPCB := by
  have hcur := h.charged.current
  change (c.sched.tasks.updateTimeUsed.tcb c.sched.tasks.currentTaskPCB).timeUsed = _
  rw [h.charged.timeUsed_updateTimeUsed, h.charged.each _ hcur]

section Run

variable {kernelTask ticks : Nat} {tcb : Nat → TaskControlBlock} {live : Nat → Bool}
  {es : List TimeEvent} {c : Clocked}

instance {s : Scheduler} : (e : TimeEvent) → Decidable (e.Allowed s)
  | .createKernelTask _ _ => inferInstanceAs (Decidable (_ ∧ _))
  | .irq0Handler => inferInstanceAs (Decidable (_ < _))
  | .lock | .unlock | .schedule | .finish | .getCurrentTaskTimeUsed | .microSleepUntil _
  | .blockTask _ | .terminateTask | .markTaskForDeath => inferInstanceAs (Decidable True)

/-- The event, when it is allowed. -/
def TimeEvent.step (e : TimeEvent) (c : Clocked) : Option Clocked :=
  if e.Allowed c.sched then
    (e.run c.sched).map (⟨·, e.count c.sched.tasks.currentTaskPCB c.ran⟩)
  else none

theorem TimeEvent.step_spec {e : TimeEvent} {c c' : Clocked} (h : e.step c = some c') :
    TimeStep c e c' := by
  rw [TimeEvent.step] at h
  split at h
  · obtain ⟨s, hrun, rfl⟩ := Option.map_eq_some_iff.mp h
    exact ⟨‹_›, hrun, rfl⟩
  · cases h

/-- Behind `multitasking_initialize`. -/
def Clocked.start (s : Scheduler) : Clocked := ⟨s, fun _ => 0⟩

theorem multitaskingInitialize_charged (ht : ticks < 18446744073709551616) :
    (Scheduler.multitaskingInitialize kernelTask ticks tcb live).tasks.Charged (fun _ => 0)
      ticks where
  current := mem_created_multitaskingInitialize.mpr rfl
  last_le := le_rfl
  bound := ht
  total := by
    change ∑ a ∈ {kernelTask}, _ + ticks = ticks
    rw [Finset.sum_singleton, tcb_multitaskingInitialize]
    exact Nat.zero_add ticks
  each a ha := by
    rw [mem_created_multitaskingInitialize.mp ha, tcb_multitaskingInitialize]
    change 0 + (if _ then ticks - ticks else 0) = 0
    rw [Nat.sub_self, ite_self]
  fresh _ _ := rfl

/-- **Every tick is charged once, and to the task that used it**, in every state of
every run. -/
theorem time_charged (hk : kernelTask ≠ 0) (ht : ticks < 18446744073709551616)
    (hrun : Trace TimeStep
      (Clocked.start (Scheduler.multitaskingInitialize kernelTask ticks tcb live)) es c) :
    (∑ a ∈ c.sched.tasks.created, (c.sched.tasks.tcb a).timeUsed)
        = c.sched.tasks.lastTick - ticks ∧
      ticks ≤ c.sched.tasks.lastTick ∧
      ∀ a ∈ c.sched.tasks.created, (c.sched.tasks.tcb a).timeUsed
        + (if a = c.sched.tasks.currentTaskPCB then
            c.sched.tasks.ticksSinceBoot - c.sched.tasks.lastTick else 0) = c.ran a := by
  have h : c.Inv ticks := hrun.invariant
    ⟨multitaskingInitialize_closed hk, multitaskingInitialize_charged ht⟩
    fun _ _ _ h hs => hs.inv h
  have htotal := h.charged.total
  exact ⟨by omega, by omega, h.charged.each⟩

/-- The kernel task creates a task and yields to it; the new task yields in a section,
and the kernel task goes to sleep. -/
def sharedTicks : List TimeEvent :=
  [.irq0Handler, .lock, .createKernelTask 8192 8448, .unlock, .irq0Handler, .schedule,
    .irq0Handler, .irq0Handler, .getCurrentTaskTimeUsed, .irq0Handler, .lock, .schedule, .unlock,
    .irq0Handler, .lock, .microSleepUntil 9, .unlock, .irq0Handler, .lock,
    .blockTask taskStateSleeping, .unlock, .schedule, .irq0Handler]

theorem time_charged_booted : ∃ c, Trace TimeStep (Clocked.start bootedTask) sharedTicks c ∧
    (∑ a ∈ c.sched.tasks.created, (c.sched.tasks.tcb a).timeUsed) = c.sched.tasks.lastTick - 0 ∧
    c.ran 4096 = 4 ∧ c.ran 8192 = 4 := by
  have hexec : (execute TimeEvent.step sharedTicks (Clocked.start bootedTask)).map
      (fun c => (c.ran 4096, c.ran 8192)) = some (4, 4) := by
    decide +kernel
  obtain ⟨c, hc, he⟩ := Option.map_eq_some_iff.mp hexec
  have hrun := Trace.of_execute (fun _ _ _ => TimeEvent.step_spec) hc
  obtain ⟨hk, hb⟩ := Prod.mk.inj he
  exact ⟨c, hrun, (time_charged (by decide) (by decide) hrun).1, hk, hb⟩

end Run

end ChoOS
