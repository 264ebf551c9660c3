import ChoOS.Sched.RoundRobin
import ChoOS.Sched.Wake
import ChoOS.Sched.WakeUp

/-!
# How long a task sleeps

`sleep` and `micro_sleep` take a time to wait and turn it into the tick to wake
at.  The clock and `target_wakeup_time` have 64 bits, but the tick passes through
the parameter of `micro_sleep_until`, and the seconds through a product, which
have 32.  `SleepsFor` says that a call waits for the time it was given, and
`sleep_deadlines` that it does when the tick to wake at has 32 bits.

The timer interrupt looks at `target_wakeup_time` and not at the time that was
asked for.  `irqs_wakeReady` is the way from the one to the other: as long as no
task runs, `k` interrupts leave the tasks on the sleeping list whose tick is more
than `k` away.
-/

namespace ChoOS

namespace Scheduler

variable {s s' s₁ s₂ : Scheduler} {r sl : List Nat} {us d wait : Nat} {site : Resume}

/-- `micro_sleep`.  The sum has 64 bits, the parameter it is passed as has 32. -/
def microSleep (microSeconds : Nat) (s : Scheduler) : Option Scheduler :=
  s.microSleepUntil (u64 (s.tasks.ticksSinceBoot + microSeconds))

/-- `sleep` -/
def sleep (seconds : Nat) (s : Scheduler) : Option Scheduler :=
  s.microSleep (u32 (seconds * 1000))

/-- The task that runs in `s` is to sleep for `wait` ticks, as `s'` has it: the
wake-up test holds `wait` ticks later, and not before. -/
structure SleepsFor (wait : Nat) (s s' : Scheduler) : Prop where
  target : (s'.tasks.tcb s.tasks.currentTaskPCB).targetWakeupTime
    = s.tasks.ticksSinceBoot + wait
  first : ∀ k, s.tasks.ticksSinceBoot + k < 18446744073709551616 →
    (s'.tasks.dueAt (s.tasks.ticksSinceBoot + k) s.tasks.currentTaskPCB = true ↔ wait ≤ k)

/-! ### What a call stores -/

theorem callSchedule_sameTimes (h : callSchedule site s = some s') :
    s.tasks.SameTimes s'.tasks := by
  rcases callSchedule_tasks h with he | ⟨-, he⟩ <;> rw [he]
  · exact ⟨fun _ => rfl, rfl⟩
  · exact .reschedule

/-- **What `micro_sleep_until` stores**: 32 bits of its argument. -/
theorem microSleepUntil_target (h : s.microSleepUntil us = some s') :
    (s'.tasks.tcb s.tasks.currentTaskPCB).targetWakeupTime = u32 us := by
  obtain ⟨s₁, h₁, h⟩ := Option.bind_eq_some_iff.mp h
  obtain ⟨s₂, h₂, h⟩ := Option.bind_eq_some_iff.mp h
  have hsleep := criticalSection_tasks h₁
  have hblock : s₁.tasks.SameTimes s₂.tasks := criticalSection_tasks h₂ ▸ .setState
  rw [(hblock.trans (callSchedule_sameTimes h)).target, hsleep, Tasks.microSleepUntil]
  simp [Tasks.setTarget, Tasks.setNext, Tasks.setSleeping, Tasks.setTcb]

theorem u32_u64 (n : Nat) : u32 (u64 n) = u32 n := by
  simp only [u32, u64]
  omega

theorem microSleep_target (h : s.microSleep d = some s') :
    (s'.tasks.tcb s.tasks.currentTaskPCB).targetWakeupTime
      = u32 (s.tasks.ticksSinceBoot + d) := by
  rw [microSleepUntil_target h, u32_u64]

theorem sleep_target (h : s.sleep d = some s') :
    (s'.tasks.tcb s.tasks.currentTaskPCB).targetWakeupTime
      = u32 (s.tasks.ticksSinceBoot + 1000 * d) := by
  rw [microSleep_target h]
  simp only [u32]
  omega

/-- **A sleeping task gets to `schedule`**, and from there to a task that runs. -/
theorem microSleepUntil_returns (us : Nat) (hl : s.locks.Unpostponed)
    (hfirst : s.tasks.firstReadyToRunTask ≠ 0 →
      (s.tasks.tcb s.tasks.firstReadyToRunTask).esp.Returns) :
    ∃ s', s.microSleepUntil us = some s' := by
  have hsame : s.tasks.SameStacks ((s.tasks.microSleepUntil us).blockTask taskStateSleeping) :=
    Tasks.SameStacks.microSleepUntil.trans (.setTcb rfl)
  rw [microSleepUntil, sleepSection, criticalSection_onTasks hl, Option.bind_eq_bind,
    Option.bind_some, blockTask, blockSection,
    criticalSection_onTasks (s := ⟨_, s.locks.afterSection, _⟩) hl, Option.bind_eq_bind,
    Option.bind_some]
  refine callSchedule_returns trivial fun hf => ?_
  change (((s.tasks.microSleepUntil us).blockTask taskStateSleeping).tcb
    s.tasks.firstReadyToRunTask).esp.Returns
  rw [hsame.esp]
  exact hfirst hf

/-! ### Deadlines -/

theorem SleepsFor.of_target (h : (s'.tasks.tcb s.tasks.currentTaskPCB).targetWakeupTime
    = s.tasks.ticksSinceBoot + wait) : SleepsFor wait s s' where
  target := h
  first k _ := by
    rw [Tasks.dueAt, decide_eq_true_iff, h]
    exact Nat.add_le_add_iff_left

/-- 32 bits of a tick are the tick when it has no more. -/
theorem sleepsFor_iff (h : (s'.tasks.tcb s.tasks.currentTaskPCB).targetWakeupTime
      = u32 (s.tasks.ticksSinceBoot + wait)) :
    SleepsFor wait s s' ↔ s.tasks.ticksSinceBoot + wait < 4294967296 := by
  constructor
  · intro hs
    rw [← hs.target, h, u32]
    exact Nat.mod_lt _ (by decide)
  · intro hlt
    exact .of_target (h.trans (Nat.mod_eq_of_lt hlt))

/-- **Sleeping for as long as was asked.**  A tick that does not fit into 64 bits
is not asked for. -/
theorem sleep_deadlines (h₁ : s.microSleep d = some s₁) (h₂ : s.sleep d = some s₂) :
    ((s.tasks.ticksSinceBoot + d < 18446744073709551616 → SleepsFor d s s₁) ∧
      (s.tasks.ticksSinceBoot + 1000 * d < 18446744073709551616 → SleepsFor (1000 * d) s s₂)) ↔
    (s.tasks.ticksSinceBoot + d < 4294967296 ∨
      18446744073709551616 ≤ s.tasks.ticksSinceBoot + d) ∧
    (s.tasks.ticksSinceBoot + 1000 * d < 4294967296 ∨
      18446744073709551616 ≤ s.tasks.ticksSinceBoot + 1000 * d) := by
  rw [sleepsFor_iff (microSleep_target h₁), sleepsFor_iff (sleep_target h₂)]
  omega

/-- The kernel task alone, at tick `n`. -/
def aloneAt (n : Nat) : Scheduler := Scheduler.multitaskingInitialize 64 n (fun _ => .zero)
  fun _ => false

theorem sleep_deadlines_alone : ∃ s₁ s₂, (aloneAt 500).microSleep 20 = some s₁ ∧
    (aloneAt 500).sleep 20 = some s₂ ∧ SleepsFor 20 (aloneAt 500) s₁ ∧
      SleepsFor 20000 (aloneAt 500) s₂ := by
  obtain ⟨s₁, h₁⟩ := Option.isSome_iff_exists.mp (show
    ((aloneAt 500).microSleep 20).isSome = true by decide)
  obtain ⟨s₂, h₂⟩ := Option.isSome_iff_exists.mp (show
    ((aloneAt 500).sleep 20).isSome = true by decide)
  obtain ⟨hmicro, hsleep⟩ := (sleep_deadlines h₁ h₂).mpr ⟨.inl (by decide), .inl (by decide)⟩
  exact ⟨s₁, s₂, h₁, h₂, hmicro (by decide), hsleep (by decide)⟩

/-- At tick `2 ^ 32 - 1` a sleep of one tick is over before it starts. -/
theorem deadline_wraps : ¬ ∀ (s s₁ s₂ : Scheduler) (d : Nat),
    s.tasks.ticksSinceBoot < 18446744073709551616 → d < 4294967296 →
    s.microSleep d = some s₁ → s.sleep d = some s₂ →
    (s.tasks.ticksSinceBoot + d < 18446744073709551616 → SleepsFor d s s₁) ∧
      (s.tasks.ticksSinceBoot + 1000 * d < 18446744073709551616 → SleepsFor (1000 * d) s s₂) := by
  intro hall
  obtain ⟨s₁, h₁⟩ := Option.isSome_iff_exists.mp (show
    ((aloneAt 4294967295).microSleep 1).isSome = true by decide)
  obtain ⟨s₂, h₂⟩ := Option.isSome_iff_exists.mp (show
    ((aloneAt 4294967295).sleep 1).isSome = true by decide)
  obtain ⟨hmicro, -⟩ := hall _ s₁ s₂ 1 (by decide) (by decide) h₁ h₂
  have htarget := (hmicro (by decide)).target
  rw [microSleep_target h₁] at htarget
  exact absurd htarget (by decide)

/-! ### The timer interrupts while a task sleeps -/

/-- **The timer interrupt** takes the sleepers that are due from the list. -/
theorem irq0Handler_wakeReady (h : s.WakeReady r sl) : ∃ s', s.irq0Handler = some s' ∧
    s'.WakeReady (r ++ sl.filter s.tasks.due) (sl.filter fun z => !s.tasks.due z) ∧
    s'.tasks.ticksSinceBoot = u64 (s.tasks.ticksSinceBoot + 1) ∧
    ∀ z, (s'.tasks.tcb z).targetWakeupTime = (s.tasks.tcb z).targetWakeupTime := by
  have h₀ : WakeReady ⟨s.tasks.addTick, s.locks.setInterrupts false, s.lostSwitch⟩ r sl :=
    { h with steady := h.steady.setInterrupts false }
  obtain ⟨s₁, hcall, hw⟩ := internalUpdateAwokenTaskes_wakes s.tasks.addTick.ticksSinceBoot h₀
  have hirq : s.irq0Handler = some (s₁.onLocks (·.setInterrupts s.locks.interruptFlag)) := by
    rw [irq0Handler]
    change (internalUpdateAwokenTaskes s.tasks.addTick.ticksSinceBoot
      ⟨s.tasks.addTick, s.locks.setInterrupts false, s.lostSwitch⟩).bind _ = _
    rw [hcall, Option.bind_some]
    rfl
  refine ⟨_, hirq, { hw.lists with steady := hw.lists.steady.setInterrupts _ }, ?_, fun z => ?_⟩
  · change s₁.tasks.ticksSinceBoot = _
    rw [hw.rest]
    rfl
  · change (s₁.tasks.tcb z).targetWakeupTime = _
    rw [hw.fields]
    rfl

/-- So many timer interrupts, and nothing else. -/
def irqs : Nat → Scheduler → Option Scheduler
  | 0, s => some s
  | k + 1, s => do (← irqs k s).irq0Handler

/-- **Timer interrupts** leave the sleepers on the list whose tick has not come. -/
theorem irqs_wakeReady (h : s.WakeReady r sl) : ∀ k,
    s.tasks.ticksSinceBoot + (k + 1) < 18446744073709551616 →
    ∃ s' r', irqs (k + 1) s = some s' ∧
      s'.WakeReady r' (sl.filter fun z => !s.tasks.dueAt (s.tasks.ticksSinceBoot + (k + 1)) z) ∧
      s'.tasks.ticksSinceBoot = s.tasks.ticksSinceBoot + (k + 1) ∧
      ∀ z, (s'.tasks.tcb z).targetWakeupTime = (s.tasks.tcb z).targetWakeupTime := by
  intro k
  induction k with
  | zero =>
    intro hk
    obtain ⟨s', hirq, hw, ht, htarget⟩ := irq0Handler_wakeReady h
    have hu : u64 (s.tasks.ticksSinceBoot + 1) = s.tasks.ticksSinceBoot + 1 :=
      Nat.mod_eq_of_lt hk
    have hdue : s.tasks.due = s.tasks.dueAt (s.tasks.ticksSinceBoot + 1) := by
      funext z
      rw [Tasks.due, hu, Tasks.dueAt]
    rw [hdue] at hw
    exact ⟨s', _, hirq, hw, ht.trans hu, htarget⟩
  | succ k ih =>
    intro hk
    obtain ⟨s₁, r₁, hrun, hw₁, ht₁, htarget₁⟩ := ih (by omega)
    obtain ⟨s', hirq, hw, ht, htarget⟩ := irq0Handler_wakeReady hw₁
    have hu : u64 (s₁.tasks.ticksSinceBoot + 1) = s.tasks.ticksSinceBoot + (k + 1 + 1) := by
      rw [ht₁]
      exact Nat.mod_eq_of_lt hk
    -- who is due one tick earlier is due
    have hdue : (fun z => !s₁.tasks.due z && !s.tasks.dueAt (s.tasks.ticksSinceBoot + (k + 1)) z)
        = fun z => !s.tasks.dueAt (s.tasks.ticksSinceBoot + (k + 1 + 1)) z := by
      funext z
      rw [Tasks.due, hu, htarget₁, Tasks.dueAt, Tasks.dueAt, Bool.eq_iff_iff]
      simp only [Bool.and_eq_true, Bool.not_eq_true', decide_eq_false_iff_not]
      omega
    rw [List.filter_filter, List.filter_filter, hdue] at hw
    refine ⟨s', _, ?_, hw, ht.trans hu, fun z => (htarget z).trans (htarget₁ z)⟩
    rw [irqs, hrun]
    exact hirq

/-- **A task that sleeps for `wait` ticks** is on the sleeping list until `wait`
timer interrupts have come. -/
theorem asleep_iff {a k : Nat} (h : s.WakeReady r sl) (ha : a ∈ sl)
    (ht : (s.tasks.tcb a).targetWakeupTime = s.tasks.ticksSinceBoot + wait)
    (hk : s.tasks.ticksSinceBoot + (k + 1) < 18446744073709551616) :
    ∃ s' r' sl', irqs (k + 1) s = some s' ∧ s'.WakeReady r' sl' ∧ (a ∈ sl' ↔ k + 1 < wait) := by
  obtain ⟨s', r', hrun, hw, -, -⟩ := irqs_wakeReady h k hk
  refine ⟨s', r', _, hrun, hw, ?_⟩
  rw [List.mem_filter, Tasks.dueAt, ht]
  simp only [ha, true_and, Bool.not_eq_true', decide_eq_false_iff_not]
  omega

end Scheduler

end ChoOS
