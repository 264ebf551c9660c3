import ChoOS.Lib.Pit
import ChoOS.Sched.Deadline
import ChoOS.Sched.Roster

/-!
# Ticks and seconds

`timer_init` sets the interval timer up to divide its clock of `FREQ_HZ` by `1193`, for
`freq` ticks in a second.  `TimedKernel` is the scheduler with channel 0 of the timer: a
step is one clock, with `irq_0_handler` when the output rises, or a call of the task that
runs.  `timed_run` takes such a run apart into the run of the channel and the calls.

The clock is not a multiple of `freq`, and the division rounds down, so a tick is a little
shorter than a millisecond.  `timer_rate` counts the ticks, and `sleep_clocks` the clocks
that a task sleeps, whatever the other tasks do.
-/

namespace ChoOS

/-! ### `timer_init` -/

def pitCh0DataPort : BitVec 16 := 0x40

def pitCmdRegPort : BitVec 16 := 0x43

def pitScChannel0 : BitVec 8 := 0x00

def pitRwLohiByte : BitVec 8 := 0x30

def pitMode3SqWave : BitVec 8 := 0x06

def pitBinMode : BitVec 8 := 0x00

def freqHz : BitVec 32 := 1193180

def freq : BitVec 32 := 1000

/-- `timer_init`, as far as the timer and `ticks_since_boot` go. -/
def timerInit (t : Pit) : Pit × Nat :=
  let divisor := freqHz / freq
  let commandByte := pitScChannel0 ||| pitRwLohiByte ||| pitMode3SqWave ||| pitBinMode
  let t := t.outb pitCh0DataPort pitCmdRegPort commandByte
  let t := t.outb pitCh0DataPort pitCh0DataPort (divisor.setWidth 8 &&& 0xFF)
  let t := t.outb pitCh0DataPort pitCh0DataPort ((divisor >>> 8).setWidth 8 &&& 0xFF)
  (t, 0)

theorem timerInit_channel (t : Pit) : (timerInit t).1.channel 0
    = ⟨3, 3, false, none, some 1193, none⟩ := by
  rfl

/-! ### The scheduler on its clock -/

/-- One clock of the timer, or a call of the task that runs. -/
inductive TimedEvent
  | clock
  | call (e : SchedCall)

/-- Channel 0 of the timer and the scheduler. -/
structure TimedKernel where
  channel : PitChannel
  watched : Watched

/-- The interrupt comes when the output of the channel rises, and at no other time. -/
inductive TimedStep : TimedKernel → TimedEvent → TimedKernel → Prop
  | clock {c c' : PitChannel} {w : Watched} : c.clock = (c', false) →
      TimedStep ⟨c, w⟩ .clock ⟨c', w⟩
  | tick {c c' : PitChannel} {w w' : Watched} : c.clock = (c', true) →
      WatchedStep w .irq0Handler w' → TimedStep ⟨c, w⟩ .clock ⟨c', w'⟩
  | call {c : PitChannel} {w w' : Watched} {e : SchedCall} : e ≠ .irq0Handler →
      WatchedStep w e w' → TimedStep ⟨c, w⟩ (.call e) ⟨c, w'⟩

def TimedEvent.isClock : TimedEvent → Bool
  | .clock => true
  | .call _ => false

def SchedCall.isIrq : SchedCall → Bool
  | .irq0Handler => true
  | _ => false

/-- The clocks of a run. -/
def clocks (es : List TimedEvent) : Nat := es.countP TimedEvent.isClock

/-- The timer interrupts of a run. -/
def timerIrqs (cs : List SchedCall) : Nat := cs.countP SchedCall.isIrq

@[simp] theorem clocks_concat (es : List TimedEvent) (e : TimedEvent) :
    clocks (es ++ [e]) = clocks es + if e.isClock then 1 else 0 := by
  simp [clocks, List.countP_singleton]

@[simp] theorem timerIrqs_concat (cs : List SchedCall) (e : SchedCall) :
    timerIrqs (cs ++ [e]) = timerIrqs cs + if e.isIrq then 1 else 0 := by
  simp [timerIrqs, List.countP_singleton]

variable {m m' : TimedKernel} {es : List TimedEvent} {cs : List SchedCall}

/-- **A run on a clock** is a run of the channel and a run of calls, with an interrupt for
each time that the output rises. -/
theorem timed_run (h : Trace TimedStep m es m') : ∃ cs,
    Trace WatchedStep m.watched cs m'.watched ∧
      PitChannel.run (clocks es) m.channel = (m'.channel, timerIrqs cs) := by
  refine h.history (I := fun es m' => ∃ cs, Trace WatchedStep m.watched cs m'.watched ∧
    PitChannel.run (clocks es) m.channel = (m'.channel, timerIrqs cs)) ⟨[], .nil, rfl⟩ ?_
  rintro es m₁ e m' ⟨cs, hcs, hrun⟩ hs
  cases hs with
  | clock hc =>
    refine ⟨cs, hcs, ?_⟩
    rw [clocks_concat]
    simp only [TimedEvent.isClock, if_true, PitChannel.run, hrun, hc]
    rfl
  | tick hc hw =>
    refine ⟨cs ++ [.irq0Handler], .snoc hcs hw, ?_⟩
    rw [clocks_concat, timerIrqs_concat]
    simp only [TimedEvent.isClock, SchedCall.isIrq, if_true, PitChannel.run, hrun, hc]
  | @call c w w' e hne hw =>
    refine ⟨cs ++ [e], .snoc hcs hw, ?_⟩
    have hirq : e.isIrq = false := by
      cases e <;> first | rfl | exact absurd rfl hne
    rw [clocks_concat, timerIrqs_concat, hirq]
    exact hrun

/-! ### The roster on its clock -/

variable {b : Roster} {e : SchedCall} {a wait : Nat} {z : Nat × Nat}

theorem Roster.dispatch_now (b : Roster) : b.dispatch.now = b.now := by
  rw [Roster.dispatch]
  split <;> rfl

theorem Roster.dispatch_sleeping (b : Roster) : b.dispatch.sleeping = b.sleeping := by
  rw [Roster.dispatch]
  split <;> rfl

theorem Roster.step_now (b : Roster) (e : SchedCall) :
    (b.step e).now = if e.isIrq then u64 (b.now + 1) else b.now := by
  cases e with
  | schedule =>
    rw [Roster.step]
    split <;> rfl
  | microSleepUntil us => exact Roster.dispatch_now _
  | terminateTask => exact Roster.dispatch_now _
  | markTaskForDeath => exact Roster.dispatch_now _
  | createKernelTask newTask stackBase => rfl
  | irq0Handler => rfl
  | deadTasksCleanup => rfl

theorem Roster.after_now (hb : b.now < 18446744073709551616) (cs : List SchedCall) :
    (b.after cs).now = u64 (b.now + timerIrqs cs) := by
  induction cs using List.reverseRecOn with
  | nil => exact (Nat.mod_eq_of_lt hb).symm
  | append_singleton cs e ih =>
    rw [Roster.after_concat, Roster.step_now, ih, timerIrqs_concat]
    split
    · simp only [u64]
      omega
    · rfl

/-- Only the interrupt wakes a sleeper. -/
theorem Roster.mem_step_sleeping (he : e.isIrq = false) (hz : z ∈ b.sleeping) :
    z ∈ (b.step e).sleeping := by
  cases e with
  | schedule =>
    rw [Roster.step]
    split <;> exact hz
  | microSleepUntil us =>
    rw [Roster.step, Roster.dispatch_sleeping]
    exact List.mem_cons_of_mem _ hz
  | terminateTask =>
    rw [Roster.step, Roster.dispatch_sleeping]
    exact hz
  | markTaskForDeath =>
    rw [Roster.step, Roster.dispatch_sleeping]
    exact hz
  | createKernelTask newTask stackBase => exact hz
  | irq0Handler => cases he
  | deadTasksCleanup => exact hz

variable {kernelTask : Nat} {s : Scheduler} {w : Watched}

/-- **A sleeper wakes with its tick**: until then it sleeps, and from then on it is in the
ready queue until it gets the processor. -/
theorem sleeper_run (hr : s.Resumes) (h : Represents kernelTask s.tasks b)
    (ha : (a, b.now + wait) ∈ b.sleeping) (hwait : 0 < wait)
    (hfit : b.now + wait < 18446744073709551616) (hrun : Trace WatchedStep ⟨s, []⟩ cs w) :
    w.sched.Resumes ∧ Represents kernelTask w.sched.tasks (b.after cs) ∧
      if timerIrqs cs < wait then a ∉ w.ran ∧ (a, b.now + wait) ∈ (b.after cs).sleeping
      else a ∈ w.ran ∨ a ∈ (b.after cs).ready := by
  refine hrun.history (I := fun cs w => w.sched.Resumes ∧
    Represents kernelTask w.sched.tasks (b.after cs) ∧
      if timerIrqs cs < wait then a ∉ w.ran ∧ (a, b.now + wait) ∈ (b.after cs).sleeping
      else a ∈ w.ran ∨ a ∈ (b.after cs).ready) ⟨hr, h, ?_⟩ ?_
  · rw [if_pos (show timerIrqs [] < wait from hwait)]
    exact ⟨List.not_mem_nil, ha⟩
  rintro cs w e w' ⟨hr, h, hasleep⟩ hs
  obtain ⟨p, hp, hran, hserved⟩ := hs.fifo h hr
  rw [Roster.after_concat, timerIrqs_concat]
  refine ⟨hs.step.resumes hr, (hs.step.represents hr h).1, ?_⟩
  by_cases hlt : timerIrqs cs < wait
  · -- it sleeps in front of the call
    rw [if_pos hlt] at hasleep
    obtain ⟨hnot, hmem⟩ := hasleep
    have hqueue : a ∉ (b.after cs).ready := by
      intro hq
      have hnodup := h.placed.lists.nodup
      rw [List.append_assoc, List.nodup_append] at hnodup
      exact hnodup.2.2 a hq a (List.mem_append_left _ (List.mem_map_of_mem hmem)) rfl
    have hnot' : a ∉ w'.ran := by
      rw [hran, List.mem_append, not_or]
      exact ⟨hnot, fun hz => hqueue (hserved a hz)⟩
    cases he : e.isIrq with
    | false =>
      rw [if_neg Bool.false_ne_true, Nat.add_zero, if_pos hlt]
      exact ⟨hnot', Roster.mem_step_sleeping he hmem⟩
    | true =>
      obtain rfl : e = .irq0Handler := by
        cases e <;> first | rfl | cases he
      rw [if_pos rfl]
      have hafter : u64 ((b.after cs).now + 1) = b.now + (timerIrqs cs + 1) := by
        rw [Roster.after_now (by omega)]
        simp only [u64]
        omega
      by_cases hnext : timerIrqs cs + 1 < wait
      · rw [if_pos hnext]
        refine ⟨hnot', List.mem_filter.mpr ⟨hmem, ?_⟩⟩
        rw [hafter, Bool.not_eq_true', decide_eq_false_iff_not]
        simpa using hnext
      · rw [if_neg hnext]
        refine .inr (List.mem_append_right _ (List.mem_map.mpr ⟨_, List.mem_filter.mpr
          ⟨hmem, ?_⟩, rfl⟩))
        rw [hafter, decide_eq_true_iff]
        simpa using hnext
  · -- it has waked up
    rw [if_neg hlt] at hasleep
    rw [if_neg (by omega), hran, List.mem_append]
    rcases hasleep with hold | hq
    · exact .inl (.inl hold)
    · have hpass : a ∈ p.served ++ ((b.after cs).step e).ready := by
        rw [← hp]
        exact List.mem_append_left _ hq
      rcases List.mem_append.mp hpass with hnew | hstill
      · exact .inl (.inr hnew)
      · exact .inr hstill

/-! ### Ticks and seconds -/

variable {ticks seconds n : Nat} {tcb : Nat → TaskControlBlock} {live : Nat → Bool}
  {pre : List SchedCall} {s₁ : Scheduler}

theorem timerInit_run (t : Pit) (n : Nat) : PitChannel.run (n + 1) ((timerInit t).1.channel 0)
    = (⟨3, 3, false, none, some 1193, some (1193 - n % 1193)⟩, n / 1193) := by
  rw [timerInit_channel]
  exact PitChannel.run_start rfl rfl (by decide) n

theorem timerInit_edges (t : Pit) (n k : Nat) :
    (PitChannel.run k (PitChannel.run (n + 1) ((timerInit t).1.channel 0)).1).2
      = (k + n % 1193) / 1193 := by
  have hlt := Nat.mod_lt n (show 0 < 1193 by decide)
  rw [timerInit_run, PitChannel.run_eq (p := 1193) (k := 1193 - n % 1193) rfl rfl (by omega)
    (by omega), Nat.sub_sub_self hlt.le]

/-- **The rate of the ticks.**  The scheduler starts some clocks after `timer_init`.  Then
`ticks_since_boot` is the number of clocks behind the first one by `1193`, whatever the
tasks call.  The first clock loads the count; the seconds of `FREQ_HZ` clocks begin with
the next one. -/
theorem timer_rate (t : Pit) (hk : kernelTask ≠ 0) (h0 : live 0 = false)
    (hrun : Trace TimedStep ⟨(PitChannel.run (n + 1) ((timerInit t).1.channel 0)).1,
      ⟨Scheduler.multitaskingInitialize kernelTask
        (u64 ((timerInit t).2 + (PitChannel.run (n + 1) ((timerInit t).1.channel 0)).2)) tcb live,
        []⟩⟩ es m) :
    m.watched.sched.tasks.ticksSinceBoot = u64 ((n + clocks es) / 1193) ∧
    ∀ sec, n + clocks es = freqHz.toNat * sec →
      (n + clocks es) / 1193 = freq.toNat * sec + 180 * sec / 1193 := by
  refine ⟨?_, fun sec hsec => ?_⟩
  · obtain ⟨cs, hcs, hedges⟩ := timed_run hrun
    obtain ⟨hr, h⟩ := sched_run_represents hk h0 .nil
    obtain ⟨-, h', -⟩ := watched_fifo hr h hcs
    have hirqs : (clocks es + n % 1193) / 1193 = timerIrqs cs := by
      rw [← timerInit_edges t n, hedges]
    rw [h'.now, Roster.after_nil, Roster.after_now, ← hirqs, timerInit_run]
    · simp only [Roster.start, timerInit, u64]
      omega
    · exact Nat.mod_lt _ (by decide)
  · have hfreq : freqHz.toNat = 1193180 ∧ freq.toNat = 1000 := by decide
    rw [hsec, hfreq.1, hfreq.2]
    omega

/-- The first tick, one clock after the scheduler was started. -/
theorem timer_rate_first : ∃ m,
    Trace TimedStep ⟨⟨3, 3, false, none, some 1193, some 1⟩, ⟨bootedTask, []⟩⟩
      [.call (.createKernelTask 8192 8448), .clock, .clock] m ∧
    m.watched.sched.tasks.ticksSinceBoot = 1 := by
  obtain ⟨w, hw⟩ := Option.isSome_iff_exists.mp (show (execute SchedCall.watch
    [.createKernelTask 8192 8448, .irq0Handler] ⟨bootedTask, []⟩).isSome = true by decide +kernel)
  obtain ⟨w₁, hw₁, hw⟩ := Option.bind_eq_some_iff.mp hw
  obtain ⟨w₂, hw₂, -⟩ := Option.bind_eq_some_iff.mp hw
  have hrun : Trace TimedStep ⟨⟨3, 3, false, none, some 1193, some 1⟩, ⟨bootedTask, []⟩⟩
      [.call (.createKernelTask 8192 8448), .clock, .clock]
      ⟨⟨3, 3, false, none, some 1193, some 1192⟩, w₂⟩ :=
    ((Trace.single (.call nofun (SchedCall.watch_spec _ _ _ hw₁))).snoc
      (.tick rfl (SchedCall.watch_spec _ _ _ hw₂))).snoc (.clock rfl)
  obtain ⟨t, ht⟩ : ∃ t : Pit, t = ⟨fun _ => ⟨0, 0, false, none, none, none⟩⟩ := ⟨_, rfl⟩
  have hstart : (⟨⟨3, 3, false, none, some 1193, some 1⟩, ⟨bootedTask, []⟩⟩ : TimedKernel)
      = ⟨(PitChannel.run (1192 + 1) ((timerInit t).1.channel 0)).1,
        ⟨Scheduler.multitaskingInitialize 4096
          (u64 ((timerInit t).2 + (PitChannel.run (1192 + 1) ((timerInit t).1.channel 0)).2))
          (fun _ => .zero) fun _ => false, []⟩⟩ := by
    rw [timerInit_run]
    rfl
  refine ⟨_, hrun, ?_⟩
  rw [hstart] at hrun
  exact (timer_rate t (by decide) rfl hrun).1

/-- **How long `sleep` sleeps.**  The task is on the sleeping list for `1193 * 1000`
clocks in each second, less those of the tick that has begun, whatever the others call.
Then it is ready until it gets the processor.  So it is ready before the seconds are over. -/
theorem sleep_clocks (t : Pit) (hk : kernelTask ≠ 0) (h0 : live 0 = false)
    (hrun : Trace SchedStep (Scheduler.multitaskingInitialize kernelTask ticks tcb live) pre s)
    (hready : s.tasks.firstReadyToRunTask ≠ 0) (hsleep : s.sleep seconds = some s₁)
    (hseconds : 0 < seconds) (hfit : s.tasks.ticksSinceBoot + 1000 * seconds < 4294967296)
    (hrun' : Trace TimedStep ⟨(PitChannel.run (n + 1) ((timerInit t).1.channel 0)).1, ⟨s₁, []⟩⟩
      es m) :
    let a := s.tasks.currentTaskPCB
    (if clocks es + n % 1193 < 1193 * (1000 * seconds) then
      a ∉ m.watched.ran ∧ m.watched.sched.tasks.state a = taskStateSleeping
    else a ∈ m.watched.ran ∨ m.watched.sched.tasks.state a = taskStateReadyToRun) ∧
    (freqHz.toNat * seconds ≤ clocks es →
      a ∈ m.watched.ran ∨ m.watched.sched.tasks.state a = taskStateReadyToRun) := by
  intro a
  obtain ⟨hr, h⟩ := sched_run_represents hk h0 hrun
  have hcall : SchedStep s (.microSleepUntil (u64 (s.tasks.ticksSinceBoot + u32 (seconds * 1000))))
      s₁ := ⟨hready, hsleep⟩
  obtain ⟨h₁, -⟩ := hcall.represents hr h
  obtain ⟨cs, hcs, hedges⟩ := timed_run hrun'
  have hirqs : (clocks es + n % 1193) / 1193 = timerIrqs cs := by
    rw [← timerInit_edges t n, hedges]
  -- the roster behind the call
  generalize hb : ((Roster.start kernelTask ticks).after pre).step _ = b at h₁
  have hnow : b.now = s.tasks.ticksSinceBoot := by
    rw [← hb, Roster.step_now, h.now]
    rfl
  have htarget : (a, b.now + 1000 * seconds) ∈ b.sleeping := by
    have hu : u32 (u64 (s.tasks.ticksSinceBoot + u32 (seconds * 1000)))
        = s.tasks.ticksSinceBoot + 1000 * seconds := by
      simp only [u32, u64]
      omega
    rw [hnow, ← hu, ← hb, Roster.step, Roster.dispatch_sleeping]
    exact List.mem_cons.mpr (.inl (by rw [← h.running]))
  obtain ⟨-, h', hasleep⟩ := sleeper_run (hcall.resumes hr) h₁ htarget (by omega) (by omega) hcs
  have hmain : if clocks es + n % 1193 < 1193 * (1000 * seconds) then
      a ∉ m.watched.ran ∧ m.watched.sched.tasks.state a = taskStateSleeping
      else a ∈ m.watched.ran ∨ m.watched.sched.tasks.state a = taskStateReadyToRun := by
    have hiff : timerIrqs cs < 1000 * seconds ↔
        clocks es + n % 1193 < 1193 * (1000 * seconds) := by
      rw [← hirqs, Nat.div_lt_iff_lt_mul (by decide), Nat.mul_comm]
    rw [if_congr hiff rfl rfl] at hasleep
    split at hasleep
    · rw [if_pos ‹_›]
      exact ⟨hasleep.1, h'.placed.matched.sleeping a (List.mem_map_of_mem hasleep.2)⟩
    · rw [if_neg ‹_›]
      exact hasleep.imp id (h'.placed.matched.ready a)
  refine ⟨hmain, fun hsec => ?_⟩
  rw [show freqHz.toNat = 1193180 by decide] at hsec
  rwa [if_neg (by omega)] at hmain

/-- Seven microseconds in front of a tick the initial kernel task goes to sleep. -/
theorem sleep_clocks_second : ∃ s s₁ m,
    Trace SchedStep bootedTask [.createKernelTask 8192 8448] s ∧ s.sleep 1 = some s₁ ∧
    Trace TimedStep ⟨⟨3, 3, false, none, some 1193, some 1⟩, ⟨s₁, []⟩⟩
      [.clock, .call .schedule, .clock] m ∧
    4096 ∉ m.watched.ran ∧ m.watched.sched.tasks.state 4096 = taskStateSleeping := by
  obtain ⟨s, hs, hnext⟩ := (Option.any_eq_true _ _).mp (show ((execute SchedCall.step
    [.createKernelTask 8192 8448] bootedTask).any fun s =>
      decide (s.tasks.firstReadyToRunTask ≠ 0 ∧ s.tasks.ticksSinceBoot = 0 ∧
        s.tasks.currentTaskPCB = 4096) && (s.sleep 1).any fun s₁ =>
          (execute SchedCall.watch [.irq0Handler, .schedule] ⟨s₁, []⟩).isSome) = true by
    decide +kernel)
  obtain ⟨hstart, hnext⟩ := Bool.and_eq_true_iff.mp hnext
  obtain ⟨hready, hticks, hcurrent⟩ := of_decide_eq_true hstart
  obtain ⟨s₁, hsleep, hnext⟩ := (Option.any_eq_true _ _).mp hnext
  obtain ⟨w, hw⟩ := Option.isSome_iff_exists.mp hnext
  obtain ⟨w₁, hw₁, hw⟩ := Option.bind_eq_some_iff.mp hw
  obtain ⟨w₂, hw₂, -⟩ := Option.bind_eq_some_iff.mp hw
  have hrun := Trace.of_execute (fun _ _ _ => SchedCall.step_spec) hs
  have hrun' : Trace TimedStep ⟨⟨3, 3, false, none, some 1193, some 1⟩, ⟨s₁, []⟩⟩
      [.clock, .call .schedule, .clock] ⟨⟨3, 3, false, none, some 1193, some 1192⟩, w₂⟩ :=
    ((Trace.single (.tick rfl (SchedCall.watch_spec _ _ _ hw₁))).snoc
      (.call nofun (SchedCall.watch_spec _ _ _ hw₂))).snoc (.clock rfl)
  have hchannel := timerInit_run ⟨fun _ => ⟨0, 0, false, none, none, none⟩⟩ 1192
  refine ⟨s, s₁, _, hrun, hsleep, hrun', ?_⟩
  rw [show (⟨3, 3, false, none, some 1193, some 1⟩ : PitChannel) = _ from
    (congrArg Prod.fst hchannel).symm] at hrun'
  have h := (sleep_clocks _ (by decide) rfl hrun hready hsleep (by decide)
    (by rw [hticks]; decide) hrun').1
  rwa [hcurrent] at h

end ChoOS
