import ChoOS.Lib.Fifo
import ChoOS.Sched.Cleanup
import ChoOS.Sched.RoundRobin

/-!
# The scheduler without pointers

`Roster` is what the scheduler is for: who runs, who waits for the processor and in
which order, who sleeps and until when.  `Roster.step` is what a call does to it.

`task_roster` says that the control blocks and their pointers come to this: after any
run the lists are those of the roster, which the calls alone determine, and the next
call returns, with one exception.  `dead_tasks_cleanup` does not come back from the
initial kernel task, which has no stack to free.

`dispatch_order` is about the ready queue.  Whatever is called, the tasks get the
processor in the order in which they came to the queue.
-/

namespace ChoOS

/-- Who runs, who is ready, who sleeps until when, and who is dead. -/
structure Roster where
  running : Nat
  ready : List Nat
  sleeping : List (Nat × Nat)
  dead : List Nat
  now : Nat

namespace Roster

/-- The first task of the queue runs. -/
def dispatch (b : Roster) : Roster :=
  match b.ready with
  | [] => b
  | n :: r => { b with running := n, ready := r }

/-- The sleepers whose time has come with the next tick. -/
def due (b : Roster) : List Nat :=
  (b.sleeping.filter fun z => z.2 ≤ u64 (b.now + 1)).map Prod.fst

/-- What a call does. -/
def step (b : Roster) : SchedCall → Roster
  | .createKernelTask newTask _ => { b with ready := b.ready ++ [newTask] }
  | .schedule =>
    match b.ready with
    | [] => b
    | n :: r => { b with running := n, ready := r ++ [b.running] }
  | .microSleepUntil us => { b with sleeping := (b.running, u32 us) :: b.sleeping }.dispatch
  | .irq0Handler =>
    { b with
      ready := b.ready ++ b.due
      sleeping := b.sleeping.filter fun z => !decide (z.2 ≤ u64 (b.now + 1))
      now := u64 (b.now + 1) }
  | .terminateTask => { b with dead := b.running :: b.dead }.dispatch
  | .markTaskForDeath => { b with dead := b.running :: b.dead }.dispatch
  | .deadTasksCleanup => { b with dead := [] }

/-- The roster at the start. -/
def start (kernelTask ticks : Nat) : Roster where
  running := kernelTask
  ready := []
  sleeping := []
  dead := []
  now := ticks

/-- The roster after some calls. -/
def after (b : Roster) (es : List SchedCall) : Roster := es.foldl step b

@[simp] theorem after_nil (b : Roster) : b.after [] = b := rfl

@[simp] theorem after_concat (b : Roster) (es : List SchedCall) (e : SchedCall) :
    b.after (es ++ [e]) = (b.after es).step e := by
  simp [after]

def sleepers (b : Roster) : List Nat := b.sleeping.map Prod.fst

end Roster

/-! ### The tasks and their roster -/

/-- The initial kernel task is the only one without a stack of its own. -/
structure KernelStack (kernelTask : Nat) (t : Tasks) : Prop where
  kernel : kernelTask ∈ t.created
  stack : ∀ a ∈ t.created, (t.tcb a).stackBase = 0 ↔ a = kernelTask

/-- The lists of the scheduler are those of the roster. -/
structure Represents (kernelTask : Nat) (t : Tasks) (b : Roster) : Prop where
  placed : t.Placed b.ready b.sleepers b.dead
  running : t.currentTaskPCB = b.running
  deadlines : ∀ z ∈ b.sleeping, (t.tcb z.1).targetWakeupTime = z.2
  now : t.ticksSinceBoot = b.now
  stack : KernelStack kernelTask t

section Step

variable {s s' : Scheduler} {t t' : Tasks} {b : Roster} {e : SchedCall} {kernelTask : Nat}
  {r sl d r' sl' d' : List Nat} {n : Nat}

theorem Tasks.Lists.unique (h : t.Lists r sl d) (h' : t.Lists r' sl' d') :
    r = r' ∧ sl = sl' ∧ d = d' := by
  have hn := h.nonnull
  have hn' := h'.nonnull
  simp only [List.mem_append, not_or] at hn hn'
  exact ⟨h.ready.unique h'.ready hn.1.1 hn'.1.1, h.sleeping.unique h'.sleeping hn.1.2 hn'.1.2,
    h.dead.unique h'.dead hn.2 hn'.2⟩

theorem KernelStack.congr (h : KernelStack kernelTask t) (hs : t.SameBlocks t') :
    KernelStack kernelTask t' := by
  refine ⟨hs.created ▸ h.kernel, fun a ha => ?_⟩
  rw [hs.stackBase]
  exact h.stack a (hs.created ▸ ha)

theorem KernelStack.createKernelTask {newTask stackBase : Nat} (h : KernelStack kernelTask t)
    (hf : t.Fresh newTask stackBase) (hn : newTask ∉ t.created) :
    KernelStack kernelTask (t.createKernelTask newTask stackBase) := by
  have hrel := (Tasks.Relinked.refl (t.fillTask newTask stackBase)).enqueue (a := newTask)
  have hkernel : kernelTask ∈ (t.fillTask newTask stackBase).created :=
    Finset.mem_insert_of_mem h.kernel
  have hfill : KernelStack kernelTask (t.fillTask newTask stackBase) := by
    refine ⟨hkernel, fun a ha => ?_⟩
    by_cases hne : a = newTask
    · have hk : a ≠ kernelTask := by
        rintro rfl
        exact hn (hne ▸ h.kernel)
      simp [Tasks.fillTask, Tasks.setTcb, hne, hf.stack_ne, hne ▸ hk]
    · have ha : a ∈ t.created := (Finset.mem_insert.mp ha).resolve_left hne
      simpa [Tasks.fillTask, Tasks.setTcb, hne] using h.stack a ha
  exact hfill.congr hrel.sameBlocks

theorem freeLoop_stack {fuel a : Nat} (h : Seg t.next a d 0) (h0 : 0 ∉ d)
    (hnull : t.live 0 = false) (hf : t.freeLoop fuel a = some t') :
    ∀ z ∈ d, (t.tcb z).stackBase ≠ 0 := by
  induction d generalizing fuel a t with
  | nil => exact fun z hz => absurd hz List.not_mem_nil
  | cons x d ih =>
    obtain ⟨rfl, h⟩ := h
    simp only [List.mem_cons, not_or] at h0
    cases fuel with
    | zero => cases hf
    | succ fuel =>
      rw [Tasks.freeLoop, if_neg (Ne.symm h0.1)] at hf
      obtain ⟨t₁, h₁, hf⟩ := Option.bind_eq_some_iff.mp hf
      obtain ⟨hlive, rfl⟩ := Tasks.freeTask_eq h₁
      have hstack : (t.tcb a).stackBase ≠ 0 := by
        intro hs
        rw [hs, hnull] at hlive
        cases hlive
      have hnull' : Function.update (Function.update t.live (t.tcb a).stackBase false) a false 0
          = false := by
        rw [Function.update_of_ne h0.1, Function.update_of_ne (Ne.symm hstack), hnull]
      intro z hz
      rcases List.mem_cons.mp hz with rfl | hz
      · exact hstack
      · exact ih (by exact h) h0.2 hnull' hf z hz

/-- `dead_tasks_cleanup` does not come back from the initial kernel task. -/
theorem KernelStack.deadTasksCleanup (h : KernelStack kernelTask t) (hb : t.Blocks)
    (hl : t.Lists r sl d) (ht : t.deadTasksCleanup = some t') :
    kernelTask ∉ d ∧ KernelStack kernelTask t' := by
  obtain ⟨-, hcreated, live, created, rfl⟩ := hl.deadTasksCleanup ht
  obtain ⟨t₁, hloop, -⟩ := Option.bind_eq_some_iff.mp ht
  have hk : kernelTask ∉ d := by
    intro hd
    refine freeLoop_stack hl.dead (fun h0 => hl.nonnull (by simp [h0])) hb.null hloop _ hd ?_
    exact (h.stack _ h.kernel).mpr rfl
  exact ⟨hk, (hcreated _).mpr ⟨h.kernel, hk⟩, fun a ha => h.stack a ((hcreated a).mp ha).1⟩

/-- `dead_tasks_cleanup` needs a stack of every dead task. -/
def SchedCall.Frees (kernelTask : Nat) (b : Roster) : SchedCall → Prop
  | .deadTasksCleanup => kernelTask ∉ b.dead
  | _ => True

/-- The running task has put itself on the sleeping list or among the dead, and the first
task of the queue runs. -/
theorem dispatch_eq (h : b.ready = n :: r) : b.dispatch = { b with running := n, ready := r } := by
  rw [Roster.dispatch, h]

theorem Represents.due_eq (h : Represents kernelTask t b) :
    b.sleepers.filter t.due = b.due ∧ b.sleepers.filter (fun z => !t.due z)
      = (b.sleeping.filter fun z => !decide (z.2 ≤ u64 (b.now + 1))).map Prod.fst := by
  have hdue : ∀ z ∈ b.sleeping, t.due z.1 = decide (z.2 ≤ u64 (b.now + 1)) := by
    intro z hz
    rw [Tasks.due, h.deadlines z hz, h.now]
  rw [Roster.sleepers, List.filter_map, List.filter_map, Roster.due]
  refine ⟨congrArg _ (List.filter_congr fun z hz => ?_), congrArg _ (List.filter_congr fun z hz => ?_)⟩
  · exact hdue z hz
  · exact congrArg not (hdue z hz)

theorem Represents.ready_eq (h : Represents kernelTask t b) (hf : t.firstReadyToRunTask ≠ 0) :
    ∃ r, b.ready = t.firstReadyToRunTask :: r := by
  obtain ⟨n, r, hr⟩ := h.placed.lists.exists_cons hf
  have hlists := h.placed.lists.ready
  rw [hr] at hlists
  exact ⟨r, by rw [hr, hlists.1]⟩

theorem Represents.createKernelTask {newTask stackBase : Nat} (h : Represents kernelTask t b)
    (hb : t.Blocks) (hf : t.Fresh newTask stackBase) : Represents kernelTask
      (t.createKernelTask newTask stackBase) (b.step (.createKernelTask newTask stackBase)) := by
  have hn := hf.notMem hb
  have hsame : (t.fillTask newTask stackBase).SameTimes (t.createKernelTask newTask stackBase) :=
    .enqueue
  have hrel := (Tasks.Relinked.refl (t.fillTask newTask stackBase)).enqueue (a := newTask)
  refine ⟨h.placed.createKernelTask hn hf.task_ne, hrel.currentTaskPCB.trans h.running,
    fun z hz => ?_, hsame.ticks.trans h.now, h.stack.createKernelTask hf hn⟩
  have hne : z.1 ≠ newTask := by
    rintro he
    refine hn ((h.placed.created _).mpr (.inr ?_))
    have hmem : newTask ∈ b.sleepers := he ▸ List.mem_map_of_mem hz
    simp [hmem]
  rw [hsame.target]
  simpa [Tasks.fillTask, Tasks.setTcb, hne] using h.deadlines z hz

theorem Represents.reschedule {site : Resume} (h : Represents kernelTask t b)
    (hf : t.firstReadyToRunTask ≠ 0) :
    Represents kernelTask (t.reschedule site) (b.step .schedule) := by
  obtain ⟨r, hr⟩ := h.ready_eq hf
  have hsame : t.SameTimes (t.reschedule site) := .reschedule
  have hp := h.placed
  rw [hr] at hp
  have hstep : b.step .schedule
      = { b with running := t.firstReadyToRunTask, ready := r ++ [b.running] } := by
    rw [Roster.step, hr]
  rw [hstep]
  exact ⟨h.running ▸ hp.reschedule, rfl, fun z hz => (hsame.target _).trans (h.deadlines z hz),
    hsame.ticks.trans h.now, h.stack.congr .reschedule⟩

theorem Represents.tick (h : Represents kernelTask t b) (ht : t.tick = some t') :
    Represents kernelTask t' (b.step .irq0Handler) := by
  have hsame := Tasks.SameTimes.wakeLoop ht
  have hp := h.placed.tick ht
  rw [h.due_eq.1, h.due_eq.2] at hp
  refine ⟨hp, ?_, fun z hz => ?_, ?_, h.stack.congr (.tick ht)⟩
  · obtain ⟨-, -, hc, -⟩ := h.placed.lists.tick ht
    exact hc.trans h.running
  · exact (hsame.target _).trans (h.deadlines z (List.mem_of_mem_filter hz))
  · rw [hsame.ticks]
    exact congrArg (fun n => u64 (n + 1)) h.now

theorem Represents.deadTasksCleanup (h : Represents kernelTask t b) (hb : t.Blocks)
    (ht : t.deadTasksCleanup = some t') :
    kernelTask ∉ b.dead ∧ Represents kernelTask t' (b.step .deadTasksCleanup) := by
  obtain ⟨hk, hstack⟩ := h.stack.deadTasksCleanup hb h.placed.lists ht
  have hp := h.placed.deadTasksCleanup ht
  obtain ⟨-, -, live, created, rfl⟩ := h.placed.lists.deadTasksCleanup ht
  exact ⟨hk, hp, h.running, h.deadlines, h.now, hstack⟩

theorem Represents.leave {site : Resume} {b' : Roster} (h : Represents kernelTask t b)
    (hf : t.firstReadyToRunTask ≠ 0) (hready : b'.ready = b.ready) (hsame : t.SameBlocks t')
    (hfirst : t'.firstReadyToRunTask = t.firstReadyToRunTask)
    (hl : t'.Leaving b.ready b'.sleepers b'.dead)
    (hd : ∀ z ∈ b'.sleeping, (t'.tcb z.1).targetWakeupTime = z.2) (hn : t'.ticksSinceBoot = b'.now) :
    Represents kernelTask (t'.reschedule site) b'.dispatch := by
  obtain ⟨r, hr⟩ := h.ready_eq hf
  have htimes : t'.SameTimes (t'.reschedule site) := .reschedule
  rw [hr] at hl
  rw [dispatch_eq (hready.trans hr)]
  exact ⟨hl.reschedule, hfirst, fun z hz => (htimes.target _).trans (hd z hz), htimes.ticks.trans hn,
    h.stack.congr (hsame.trans .reschedule)⟩

theorem target_microSleepUntil (us a : Nat) : ((t.microSleepUntil us).tcb a).targetWakeupTime
    = if a = t.currentTaskPCB then u32 us else (t.tcb a).targetWakeupTime := by
  rw [Tasks.microSleepUntil]
  by_cases ha : a = t.currentTaskPCB
  · simp [Tasks.setTarget, Tasks.setNext, Tasks.setSleeping, Tasks.setTcb, ha]
  · simp [Tasks.setTarget, Tasks.setNext, Tasks.setSleeping, Tasks.setTcb, ha]

theorem sameTimes_terminateTask : t.SameTimes t.terminateTask := by
  have h : t.SameTimes (t.setNext t.currentTaskPCB t.deadTasks) := .setNext
  exact ⟨h.target, rfl⟩

/-- **A call does to the tasks what it does to the roster.** -/
theorem SchedStep.represents (hs : SchedStep s e s') (hr : s.Resumes)
    (h : Represents kernelTask s.tasks b) :
    Represents kernelTask s'.tasks (b.step e) ∧ e.Frees kernelTask b := by
  obtain ⟨hq, hb, -⟩ := hr
  have hp := h.placed
  obtain ⟨-, heff⟩ := hs.effect hq
  generalize ht : s'.tasks = t' at heff ⊢
  cases heff with
  | createKernelTask hf => exact ⟨h.createKernelTask hb hf, trivial⟩
  | alone =>
    obtain ⟨-, -, h1⟩ := Scheduler.callSchedule_spec hq hs.run
    by_cases hf : s.tasks.firstReadyToRunTask = 0
    · have hnil := hp.lists.first_eq_zero_iff.mp hf
      have hstep : b.step .schedule = b := by rw [Roster.step, hnil]
      exact ⟨hstep.symm ▸ h, trivial⟩
    · have hre : Represents kernelTask (s.tasks.reschedule .afterSchedule) (b.step .schedule) :=
        h.reschedule hf
      rw [← h1 hf, ht] at hre
      exact ⟨hre, trivial⟩
  | schedule hf => exact ⟨h.reschedule hf, trivial⟩
  | @microSleepUntil us hf =>
    refine ⟨h.leave hf rfl (Tasks.SameBlocks.microSleepUntil.trans .setState) rfl
      (h.running ▸ hp.microSleepUntil) (fun z hz => ?_) h.now, trivial⟩
    have hsame : (s.tasks.microSleepUntil us).SameTimes
        ((s.tasks.microSleepUntil us).blockTask taskStateSleeping) := .setState
    rw [hsame.target, target_microSleepUntil, h.running]
    rcases List.mem_cons.mp hz with rfl | hz
    · exact if_pos rfl
    · have hmem : z.1 ∈ b.sleepers := List.mem_map_of_mem hz
      have hne : z.1 ≠ b.running := by
        intro he
        have hout := hp.current_notMem
        rw [h.running, ← he] at hout
        exact hout (by simp [hmem])
      rw [if_neg hne]
      exact h.deadlines z hz
  | irq0Handler ht => exact ⟨h.tick ht, trivial⟩
  | terminateTask hf =>
    refine ⟨h.leave hf rfl (Tasks.SameBlocks.terminateTask.trans .setState) rfl
      (h.running ▸ hp.terminateTask) (fun z hz => ?_) h.now, trivial⟩
    have hsame : s.tasks.SameTimes (s.tasks.terminateTask.blockTask taskStateTerminated) :=
      sameTimes_terminateTask.trans .setState
    exact (hsame.target _).trans (h.deadlines z hz)
  | markTaskForDeath hf =>
    refine ⟨h.leave hf rfl Tasks.SameBlocks.markTaskForDeath rfl
      (h.running ▸ hp.markTaskForDeath) (fun z hz => ?_) h.now, trivial⟩
    have hstate : s.tasks.SameTimes (s.tasks.setState s.tasks.currentTaskPCB taskStateDead) :=
      .setState
    have hsame : s.tasks.SameTimes s.tasks.markTaskForDeath := hstate.trans sameTimes_terminateTask
    exact (hsame.target _).trans (h.deadlines z hz)
  | deadTasksCleanup ht => exact (h.deadTasksCleanup hb ht).symm

/-! ### The calls return -/

theorem Represents.resumable (h : Represents kernelTask s.tasks b) (hr : s.Resumes) :
    s.tasks.Resumable b.ready b.sleepers := by
  obtain ⟨-, -, r, sl, d, hp, hres⟩ := hr
  obtain ⟨rfl, rfl, rfl⟩ := hp.lists.unique h.placed.lists
  exact hres

theorem callSchedule_switches {site : Resume} (hq : s.locks.Quiet)
    (hf : s.tasks.firstReadyToRunTask ≠ 0)
    (hne : s.tasks.firstReadyToRunTask ≠ s.tasks.currentTaskPCB)
    (hr : (s.tasks.tcb s.tasks.firstReadyToRunTask).esp.Returns) :
    ∃ s', Scheduler.callSchedule site s = some s' := by
  rw [Scheduler.callSchedule, Scheduler.schedule, if_neg (by simp [hq.counter]), if_neg hf]
  dsimp only
  rw [Scheduler.switchAndResume, Scheduler.switchToTask,
    if_neg (by simp [Scheduler.onTasks, hq.counter])]
  refine Scheduler.resume_returns ?_
  change ((s.tasks.reschedule site).tcb s.tasks.firstReadyToRunTask).esp.Returns
  rwa [Tasks.esp_reschedule, if_neg hne]

theorem Represents.switches {site : Resume} {l : Locks} {lost : Bool}
    (h : Represents kernelTask s.tasks b) (hr : s.Resumes)
    (hf : s.tasks.firstReadyToRunTask ≠ 0) (hs : s.tasks.SameStacks t)
    (hfirst : t.firstReadyToRunTask = s.tasks.firstReadyToRunTask) (hq : l.Quiet) :
    ∃ s', Scheduler.callSchedule site ⟨t, l, lost⟩ = some s' := by
  obtain ⟨r, hready⟩ := h.ready_eq hf
  have hmem : s.tasks.firstReadyToRunTask ∈ b.ready := hready ▸ List.mem_cons_self
  refine callSchedule_switches (s := ⟨t, l, lost⟩) hq (hfirst.symm ▸ hf) ?_ ?_
  · change t.firstReadyToRunTask ≠ t.currentTaskPCB
    rw [hfirst, hs.currentTaskPCB]
    intro he
    exact h.placed.current_notMem (he ▸ by simp [hmem])
  · change (t.tcb t.firstReadyToRunTask).esp.Returns
    rw [hfirst, hs.esp]
    exact h.resumable hr _ (List.mem_append_left _ hmem)

theorem blockTask_eq {site : Resume} {reason : Int} (hq : s.locks.Quiet) : s.blockTask reason site
    = Scheduler.callSchedule site ⟨s.tasks.blockTask reason, s.locks.afterSection, s.lostSwitch⟩ := by
  rw [Scheduler.blockTask, Scheduler.blockSection,
    Scheduler.criticalSection_onTasks hq.unpostponed]
  rfl

theorem tick_isSome (hl : t.Lists r sl d) (hfuel : sl.length < walkFuel) :
    ∃ t', t.tick = some t' := by
  have h : t.addTick.Lists r ([] ++ sl) d := hl.congr (fun _ _ => rfl) rfl rfl rfl rfl
  obtain ⟨t', ht⟩ := h.wakeLoop_isSome (u64 (t.ticksSinceBoot + 1)) walkFuel sl [] r t.addTick hfuel
  rw [← hl.sleeping.start_eq] at ht
  exact ⟨t', ht⟩

/-- **A call that is allowed returns.** -/
theorem SchedCall.returns (h : Represents kernelTask s.tasks b) (hr : s.Resumes)
    (h32 : ∀ a ∈ s.tasks.created, a < 4294967296) (ha : e.Allowed s) (hfrees : e.Frees kernelTask b) :
    ∃ s', e.run s = some s' := by
  obtain ⟨hq, hb, -⟩ := id hr
  have hun := hq.unpostponed
  have hlists := h.placed.lists
  have hfuel : ∀ l : List Nat, l.Nodup → (∀ z ∈ l, z ∈ b.ready ++ b.sleepers ++ b.dead) →
      l.length < walkFuel := fun l hn hl =>
    length_lt_walkFuel l hn (fun h0 => hlists.nonnull (hl 0 h0)) fun z hz =>
      h32 z ((h.placed.created z).mpr (.inr (hl z hz)))
  cases e with
  | createKernelTask newTask stackBase =>
    rw [SchedCall.run, Scheduler.createKernelTask, Scheduler.criticalSection_onTasks hun]
    exact ⟨_, rfl⟩
  | schedule =>
    refine Scheduler.callSchedule_returns trivial fun hf => ?_
    obtain ⟨r, hready⟩ := h.ready_eq hf
    exact h.resumable hr _ (List.mem_append_left _ (hready ▸ List.mem_cons_self))
  | microSleepUntil us =>
    rw [SchedCall.run, Scheduler.microSleepUntil, Scheduler.sleepSection,
      Scheduler.criticalSection_onTasks hun, Option.bind_eq_bind, Option.bind_some,
      blockTask_eq (s := ⟨s.tasks.microSleepUntil us, s.locks.afterSection, s.lostSwitch⟩)
        hq.afterSection]
    exact h.switches hr ha (Tasks.SameStacks.microSleepUntil.trans (.setTcb rfl)) rfl
      hq.afterSection.afterSection
  | irq0Handler =>
    have hnodup := (List.nodup_append.mp (List.nodup_append.mp hlists.nodup).1).2.1
    obtain ⟨t, ht⟩ := tick_isSome hlists (hfuel _ hnodup fun z hz => by simp [hz])
    rw [SchedCall.run, Scheduler.irq0Handler_eq hq.steady, ht]
    exact ⟨_, rfl⟩
  | terminateTask =>
    rw [SchedCall.run, Scheduler.terminateTask, Scheduler.criticalSection_onTasks hun,
      Option.bind_eq_bind, Option.bind_some,
      blockTask_eq (s := ⟨s.tasks.terminateTask, s.locks.afterSection, s.lostSwitch⟩)
        hq.afterSection]
    exact h.switches hr ha (Tasks.SameStacks.terminateTask.trans (.setTcb rfl)) rfl
      hq.afterSection.afterSection
  | markTaskForDeath =>
    rw [SchedCall.run, Scheduler.markTaskForDeath, Scheduler.criticalSection_onTasks hun,
      Option.bind_eq_bind, Option.bind_some]
    have hstate : s.tasks.SameStacks (s.tasks.setState s.tasks.currentTaskPCB taskStateDead) :=
      .setTcb rfl
    exact h.switches hr ha (hstate.trans .terminateTask) rfl hq.afterSection
  | deadTasksCleanup =>
    have hd : ∀ a ∈ b.dead, a ∈ s.tasks.created := fun a ha =>
      (h.placed.created a).mpr (.inr (List.mem_append_right _ ha))
    have hs : ∀ a ∈ b.dead, (s.tasks.tcb a).stackBase ≠ 0 := by
      intro a ha h0
      exact hfrees ((h.stack.stack a (hd a ha)).mp h0 ▸ ha)
    have hnodup := (List.nodup_append.mp hlists.nodup).2.1
    obtain ⟨t, hloop, -⟩ := Tasks.exists_freeLoop b.dead walkFuel _ _ hlists.dead
      (fun h0 => hlists.nonnull (List.mem_append_right _ h0))
      (hfuel _ hnodup fun z hz => List.mem_append_right _ hz)
      (hb.taskBlocks_nodup hd hnodup hs) (hb.taskBlocks_live hd hs)
    have ht : s.tasks.deadTasksCleanup = some (t.setDead 0) := by
      rw [Tasks.deadTasksCleanup, hloop]
      rfl
    rw [SchedCall.run, Scheduler.deadTasksCleanup,
      Scheduler.criticalSection_eq (g := s.tasks.deadTasksCleanup) hun rfl, ht]
    exact ⟨_, rfl⟩

end Step

/-! ### Runs -/

section Run

variable {kernelTask ticks : Nat} {tcb : Nat → TaskControlBlock} {live : Nat → Bool}
  {es es' : List SchedCall} {s s₁ : Scheduler}

theorem multitaskingInitialize_represents (hk : kernelTask ≠ 0) :
    Represents kernelTask (Scheduler.multitaskingInitialize kernelTask ticks tcb live).tasks
      (Roster.start kernelTask ticks) := by
  refine ⟨multitaskingInitialize_placed hk, rfl, fun z hz => absurd hz List.not_mem_nil, rfl,
    mem_created_multitaskingInitialize.mpr rfl, fun a ha => ?_⟩
  obtain rfl := mem_created_multitaskingInitialize.mp ha
  rw [tcb_multitaskingInitialize]
  exact ⟨fun _ => rfl, fun _ => rfl⟩

theorem sched_run_represents (hk : kernelTask ≠ 0) (h0 : live 0 = false)
    (hrun : Trace SchedStep (Scheduler.multitaskingInitialize kernelTask ticks tcb live) es s) :
    s.Resumes ∧ Represents kernelTask s.tasks ((Roster.start kernelTask ticks).after es) := by
  refine hrun.history (I := fun es s => s.Resumes ∧
    Represents kernelTask s.tasks ((Roster.start kernelTask ticks).after es)) ?_ ?_
  · exact ⟨⟨⟨rfl, rfl⟩, multitaskingInitialize_blocks hk h0, [], [], [],
      multitaskingInitialize_placed hk, fun _ ha => absurd ha List.not_mem_nil⟩,
      multitaskingInitialize_represents hk⟩
  · intro es s e s' ⟨hr, h⟩ hs
    rw [Roster.after_concat]
    exact ⟨hs.resumes hr, (hs.represents hr h).1⟩

/-- **The scheduler is its roster.**  After any run the pointers lead to the lists that the
calls make of the empty roster, the sleepers with their times; and a call that is allowed
returns, but for a clean-up with the initial kernel task among the dead. -/
theorem task_roster (hk : kernelTask ≠ 0) (h0 : live 0 = false)
    (hrun : Trace SchedStep (Scheduler.multitaskingInitialize kernelTask ticks tcb live) es s) :
    Represents kernelTask s.tasks ((Roster.start kernelTask ticks).after es) ∧
    ((∀ a ∈ s.tasks.created, a < 4294967296) → ∀ e : SchedCall, e.Allowed s →
      ((∃ s', e.run s = some s') ↔
        e.Frees kernelTask ((Roster.start kernelTask ticks).after es))) := by
  obtain ⟨hr, h⟩ := sched_run_represents hk h0 hrun
  refine ⟨h, fun h32 e ha => ⟨fun ⟨s', hrun⟩ => ?_, SchedCall.returns h hr h32 ha⟩⟩
  exact (SchedStep.represents ⟨ha, hrun⟩ hr h).2

theorem task_roster_booted : ∃ s,
    Trace SchedStep bootedTask
      [.createKernelTask 8192 8448, .createKernelTask 12288 12544, .microSleepUntil 2,
        .irq0Handler, .schedule, .markTaskForDeath] s ∧
    Represents 4096 s.tasks ⟨8192, [], [(4096, 2)], [12288], 1⟩ := by
  obtain ⟨s, hs⟩ := Option.isSome_iff_exists.mp (show
    (execute SchedCall.step [.createKernelTask 8192 8448, .createKernelTask 12288 12544,
      .microSleepUntil 2, .irq0Handler, .schedule, .markTaskForDeath] bootedTask).isSome = true by
    decide +kernel)
  have hrun := Trace.of_execute (fun _ _ _ => SchedCall.step_spec) hs
  exact ⟨s, hrun, (task_roster (by decide) rfl hrun).1⟩

/-! ### Who runs next -/

theorem Roster.step_fifo (b : Roster) (e : SchedCall) :
    ∃ p, FifoStep b.ready p (b.step e).ready ∧
      (p.served = [] ∧ (b.step e).running = b.running ∨
        p.served = [(b.step e).running] ∧ (b.step e).running ∈ b.ready) := by
  have hdispatch : ∀ b' : Roster, b'.ready = b.ready → b'.running = b.running →
      ∃ p, FifoStep b.ready p b'.dispatch.ready ∧
        (p.served = [] ∧ b'.dispatch.running = b.running ∨
          p.served = [b'.dispatch.running] ∧ b'.dispatch.running ∈ b.ready) := by
    intro b' hready hrunning
    rw [Roster.dispatch, hready]
    cases hr : b.ready with
    | nil => exact ⟨⟨[], []⟩, by simp [FifoStep, hready, hr], .inl ⟨rfl, hrunning⟩⟩
    | cons n r => exact ⟨⟨[], [n]⟩, by simp [FifoStep], .inr ⟨rfl, List.mem_cons_self⟩⟩
  cases e with
  | createKernelTask newTask stackBase => exact ⟨⟨[newTask], []⟩, rfl, .inl ⟨rfl, rfl⟩⟩
  | schedule =>
    rw [Roster.step]
    cases hr : b.ready with
    | nil => exact ⟨⟨[], []⟩, by simp [FifoStep, hr], .inl ⟨rfl, rfl⟩⟩
    | cons n r => exact ⟨⟨[b.running], [n]⟩, by simp [FifoStep], .inr ⟨rfl, List.mem_cons_self⟩⟩
  | microSleepUntil us => exact hdispatch _ rfl rfl
  | irq0Handler => exact ⟨⟨b.due, []⟩, rfl, .inl ⟨rfl, rfl⟩⟩
  | terminateTask => exact hdispatch _ rfl rfl
  | markTaskForDeath => exact hdispatch _ rfl rfl
  | deadTasksCleanup => exact ⟨⟨[], []⟩, by simp [FifoStep, Roster.step], .inl ⟨rfl, rfl⟩⟩

/-- The scheduler, and who got the processor since. -/
structure Watched where
  sched : Scheduler
  ran : List Nat

/-- One call, and who got the processor by it. -/
structure WatchedStep (w : Watched) (e : SchedCall) (w' : Watched) : Prop where
  step : SchedStep w.sched e w'.sched
  ran : w'.ran = if w'.sched.tasks.currentTaskPCB = w.sched.tasks.currentTaskPCB then w.ran
    else w.ran ++ [w'.sched.tasks.currentTaskPCB]

/-- The call, when it is allowed. -/
def SchedCall.watch (e : SchedCall) (w : Watched) : Option Watched :=
  (e.step w.sched).map fun s' => ⟨s', if s'.tasks.currentTaskPCB = w.sched.tasks.currentTaskPCB
    then w.ran else w.ran ++ [s'.tasks.currentTaskPCB]⟩

theorem SchedCall.watch_spec (e : SchedCall) (w w' : Watched) (h : e.watch w = some w') :
    WatchedStep w e w' := by
  obtain ⟨s', hs, rfl⟩ := Option.map_eq_some_iff.mp h
  exact ⟨SchedCall.step_spec hs, rfl⟩

/-- The ready queue, from its first task to `NULL`. -/
def Tasks.ReadyQueue (t : Tasks) (q : List Nat) : Prop := Seg t.next t.firstReadyToRunTask q 0

variable {b : Roster} {w : Watched}

theorem WatchedStep.fifo {w' : Watched} {e : SchedCall}
    (h : Represents kernelTask w.sched.tasks b) (hr : w.sched.Resumes) (hs : WatchedStep w e w') :
    ∃ p, FifoStep b.ready p (b.step e).ready ∧ w'.ran = w.ran ++ p.served ∧
      ∀ z ∈ p.served, z ∈ b.ready := by
  obtain ⟨h', -⟩ := hs.step.represents hr h
  obtain ⟨p, hp, hserved⟩ := b.step_fifo e
  refine ⟨p, hp, ?_⟩
  rw [hs.ran, h'.running, h.running]
  rcases hserved with ⟨hnil, hsame⟩ | ⟨hone, hmem⟩
  · rw [if_pos hsame, hnil, List.append_nil]
    exact ⟨rfl, fun z hz => absurd hz List.not_mem_nil⟩
  · have hout := h.placed.current_notMem
    have hne : (b.step e).running ≠ b.running := by
      intro he
      rw [h.running, ← he] at hout
      exact hout (by simp [hmem])
    rw [if_neg hne, hone]
    exact ⟨rfl, fun z hz => List.mem_singleton.mp hz ▸ hmem⟩

/-- **Who runs was first in the queue.** -/
theorem watched_fifo (hr : s.Resumes) (h : Represents kernelTask s.tasks b)
    (hrun : Trace WatchedStep ⟨s, []⟩ es w) :
    w.sched.Resumes ∧ Represents kernelTask w.sched.tasks (b.after es) ∧
      ∃ ps, Trace FifoStep b.ready ps (b.after es).ready ∧ w.ran = allServed ps := by
  refine hrun.history (I := fun es w => w.sched.Resumes ∧
    Represents kernelTask w.sched.tasks (b.after es) ∧
      ∃ ps, Trace FifoStep b.ready ps (b.after es).ready ∧ w.ran = allServed ps)
    ⟨hr, h, [], .nil, rfl⟩ ?_
  rintro es w e w' ⟨hr, h, ps, hps, hran⟩ hs
  obtain ⟨p, hp, hran', -⟩ := hs.fifo h hr
  rw [Roster.after_concat]
  refine ⟨hs.step.resumes hr, (hs.step.represents hr h).1, ps ++ [p], .snoc hps hp, ?_⟩
  rw [hran', allServed_concat, hran]

/-- **The processor is given away in the order of the queue**, whatever is called.  The
task at place `i` of the queue is the one that gets it after `i` others; as long as it has
not, it is in the queue, with as many fewer in front of it as did. -/
theorem dispatch_order (hk : kernelTask ≠ 0) (h0 : live 0 = false)
    (hrun : Trace SchedStep (Scheduler.multitaskingInitialize kernelTask ticks tcb live) es s)
    (hrun' : Trace WatchedStep ⟨s, []⟩ es' w) :
    ∃ q q', s.tasks.ReadyQueue q ∧ w.sched.tasks.ReadyQueue q' ∧
      ∀ (i a : Nat), q[i]? = some a →
        w.ran[i]? = some a ∨ w.ran.length ≤ i ∧ q'[i - w.ran.length]? = some a := by
  obtain ⟨hr, h⟩ := sched_run_represents hk h0 hrun
  obtain ⟨-, h', ps, hps, hran⟩ := watched_fifo hr h hrun'
  refine ⟨_, _, h.placed.lists.ready, h'.placed.lists.ready, fun i a ha => ?_⟩
  rw [hran]
  exact hps.served ha

theorem dispatch_order_booted : ∃ s w,
    Trace SchedStep bootedTask [.createKernelTask 8192 8448, .createKernelTask 12288 12544] s ∧
    Trace WatchedStep ⟨s, []⟩ [.schedule, .irq0Handler, .microSleepUntil 5] w ∧
    ∃ q q', s.tasks.ReadyQueue q ∧ w.sched.tasks.ReadyQueue q' ∧
      ∀ (i a : Nat), q[i]? = some a →
        w.ran[i]? = some a ∨ w.ran.length ≤ i ∧ q'[i - w.ran.length]? = some a := by
  obtain ⟨s, hs, hnext⟩ := (Option.any_eq_true _ _).mp (show ((execute SchedCall.step
    [.createKernelTask 8192 8448, .createKernelTask 12288 12544] bootedTask).any fun s =>
      (execute SchedCall.watch [.schedule, .irq0Handler, .microSleepUntil 5] ⟨s, []⟩).isSome) = true
    by decide +kernel)
  obtain ⟨w, hw⟩ := Option.isSome_iff_exists.mp hnext
  have hrun := Trace.of_execute (fun _ _ _ => SchedCall.step_spec) hs
  have hrun' := Trace.of_execute SchedCall.watch_spec hw
  exact ⟨s, w, hrun, hrun', dispatch_order (by decide) rfl hrun hrun'⟩

theorem Represents.ready_length (h : Represents kernelTask s.tasks b) :
    b.ready.length + 1 ≤ s.tasks.created.card := by
  have hout := h.placed.current_notMem
  rw [List.append_assoc, List.mem_append, not_or] at hout
  have hnodup : (s.tasks.currentTaskPCB :: b.ready).Nodup :=
    List.nodup_cons.mpr ⟨hout.1, (List.nodup_append.mp (List.nodup_append.mp
      h.placed.lists.nodup).1).1⟩
  rw [← List.length_cons (a := s.tasks.currentTaskPCB), ← List.toFinset_card_of_nodup hnodup]
  refine Finset.card_le_card fun z hz => ?_
  rw [List.mem_toFinset, List.mem_cons] at hz
  rw [h.placed.created]
  simp only [List.mem_append]
  tauto

theorem Represents.mem_sleepers {a : Nat} (h : Represents kernelTask s.tasks b)
    (ha : a ∈ s.tasks.created) (hs : s.tasks.state a = taskStateSleeping) : a ∈ b.sleepers := by
  have hp := h.placed
  rcases (hp.created a).mp ha with rfl | hmem
  · rw [hp.running] at hs
    exact absurd hs (by decide)
  · simp only [List.mem_append] at hmem
    rcases hmem with (hready | hsleeping) | hdead
    · rw [hp.matched.ready a hready] at hs
      exact absurd hs (by decide)
    · exact hsleeping
    · rcases hp.matched.dead a hdead with h' | h' <;> rw [h'] at hs <;> exact absurd hs (by decide)

/-- **A sleeper whose time has come** at a timer interrupt gets the processor before it was
given away as many times as there are tasks then. -/
theorem sleeper_dispatched {a : Nat} (hk : kernelTask ≠ 0) (h0 : live 0 = false)
    (hrun : Trace SchedStep (Scheduler.multitaskingInitialize kernelTask ticks tcb live) es s)
    (ha : a ∈ s.tasks.created) (hsleeps : s.tasks.state a = taskStateSleeping)
    (hdue : (s.tasks.tcb a).targetWakeupTime ≤ u64 (s.tasks.ticksSinceBoot + 1))
    (hirq : SchedStep s .irq0Handler s₁) (hrun' : Trace WatchedStep ⟨s₁, []⟩ es' w)
    (hmany : s₁.tasks.created.card ≤ w.ran.length + 1) : a ∈ w.ran := by
  obtain ⟨hr, h⟩ := sched_run_represents hk h0 hrun
  obtain ⟨h₁, -⟩ := hirq.represents hr h
  obtain ⟨-, -, ps, hps, hran⟩ := watched_fifo (hirq.resumes hr) h₁ hrun'
  have hready : a ∈ ((Roster.start kernelTask ticks).after es).due := by
    rw [← h.due_eq.1]
    exact List.mem_filter.mpr ⟨h.mem_sleepers ha hsleeps, decide_eq_true hdue⟩
  obtain ⟨i, hi, hget⟩ := List.mem_iff_getElem.mp
    (show a ∈ (((Roster.start kernelTask ticks).after es).step .irq0Handler).ready from
      List.mem_append_right _ hready)
  have hlength := h₁.ready_length
  rcases hps.served (List.getElem?_eq_some_iff.mpr ⟨hi, hget⟩) with hserved | ⟨hle, -⟩
  · rw [hran]
    exact List.mem_of_getElem? hserved
  · rw [← hran] at hle
    omega

/-- The initial kernel task sleeps, and runs again behind the only other task. -/
theorem sleeper_dispatched_pair : ∃ s s₁ w,
    Trace SchedStep bootedTask [.createKernelTask 8192 8448, .microSleepUntil 1] s ∧
    SchedStep s .irq0Handler s₁ ∧ Trace WatchedStep ⟨s₁, []⟩ [.schedule] w ∧ 4096 ∈ w.ran := by
  obtain ⟨s, hs, hnext⟩ := (Option.any_eq_true _ _).mp (show ((execute SchedCall.step
    [.createKernelTask 8192 8448, .microSleepUntil 1] bootedTask).any fun s =>
      decide (4096 ∈ s.tasks.created ∧ s.tasks.state 4096 = taskStateSleeping ∧
        (s.tasks.tcb 4096).targetWakeupTime ≤ u64 (s.tasks.ticksSinceBoot + 1)) &&
      (SchedCall.irq0Handler.step s).any fun s₁ => (SchedCall.schedule.watch ⟨s₁, []⟩).any fun w =>
        decide (s₁.tasks.created.card ≤ w.ran.length + 1)) = true by decide +kernel)
  obtain ⟨hsleeper, hnext⟩ := Bool.and_eq_true_iff.mp hnext
  obtain ⟨ha, hsleeps, hdue⟩ := of_decide_eq_true hsleeper
  obtain ⟨s₁, hs₁, hnext⟩ := (Option.any_eq_true _ _).mp hnext
  obtain ⟨w, hw, hmany⟩ := (Option.any_eq_true _ _).mp hnext
  have hrun := Trace.of_execute (fun _ _ _ => SchedCall.step_spec) hs
  have hirq := SchedCall.step_spec hs₁
  have hrun' : Trace WatchedStep ⟨s₁, []⟩ [.schedule] w := .single (SchedCall.watch_spec _ _ _ hw)
  exact ⟨s, s₁, w, hrun, hirq, hrun', sleeper_dispatched (by decide) rfl hrun ha hsleeps hdue hirq
    hrun' (of_decide_eq_true hmany)⟩

end Run

end ChoOS
