import ChoOS.Sched.Queue

/-!
# Sleeping against the timer interrupt

`micro_sleep_until` takes the lock twice: first it puts the running task on the
sleeping list, then `block_task` sets its state, and `schedule` comes after
both.  Between these three the interrupt flag is set and a timer interrupt may
come.  `SleepPc` is how far the running task has got; the steps are the locked
sections, the calls of `schedule` and the timer interrupts.

An interrupt behind the first section is harmless even when it wakes the
running task: the task is then in the ready queue and its state is set to
sleeping afterwards, so `schedule` does not put it there again.  An interrupt
behind the second section that wakes it is not: the state is ready to run when
`schedule` looks at it, and the task is linked a second time.
`sleep_tick_cycle` is such a run, and `sleep_safe` says that there is no other
way to break the lists.
-/

namespace ChoOS

/-- Where the running task is in `micro_sleep_until`. -/
inductive SleepPc
  /-- Outside of it. -/
  | user
  /-- Behind its own section. -/
  | slept
  /-- Behind the section of `block_task`, in front of `schedule`. -/
  | blocked
  deriving DecidableEq

structure Sleeper where
  sched : Scheduler
  pc : SleepPc

inductive SleepEvent
  | createKernelTask (newTask stackBase : Nat)
  | schedule
  | scheduleLocked
  | sleepSection (microSeconds : Nat)
  | blockSection
  | blockSchedule
  | irq0Handler

namespace SleepEvent

/-- The step, from where it can be taken. -/
def run : SleepEvent → Sleeper → Option Sleeper
  | .createKernelTask newTask stackBase, ⟨s, .user⟩ =>
    (s.createKernelTask newTask stackBase).map (⟨·, .user⟩)
  | .schedule, ⟨s, .user⟩ => (s.callSchedule .afterSchedule).map (⟨·, .user⟩)
  | .scheduleLocked, ⟨s, .user⟩ => s.scheduleLocked.map (⟨·, .user⟩)
  | .sleepSection us, ⟨s, .user⟩ => (s.sleepSection us).map (⟨·, .slept⟩)
  | .blockSection, ⟨s, .slept⟩ => (s.blockSection taskStateSleeping).map (⟨·, .blocked⟩)
  | .blockSchedule, ⟨s, .blocked⟩ => (s.callSchedule .afterSchedule).map (⟨·, .user⟩)
  | .irq0Handler, ⟨s, pc⟩ => s.irq0Handler.map (⟨·, pc⟩)
  | _, _ => none

/-- `kmalloc` gives fresh blocks, a task starts to sleep only while another one is
ready, and an interrupt needs the interrupt flag. -/
def Allowed (m : Sleeper) : SleepEvent → Prop
  | .createKernelTask newTask stackBase => m.sched.tasks.Fresh newTask stackBase
  | .sleepSection _ => m.sched.tasks.firstReadyToRunTask ≠ 0
  | .irq0Handler => m.sched.locks.interruptFlag = true
  | .schedule => True
  | .scheduleLocked => True
  | .blockSection => True
  | .blockSchedule => True

instance {m : Sleeper} : (e : SleepEvent) → Decidable (e.Allowed m)
  | .createKernelTask _ _ => inferInstanceAs (Decidable (m.sched.tasks.Fresh _ _))
  | .sleepSection _ => inferInstanceAs (Decidable (_ ≠ _))
  | .irq0Handler => inferInstanceAs (Decidable (_ = _))
  | .schedule => inferInstanceAs (Decidable True)
  | .scheduleLocked => inferInstanceAs (Decidable True)
  | .blockSection => inferInstanceAs (Decidable True)
  | .blockSchedule => inferInstanceAs (Decidable True)

end SleepEvent

structure SleepStep (m : Sleeper) (e : SleepEvent) (m' : Sleeper) : Prop where
  allowed : e.Allowed m
  run : e.run m = some m'

/-- The task is on the sleeping list. -/
def Tasks.Asleep (t : Tasks) (a : Nat) : Prop :=
  a ≠ 0 ∧ ∃ l, Seg t.next t.sleepingTaskes l a ∧ 0 ∉ l

/-- The timer interrupt wakes the running task between the section of `block_task`
and `schedule`. -/
structure WakesBlocked (m : Sleeper) (e : SleepEvent) : Prop where
  event : e = .irq0Handler
  pc : m.pc = .blocked
  asleep : m.sched.tasks.Asleep m.sched.tasks.currentTaskPCB
  due : m.sched.tasks.due m.sched.tasks.currentTaskPCB = true

/-- The lists are in order: the ready queue and the sleeping list end at `NULL`,
no task is twice in the ready queue or on both, and a task that does not sleep
is in the ready queue or runs. -/
def Tasks.InOrder (t : Tasks) : Prop :=
  ∃ r sl, (Seg t.next t.firstReadyToRunTask r 0 ∧ 0 ∉ r ∧ r.Nodup) ∧
    (Seg t.next t.sleepingTaskes sl 0 ∧ 0 ∉ sl) ∧ (∀ a ∈ r, a ∉ sl) ∧
    ∀ a ∈ t.created, a ∉ sl → a ∈ r ∨ a = t.currentTaskPCB

/-! ### The invariant -/

/-- Where the running task is, and its state. -/
def SleepPc.Holds (t : Tasks) (r sl : List Nat) : SleepPc → Prop
  | .user => t.currentTaskPCB ∉ r ++ sl ∧ t.state t.currentTaskPCB = taskStateRunning
  | .slept => ∃ n r', r = n :: r' ∧ t.currentTaskPCB ∈ r' ++ sl
  | .blocked => (∃ n r', r = n :: r' ∧ t.currentTaskPCB ∈ r' ++ sl) ∧
      t.state t.currentTaskPCB = taskStateSleeping

/-- The tasks, while the running one is at `pc`. -/
structure Tasks.AtPc (t : Tasks) (pc : SleepPc) (r sl : List Nat) : Prop where
  lists : t.Lists r sl []
  current_ne : t.currentTaskPCB ≠ 0
  created : ∀ a, a ∈ t.created ↔ a = t.currentTaskPCB ∨ a ∈ r ++ sl
  states : ∀ a ∈ t.created, t.state a = taskStateReadyToRun ∨ t.state a = taskStateRunning ∨
    t.state a = taskStateSleeping
  place : pc.Holds t r sl

namespace Tasks

variable {t t' : Tasks} {pc : SleepPc} {r sl : List Nat} {n newTask stackBase us : Nat}
variable {site : Resume}

/-- **The invariant is what is wanted.** -/
theorem AtPc.inOrder (h : t.AtPc pc r sl) : t.InOrder := by
  have hnodup := h.lists.nodup
  have hnonnull := h.lists.nonnull
  rw [List.append_nil] at hnodup hnonnull
  rw [List.mem_append, not_or] at hnonnull
  obtain ⟨hr, -, hdis⟩ := List.nodup_append.mp hnodup
  refine ⟨r, sl, ⟨h.lists.ready, hnonnull.1, hr⟩, ⟨h.lists.sleeping, hnonnull.2⟩,
    fun a ha hs => hdis a ha a hs rfl, fun a ha hs => ?_⟩
  rcases (h.created a).mp ha with ha | ha
  · exact .inr ha
  · exact .inl ((List.mem_append.mp ha).resolve_right hs)

theorem runState_eq {v : Int} (h : v = taskStateReadyToRun ∨ v = taskStateRunning ∨
    v = taskStateSleeping) : runState v = taskStateRunning := by
  rcases h with rfl | rfl | rfl <;> rfl

theorem Placed.atPc (h : t.Placed r sl []) : t.AtPc .user r sl := by
  have hcr := h.created
  have hc := h.current_notMem
  rw [List.append_nil] at hc
  simp only [List.append_nil] at hcr
  refine ⟨h.lists, h.current_ne, hcr, fun a ha => ?_, hc, h.running⟩
  rcases (hcr a).mp ha with rfl | ha
  · exact .inr (.inl h.running)
  · rcases List.mem_append.mp ha with ha | ha
    · exact .inl (h.matched.ready a ha)
    · exact .inr (.inr (h.matched.sleeping a ha))

theorem AtPc.createKernelTask (h : t.AtPc .user r sl) (hn : newTask ∉ t.created)
    (h0 : newTask ≠ 0) :
    (t.createKernelTask newTask stackBase).AtPc .user (r ++ [newTask]) sl := by
  obtain ⟨hc, hrun⟩ := h.place
  obtain ⟨hne, hout⟩ : newTask ≠ t.currentTaskPCB ∧ newTask ∉ r ++ sl := by
    rw [h.created, not_or] at hn
    exact hn
  have hrel := (Relinked.refl (t.fillTask newTask stackBase)).enqueue (a := newTask)
  have hcur : (t.createKernelTask newTask stackBase).currentTaskPCB = t.currentTaskPCB :=
    hrel.currentTaskPCB
  have hcr {a : Nat} : a ∈ (t.createKernelTask newTask stackBase).created ↔
      a = newTask ∨ a ∈ t.created := by
    have he : (t.createKernelTask newTask stackBase).created = insert newTask t.created :=
      hrel.created
    rw [he, Finset.mem_insert]
  exact
    { lists := h.lists.createKernelTask (by simpa using hout) h0
      current_ne := hcur ▸ h.current_ne
      created := fun a => by
        rw [hcr, h.created, hcur]
        simp only [List.mem_append, List.mem_singleton]
        tauto
      states := fun a ha => by
        rw [state_createKernelTask, Function.update_apply]
        split
        · exact .inl rfl
        · exact h.states a ((hcr.mp ha).resolve_left ‹_›)
      place := by
        refine ⟨?_, ?_⟩
        · rw [hcur]
          simp only [List.mem_append, List.mem_singleton, not_or] at hc ⊢
          exact ⟨⟨hc.1, hne.symm⟩, hc.2⟩
        · rw [hcur, state_createKernelTask, Function.update_of_ne hne.symm, hrun] }

theorem AtPc.reschedule_user (h : t.AtPc .user (n :: r) sl) :
    (t.reschedule site).AtPc .user (r ++ [t.currentTaskPCB]) sl := by
  obtain ⟨hc, hrun⟩ := h.place
  obtain ⟨hl, hs⟩ := h.lists.reschedule_running site (by simpa using hc) h.current_ne
    (.inl hrun)
  have hcur : (t.reschedule site).currentTaskPCB = n := h.lists.ready.1
  have hn := h.lists.head_notMem
  rw [List.append_nil] at hn
  have hnstate : runState (t.state n) = taskStateRunning :=
    runState_eq (h.states n ((h.created n).mpr (.inr (by simp))))
  rw [List.cons_append, List.mem_cons, not_or] at hc
  exact
    { lists := hl
      current_ne := hcur ▸ h.lists.head_ne
      created := fun a => by
        rw [created_reschedule, h.created, hcur]
        simp only [List.mem_append, List.mem_cons]
        tauto
      states := fun a ha => by
        rw [created_reschedule] at ha
        rw [hs, hnstate, Function.update_apply, Function.update_apply]
        split
        · exact .inr (.inl rfl)
        · split
          · exact .inl rfl
          · exact h.states a ha
      place := by
        refine ⟨?_, ?_⟩
        · rw [hcur]
          simp only [List.mem_append, List.mem_singleton, not_or] at hn ⊢
          exact ⟨⟨hn.1, Ne.symm hc.1⟩, hn.2⟩
        · rw [hcur, hs, Function.update_self, hnstate] }

theorem AtPc.microSleepUntil (h : t.AtPc .user (n :: r) sl) :
    (t.microSleepUntil us).AtPc .slept (n :: r) (t.currentTaskPCB :: sl) where
  lists := h.lists.microSleepUntil (by simpa using h.place.1) h.current_ne
  current_ne := h.current_ne
  created a := by
    refine (h.created a).trans ?_
    change a = t.currentTaskPCB ∨ _ ↔ a = t.currentTaskPCB ∨ _
    simp only [List.mem_append, List.mem_cons]
    tauto
  states a ha := by
    rw [state_microSleepUntil]
    exact h.states a ha
  place := ⟨n, r, rfl, List.mem_append_right _ List.mem_cons_self⟩

/-- **The section of `block_task`.** -/
theorem AtPc.blockTask (h : t.AtPc .slept r sl) :
    (t.blockTask taskStateSleeping).AtPc .blocked r sl where
  lists := h.lists.setState
  current_ne := h.current_ne
  created := h.created
  states a ha := by
    rw [Tasks.blockTask, state_setState, Function.update_apply]
    split
    · exact .inr (.inr rfl)
    · exact h.states a ha
  place := by
    refine ⟨h.place, ?_⟩
    change (t.setState t.currentTaskPCB taskStateSleeping).state t.currentTaskPCB = _
    rw [state_setState, Function.update_self]

/-- **`schedule` at the end of `block_task`.**  The running task is on one of the
lists already, and its state keeps `schedule` from linking it again. -/
theorem AtPc.reschedule_blocked (h : t.AtPc .blocked (n :: r) sl) :
    (t.reschedule site).AtPc .user r sl := by
  obtain ⟨⟨n', r', he, hc⟩, hstate⟩ := h.place
  obtain ⟨rfl, rfl⟩ := List.cons.inj he
  have hblocked : ¬ Requeued (t.state t.currentTaskPCB) := by
    rw [hstate]
    decide
  obtain ⟨hl, hs⟩ := h.lists.reschedule_blocked site hblocked
  have hcur : (t.reschedule site).currentTaskPCB = n := h.lists.ready.1
  have hn := h.lists.head_notMem
  rw [List.append_nil] at hn
  have hnstate : runState (t.state n) = taskStateRunning :=
    runState_eq (h.states n ((h.created n).mpr (.inr (by simp))))
  exact
    { lists := hl
      current_ne := hcur ▸ h.lists.head_ne
      created := fun a => by
        rw [created_reschedule, h.created, hcur, List.cons_append, List.mem_cons]
        refine ⟨?_, .inr⟩
        rintro (rfl | ha)
        · exact .inr hc
        · exact ha
      states := fun a ha => by
        rw [created_reschedule] at ha
        rw [hs, hnstate, Function.update_apply]
        split
        · exact .inr (.inl rfl)
        · exact h.states a ha
      place := ⟨hcur ▸ hn, by rw [hcur, hs, Function.update_self, hnstate]⟩ }

/-- **The timer interrupt**, unless it wakes the running task in front of the
`schedule` of `block_task`. -/
theorem AtPc.tick (h : t.AtPc pc r sl) (ht : t.tick = some t')
    (hb : pc = .blocked → t.currentTaskPCB ∈ sl → t.due t.currentTaskPCB = false) :
    t'.AtPc pc (r ++ sl.filter t.due) (sl.filter fun z => !t.due z) := by
  obtain ⟨hl, hs, hc, hcr⟩ := h.lists.tick ht
  have hmem {a : Nat} {l : List Nat} : a ∈ l ++ sl.filter t.due ++ (sl.filter fun z => !t.due z) ↔
      a ∈ l ++ sl := by
    simp only [List.mem_append, List.mem_filter]
    cases t.due a <;> simp
  -- a task with another one in front of it keeps it
  have hplace : (∃ n r', r = n :: r' ∧ t.currentTaskPCB ∈ r' ++ sl) →
      ∃ n r', r ++ sl.filter t.due = n :: r' ∧
        t'.currentTaskPCB ∈ r' ++ sl.filter fun z => !t.due z := by
    rintro ⟨n, r', rfl, hm⟩
    exact ⟨n, r' ++ sl.filter t.due, rfl, hc ▸ hmem.mpr hm⟩
  exact
    { lists := hl
      current_ne := hc ▸ h.current_ne
      created := fun a => by rw [hcr, h.created, hc, hmem]
      states := fun a ha => by
        rw [hs]
        split
        · exact .inl rfl
        · exact h.states a (hcr ▸ ha)
      place := by
        cases pc with
        | user =>
          refine ⟨fun hm => h.place.1 (hmem.mp (hc ▸ hm)), ?_⟩
          have hsl : t.currentTaskPCB ∉ sl := fun hm => h.place.1 (by simp [hm])
          rw [hc, hs, if_neg fun hm => hsl (List.mem_of_mem_filter hm)]
          exact h.place.2
        | slept => exact hplace h.place
        | blocked =>
          refine ⟨hplace h.place.1, ?_⟩
          rw [hc, hs, if_neg]
          · exact h.place.2
          · intro hm
            obtain ⟨hm, hdue⟩ := List.mem_filter.mp hm
            rw [hb rfl hm] at hdue
            cases hdue }

theorem Lists.asleep {d : List Nat} {a : Nat} (h : t.Lists r sl d) (ha : a ∈ sl) :
    t.Asleep a := by
  have hnonnull := h.nonnull
  obtain ⟨l₁, l₂, rfl⟩ := List.append_of_mem ha
  refine ⟨fun h0 => hnonnull (by simp [h0]), l₁, (seg_append_cons.mp h.sleeping).1, fun h0 => ?_⟩
  exact hnonnull (by simp [h0])

end Tasks

/-! ### Runs -/

/-- The invariant of the interleaved runs. -/
structure Sleeper.Inv (m : Sleeper) : Prop where
  quiet : m.sched.locks.Quiet
  blocks : m.sched.tasks.Blocks
  atPc : ∃ r sl, m.sched.tasks.AtPc m.pc r sl

section Step

variable {s s' : Scheduler} {m m' : Sleeper} {e : SleepEvent} {site : Resume}

theorem Sleeper.Inv.user (h : Sleeper.Inv ⟨s, .user⟩) (hq : s'.locks.Quiet)
    (h0 : s.tasks.firstReadyToRunTask = 0 → s'.tasks = s.tasks)
    (h1 : s.tasks.firstReadyToRunTask ≠ 0 → s'.tasks = s.tasks.reschedule site) :
    Sleeper.Inv ⟨s', .user⟩ := by
  obtain ⟨-, hb, r, sl, hp⟩ := h
  by_cases hf : s.tasks.firstReadyToRunTask = 0
  · refine ⟨hq, ?_, r, sl, ?_⟩
    · exact (h0 hf).symm ▸ hb
    · exact (h0 hf).symm ▸ hp
  · obtain ⟨n, r', rfl⟩ := hp.lists.exists_cons hf
    refine ⟨hq, ?_, r' ++ [s.tasks.currentTaskPCB], sl, ?_⟩
    · exact (h1 hf).symm ▸ hb.congr .reschedule
    · exact (h1 hf).symm ▸ hp.reschedule_user

/-- **A step keeps the invariant**, unless it wakes the running task in front of
the `schedule` of `block_task`. -/
theorem SleepStep.inv (hs : SleepStep m e m') (hw : ¬ WakesBlocked m e) (h : m.Inv) : m'.Inv := by
  obtain ⟨s, pc⟩ := m
  obtain ⟨ha, hs⟩ := hs
  have hq : s.locks.Quiet := h.quiet
  have hun := hq.unpostponed
  cases e with
  | irq0Handler =>
    obtain ⟨s', hrun, rfl⟩ := Option.map_eq_some_iff.mp hs
    obtain ⟨-, hb, r, sl, hp⟩ := h
    rw [Scheduler.irq0Handler_eq hq.steady] at hrun
    obtain ⟨t, ht, rfl⟩ := Option.map_eq_some_iff.mp hrun
    refine ⟨hq, hb.congr (.tick ht), _, _, hp.tick ht fun hpc hm => ?_⟩
    exact Bool.eq_false_iff.mpr fun hdue => hw ⟨rfl, hpc, hp.lists.asleep hm, hdue⟩
  | createKernelTask newTask stackBase =>
    cases pc <;> try cases hs
    obtain ⟨s', hrun, rfl⟩ := Option.map_eq_some_iff.mp hs
    obtain ⟨-, hb, r, sl, hp⟩ := h
    rw [Scheduler.createKernelTask, Scheduler.criticalSection_onTasks hun] at hrun
    obtain rfl := Option.some.inj hrun
    exact ⟨hq.afterSection, hb.createKernelTask ha, _, _,
      hp.createKernelTask (ha.notMem hb) ha.task_ne⟩
  | schedule =>
    cases pc <;> try cases hs
    obtain ⟨s', hrun, rfl⟩ := Option.map_eq_some_iff.mp hs
    obtain ⟨hq', h0, h1⟩ := Scheduler.callSchedule_spec hq hrun
    exact h.user hq' h0 h1
  | scheduleLocked =>
    cases pc <;> try cases hs
    obtain ⟨s', hrun, rfl⟩ := Option.map_eq_some_iff.mp hs
    obtain ⟨hq', h0, h1⟩ := Scheduler.scheduleLocked_spec hq hrun
    exact h.user hq' h0 h1
  | sleepSection us =>
    cases pc <;> try cases hs
    obtain ⟨s', hrun, rfl⟩ := Option.map_eq_some_iff.mp hs
    obtain ⟨-, hb, r, sl, hp⟩ := h
    obtain ⟨n, r', rfl⟩ := hp.lists.exists_cons ha
    rw [Scheduler.sleepSection, Scheduler.criticalSection_onTasks hun] at hrun
    obtain rfl := Option.some.inj hrun
    exact ⟨hq.afterSection, hb.congr .microSleepUntil, _, _, hp.microSleepUntil⟩
  | blockSection =>
    cases pc <;> try cases hs
    obtain ⟨s', hrun, rfl⟩ := Option.map_eq_some_iff.mp hs
    obtain ⟨-, hb, r, sl, hp⟩ := h
    rw [Scheduler.blockSection, Scheduler.criticalSection_onTasks hun] at hrun
    obtain rfl := Option.some.inj hrun
    exact ⟨hq.afterSection, hb.congr .setState, r, sl, hp.blockTask⟩
  | blockSchedule =>
    cases pc <;> try cases hs
    obtain ⟨s', hrun, rfl⟩ := Option.map_eq_some_iff.mp hs
    obtain ⟨-, hb, r, sl, hp⟩ := h
    obtain ⟨n, r', rfl, -⟩ := hp.place.1
    have hf : s.tasks.firstReadyToRunTask ≠ 0 := fun h0 => by
      simpa using hp.lists.first_eq_zero_iff.mp h0
    obtain ⟨hq', ht⟩ := Scheduler.callSchedule_ready hq hf hrun
    refine ⟨hq', ?_, r', sl, ?_⟩
    · exact ht.symm ▸ hb.congr .reschedule
    · exact ht.symm ▸ hp.reschedule_blocked

end Step

section Run

variable {kernelTask ticks : Nat} {tcb : Nat → TaskControlBlock} {live : Nat → Bool}

/-- The kernel task, after `multitasking_initialize`. -/
def Sleeper.start (s : Scheduler) : Sleeper := ⟨s, .user⟩

/-- The step, when it is allowed. -/
def SleepEvent.step (e : SleepEvent) (m : Sleeper) : Option Sleeper :=
  if e.Allowed m then e.run m else none

theorem SleepEvent.step_spec {e : SleepEvent} {m m' : Sleeper} (h : e.step m = some m') :
    SleepStep m e m' := by
  rw [SleepEvent.step] at h
  split at h
  · exact ⟨‹_›, h⟩
  · cases h

/-- The step, when it is allowed and the running task is not woken in front of the
`schedule` of `block_task`. -/
def SleepEvent.stepUnwoken (e : SleepEvent) (m : Sleeper) : Option Sleeper :=
  if m.pc = .blocked ∧ m.sched.tasks.due m.sched.tasks.currentTaskPCB = true then none
  else e.step m

theorem SleepEvent.stepUnwoken_spec {e : SleepEvent} {m m' : Sleeper}
    (h : e.stepUnwoken m = some m') : SleepStep m e m' ∧ ¬ WakesBlocked m e := by
  rw [SleepEvent.stepUnwoken] at h
  split at h
  · cases h
  · rename_i hn
    exact ⟨SleepEvent.step_spec h, fun hw => hn ⟨hw.pc, hw.due⟩⟩

/-- **Sleeping is safe** in every run in which no timer interrupt wakes the running
task between the section of `block_task` and its `schedule`. -/
theorem sleep_safe {es : List SleepEvent} {m : Sleeper} (hk : kernelTask ≠ 0)
    (h0 : live 0 = false)
    (hrun : Trace (fun m e m' => SleepStep m e m' ∧ ¬ WakesBlocked m e)
      (Sleeper.start (Scheduler.multitaskingInitialize kernelTask ticks tcb live)) es m) :
    m.sched.tasks.InOrder := by
  have hinv : m.Inv := hrun.invariant
    ⟨⟨rfl, rfl⟩, multitaskingInitialize_blocks hk h0, [], [],
      (multitaskingInitialize_placed hk).atPc⟩
    fun _ _ _ h hs => hs.1.inv hs.2 h
  obtain ⟨r, sl, hp⟩ := hinv.atPc
  exact hp.inOrder

theorem sleep_safe_booted : ∃ m,
    Trace (fun m e m' => SleepStep m e m' ∧ ¬ WakesBlocked m e) (Sleeper.start bootedTask)
      [.createKernelTask 8192 8448, .sleepSection 3, .irq0Handler, .blockSection, .blockSchedule,
        .irq0Handler, .irq0Handler, .schedule, .sleepSection 9, .blockSection, .irq0Handler,
        .blockSchedule] m ∧
    m.sched.tasks.InOrder := by
  obtain ⟨m, hm⟩ := Option.isSome_iff_exists.mp (show
    (execute SleepEvent.stepUnwoken [.createKernelTask 8192 8448, .sleepSection 3, .irq0Handler,
      .blockSection, .blockSchedule, .irq0Handler, .irq0Handler, .schedule, .sleepSection 9,
      .blockSection, .irq0Handler, .blockSchedule] (Sleeper.start bootedTask)).isSome = true
    by decide +kernel)
  have hrun := Trace.of_execute (fun _ _ _ => SleepEvent.stepUnwoken_spec) hm
  exact ⟨m, hrun, sleep_safe (by decide) rfl hrun⟩

/-- The kernel task at `4096` goes to sleep until tick `1` while one other task is
ready, and the tick comes in front of the `schedule` of `block_task`.  The
ready queue is then the kernel task, linked to itself. -/
theorem sleep_tick_cycle : ¬ ∀ es m, Trace SleepStep (Sleeper.start bootedTask) es m →
    m.sched.tasks.InOrder := by
  intro hall
  have hexec : (execute SleepEvent.step [.createKernelTask 8192 8448, .sleepSection 1,
      .blockSection, .irq0Handler, .blockSchedule] (Sleeper.start bootedTask)).map (fun m =>
        (m.sched.tasks.firstReadyToRunTask, m.sched.tasks.next 4096)) = some (4096, 4096) := by
    decide +kernel
  obtain ⟨m, hm, he⟩ := Option.map_eq_some_iff.mp hexec
  obtain ⟨hfirst, hnext⟩ := Prod.mk.inj he
  obtain ⟨r, sl, ⟨hseg, -, -⟩, -⟩ :=
    hall _ m (Trace.of_execute (fun _ _ _ => SleepEvent.step_spec) hm)
  -- following the queue never leaves the kernel task
  have hloop : m.sched.tasks.next^[r.length] 4096 = 4096 := Function.iterate_fixed hnext _
  have hend := hseg.iterate
  rw [hfirst, hloop] at hend
  cases hend

end Run

end ChoOS
