import ChoOS.Lib.Trace
import ChoOS.Sched.Lists

/-!
# Every task is in one place

`Tasks.Placed` is the invariant of the scheduler when its calls are not
interrupted: the running task is on no list, every other task is on exactly one
of the three, and the state in its control block says on which one.

A task that sleeps or ends puts itself on a list first and calls `schedule`
after that.  `Tasks.Leaving` is the moment between the two, and
`Leaving.reschedule` the way back to `Placed`.

`Tasks.Blocks` is about the heap: every control block is a block that is handed
out, and a stack is never a control block, so a block that `kmalloc` returns is
not one of the tasks.
-/

namespace ChoOS

namespace Tasks

/-- The states of the tasks on the lists. -/
structure Matched (t : Tasks) (r sl d : List Nat) : Prop where
  ready : ∀ a ∈ r, t.state a = taskStateReadyToRun
  sleeping : ∀ a ∈ sl, t.state a = taskStateSleeping
  dead : ∀ a ∈ d, t.state a = taskStateDead ∨ t.state a = taskStateTerminated

/-- Every task is in one place, and its state says in which one. -/
structure Placed (t : Tasks) (r sl d : List Nat) : Prop where
  lists : t.Lists r sl d
  matched : t.Matched r sl d
  running : t.state t.currentTaskPCB = taskStateRunning
  current_ne : t.currentTaskPCB ≠ 0
  current_notMem : t.currentTaskPCB ∉ r ++ sl ++ d
  created : ∀ a, a ∈ t.created ↔ a = t.currentTaskPCB ∨ a ∈ r ++ sl ++ d

/-- The running task is on the sleeping list or dead, and about to call `schedule`. -/
structure Leaving (t : Tasks) (r sl d : List Nat) : Prop where
  lists : t.Lists r sl d
  matched : t.Matched r sl d
  current : t.currentTaskPCB ∈ sl ++ d
  created : ∀ a, a ∈ t.created ↔ a ∈ r ++ sl ++ d

/-- The control blocks and the stacks are blocks of the heap, all different. -/
structure Blocks (t : Tasks) : Prop where
  null : t.live 0 = false
  task : ∀ a ∈ t.created, t.live a = true
  stack : ∀ a ∈ t.created, (t.tcb a).stackBase = 0 ∨
    t.live (t.tcb a).stackBase = true ∧ (t.tcb a).stackBase ∉ t.created
  apart : ∀ a ∈ t.created, ∀ b ∈ t.created, (t.tcb a).stackBase = (t.tcb b).stackBase →
    a = b ∨ (t.tcb a).stackBase = 0

/-- What `kmalloc` returns for the control block and for the stack. -/
structure Fresh (t : Tasks) (newTask stackBase : Nat) : Prop where
  task_ne : newTask ≠ 0
  stack_ne : stackBase ≠ 0
  ne : newTask ≠ stackBase
  task : t.live newTask = false
  stack : t.live stackBase = false

variable {t t' : Tasks} {r sl d : List Nat} {a n x newTask stackBase : Nat} {v : Int}

/-! ### The calls on the tasks -/

theorem Fresh.notMem (hf : t.Fresh newTask stackBase) (hb : t.Blocks) : newTask ∉ t.created :=
  fun h => absurd (hb.task _ h) (by simp [hf.task])

theorem Placed.createKernelTask (h : t.Placed r sl d) (hn : newTask ∉ t.created)
    (h0 : newTask ≠ 0) :
    (t.createKernelTask newTask stackBase).Placed (r ++ [newTask]) sl d := by
  have hout : newTask ≠ t.currentTaskPCB ∧ newTask ∉ r ++ sl ++ d := by
    rw [h.created, not_or] at hn
    exact hn
  have hrel := (Relinked.refl (t.fillTask newTask stackBase)).enqueue (a := newTask)
  have hcur : (t.createKernelTask newTask stackBase).currentTaskPCB = t.currentTaskPCB :=
    hrel.currentTaskPCB
  have hstate (a : Nat) (ha : a ≠ newTask) :
      (t.createKernelTask newTask stackBase).state a = t.state a := by
    rw [state_createKernelTask, Function.update_of_ne ha]
  have hne (a : Nat) (ha : a ∈ r ++ sl ++ d) : a ≠ newTask := fun e => hout.2 (e ▸ ha)
  exact
    { lists := h.lists.createKernelTask hout.2 h0
      matched :=
        { ready := fun a ha => by
            rcases List.mem_append.mp ha with ha | ha
            · rw [hstate a (hne a (by simp [ha])), h.matched.ready a ha]
            · rw [List.mem_singleton.mp ha, state_createKernelTask, Function.update_self]
          sleeping := fun a ha => by
            rw [hstate a (hne a (by simp [ha])), h.matched.sleeping a ha]
          dead := fun a ha => by
            rw [hstate a (hne a (by simp [ha]))]
            exact h.matched.dead a ha }
      running := by rw [hcur, hstate _ hout.1.symm, h.running]
      current_ne := by rw [hcur]; exact h.current_ne
      current_notMem := by
        rw [hcur]
        have := h.current_notMem
        simp only [List.mem_append, List.mem_singleton, not_or] at this ⊢
        exact ⟨⟨⟨this.1.1, hout.1.symm⟩, this.1.2⟩, this.2⟩
      created := fun a => by
        have hc : (t.createKernelTask newTask stackBase).created = insert newTask t.created :=
          hrel.created
        rw [hc, Finset.mem_insert, h.created, hcur]
        simp only [List.mem_append, List.mem_singleton]
        tauto }

theorem Matched.congr (h : t.Matched r sl d) (hs : ∀ a ∈ r ++ sl ++ d, t'.state a = t.state a) :
    t'.Matched r sl d where
  ready a ha := (hs a (by simp [ha])).trans (h.ready a ha)
  sleeping a ha := (hs a (by simp [ha])).trans (h.sleeping a ha)
  dead a ha := by
    rw [hs a (by simp [ha])]
    exact h.dead a ha

theorem runState_readyToRun : runState taskStateReadyToRun = taskStateRunning := rfl

theorem Placed.reschedule {site : Resume} (h : t.Placed (n :: r) sl d) :
    (t.reschedule site).Placed (r ++ [t.currentTaskPCB]) sl d := by
  obtain ⟨hl, hs⟩ := h.lists.reschedule_running site h.current_notMem h.current_ne
    (.inl h.running)
  have hcur : (t.reschedule site).currentTaskPCB = n := h.lists.ready.1
  have hc := h.current_notMem
  have hn := h.lists.head_notMem
  rw [List.cons_append, List.cons_append, List.mem_cons, not_or] at hc
  have hstate (a : Nat) (ha : a ∈ r ++ sl ++ d) : (t.reschedule site).state a = t.state a := by
    have hac : a ≠ t.currentTaskPCB := fun e => hc.2 (e ▸ ha)
    have han : a ≠ n := fun e => hn (e ▸ ha)
    rw [hs, Function.update_of_ne han, Function.update_of_ne hac]
  have hm : t.Matched r sl d :=
    ⟨fun a ha => h.matched.ready a (by simp [ha]), h.matched.sleeping, h.matched.dead⟩
  have hm' := hm.congr hstate
  exact
    { lists := hl
      matched := ⟨fun a ha => by
        rcases List.mem_append.mp ha with ha | ha
        · exact hm'.ready a ha
        · rw [List.mem_singleton.mp ha, hs, Function.update_of_ne hc.1, Function.update_self],
        hm'.sleeping, hm'.dead⟩
      running := by
        rw [hcur, hs, Function.update_self, h.matched.ready n (by simp), runState_readyToRun]
      current_ne := by
        rw [hcur]
        exact h.lists.head_ne
      current_notMem := by
        rw [hcur]
        simp only [List.mem_append, List.mem_singleton, not_or] at hn ⊢
        exact ⟨⟨⟨hn.1.1, Ne.symm hc.1⟩, hn.1.2⟩, hn.2⟩
      created := fun a => by
        rw [created_reschedule, h.created, hcur]
        simp only [List.mem_append, List.mem_cons]
        tauto }

/-- **`schedule` by a task that has put itself on a list.** -/
theorem Leaving.reschedule {site : Resume} (h : t.Leaving (n :: r) sl d) :
    (t.reschedule site).Placed r sl d := by
  have hblocked : ¬ Requeued (t.state t.currentTaskPCB) := by
    rcases List.mem_append.mp h.current with hc | hc
    · rw [h.matched.sleeping _ hc]
      decide
    · rcases h.matched.dead _ hc with hd | hd <;> rw [hd] <;> decide
  obtain ⟨hl, hs⟩ := h.lists.reschedule_blocked site hblocked
  have hcur : (t.reschedule site).currentTaskPCB = n := h.lists.ready.1
  have hn := h.lists.head_notMem
  have hm : t.Matched r sl d :=
    ⟨fun a ha => h.matched.ready a (by simp [ha]), h.matched.sleeping, h.matched.dead⟩
  exact
    { lists := hl
      matched := hm.congr fun a ha => by
        have han : a ≠ n := fun e => hn (e ▸ ha)
        rw [hs, Function.update_of_ne han]
      running := by
        rw [hcur, hs, Function.update_self, h.matched.ready n (by simp), runState_readyToRun]
      current_ne := by
        rw [hcur]
        exact h.lists.head_ne
      current_notMem := by
        rw [hcur]
        exact hn
      created := fun a => by
        rw [created_reschedule, h.created, hcur]
        simp only [List.mem_append, List.mem_cons]
        tauto }

theorem Placed.leaving_sleeping (h : t.Placed r sl d)
    (hl : t'.Lists r (t.currentTaskPCB :: sl) d)
    (hs : t'.state = Function.update t.state t.currentTaskPCB taskStateSleeping)
    (hc : t'.currentTaskPCB = t.currentTaskPCB) (hcr : t'.created = t.created) :
    t'.Leaving r (t.currentTaskPCB :: sl) d := by
  have hm : t'.Matched r sl d := h.matched.congr fun a ha => by
    have hac : a ≠ t.currentTaskPCB := fun e => h.current_notMem (e ▸ ha)
    rw [hs, Function.update_of_ne hac]
  exact
    { lists := hl
      matched := ⟨hm.ready, fun a ha => by
        rcases List.mem_cons.mp ha with rfl | ha
        · rw [hs, Function.update_self]
        · exact hm.sleeping a ha, hm.dead⟩
      current := by simp [hc]
      created := fun a => by
        rw [hcr, h.created]
        simp only [List.mem_append, List.mem_cons]
        tauto }

theorem Placed.leaving_dead (h : t.Placed r sl d) (hl : t'.Lists r sl (t.currentTaskPCB :: d))
    (hs : t'.state = Function.update t.state t.currentTaskPCB v)
    (hv : v = taskStateDead ∨ v = taskStateTerminated)
    (hc : t'.currentTaskPCB = t.currentTaskPCB) (hcr : t'.created = t.created) :
    t'.Leaving r sl (t.currentTaskPCB :: d) := by
  have hm : t'.Matched r sl d := h.matched.congr fun a ha => by
    have hac : a ≠ t.currentTaskPCB := fun e => h.current_notMem (e ▸ ha)
    rw [hs, Function.update_of_ne hac]
  exact
    { lists := hl
      matched := ⟨hm.ready, hm.sleeping, fun a ha => by
        rcases List.mem_cons.mp ha with rfl | ha
        · rw [hs, Function.update_self]
          exact hv
        · exact hm.dead a ha⟩
      current := by simp [hc]
      created := fun a => by
        rw [hcr, h.created]
        simp only [List.mem_append, List.mem_cons]
        tauto }

theorem Placed.microSleepUntil {us : Nat} (h : t.Placed r sl d) :
    ((t.microSleepUntil us).blockTask taskStateSleeping).Leaving r (t.currentTaskPCB :: sl) d := by
  refine h.leaving_sleeping (h.lists.microSleepUntil h.current_notMem h.current_ne).setState ?_
    rfl rfl
  rw [Tasks.blockTask, state_setState, state_microSleepUntil]
  rfl

theorem Placed.terminateTask (h : t.Placed r sl d) :
    (t.terminateTask.blockTask taskStateTerminated).Leaving r sl (t.currentTaskPCB :: d) := by
  refine h.leaving_dead (h.lists.terminateTask h.current_notMem h.current_ne).setState ?_
    (.inr rfl) rfl rfl
  rw [Tasks.blockTask, state_setState]
  exact congrArg (Function.update · t.currentTaskPCB taskStateTerminated)
    (state_setNext (t := t) (n := t.deadTasks))

theorem Placed.markTaskForDeath (h : t.Placed r sl d) :
    t.markTaskForDeath.Leaving r sl (t.currentTaskPCB :: d) := by
  have hl : (t.setState t.currentTaskPCB taskStateDead).Lists r sl d := h.lists.setState
  refine h.leaving_dead (hl.terminateTask h.current_notMem h.current_ne) ?_ (.inl rfl) rfl rfl
  exact state_setNext.trans state_setState

theorem Placed.tick (h : t.Placed r sl d) (ht : t.tick = some t') :
    t'.Placed (r ++ sl.filter t.due) (sl.filter fun z => !t.due z) d := by
  obtain ⟨hl, hs, hc, hcr⟩ := h.lists.tick ht
  have hc' := h.current_notMem
  have hnodup := h.lists.nodup
  simp only [List.mem_append, not_or] at hc'
  -- a sleeper is neither ready nor dead
  have hout : ∀ a, a ∈ r ∨ a ∈ d → a ∉ sl := by
    simp only [List.nodup_append, List.mem_append] at hnodup
    grind
  exact
    { lists := hl
      matched :=
        { ready := fun a ha => by
            rw [hs]
            split
            · rfl
            · rcases List.mem_append.mp ha with ha | ha
              · exact h.matched.ready a ha
              · exact absurd ha ‹_›
          sleeping := fun a ha => by
            rw [hs, if_neg]
            · exact h.matched.sleeping a (List.mem_of_mem_filter ha)
            · simp only [List.mem_filter] at ha ⊢
              simpa using fun _ => ha.2
          dead := fun a ha => by
            rw [hs, if_neg fun hm => hout a (.inr ha) (List.mem_of_mem_filter hm)]
            exact h.matched.dead a ha }
      running := by
        rw [hc, hs, if_neg fun hm => hc'.1.2 (List.mem_of_mem_filter hm), h.running]
      current_ne := by
        rw [hc]
        exact h.current_ne
      current_notMem := by
        rw [hc]
        simp only [List.mem_append, List.mem_filter]
        tauto
      created := fun a => by
        rw [hcr, h.created, hc]
        simp only [List.mem_append, List.mem_filter]
        cases t.due a <;> simp }

theorem Placed.deadTasksCleanup (h : t.Placed r sl d) (ht : t.deadTasksCleanup = some t') :
    t'.Placed r sl [] := by
  obtain ⟨hl, hcr, live, created, rfl⟩ := h.lists.deadTasksCleanup ht
  have hd : ∀ a, a ∈ r ++ sl → a ∉ d := fun a ha had =>
    (List.nodup_append.mp h.lists.nodup).2.2 a ha a had rfl
  have hc := h.current_notMem
  rw [List.mem_append, not_or] at hc
  exact
    { lists := hl
      matched := ⟨h.matched.ready, h.matched.sleeping, by simp⟩
      running := h.running
      current_ne := h.current_ne
      current_notMem := by
        rw [List.append_nil]
        exact hc.1
      created := fun a => by
        rw [List.append_nil]
        refine (hcr a).trans ?_
        rw [h.created, List.mem_append (s := r ++ sl)]
        constructor
        · rintro ⟨rfl | ha | ha, hnd⟩
          · exact .inl rfl
          · exact .inr ha
          · exact absurd ha hnd
        · rintro (rfl | ha)
          · exact ⟨.inl rfl, hc.2⟩
          · exact ⟨.inr (.inl ha), hd a ha⟩ }

/-! ### The blocks of the heap -/

/-- The same tasks on the same blocks of the heap. -/
structure SameBlocks (t t' : Tasks) : Prop where
  created : t'.created = t.created
  live : t'.live = t.live
  stackBase : ∀ z, (t'.tcb z).stackBase = (t.tcb z).stackBase

theorem SameBlocks.trans {t'' : Tasks} (h : t.SameBlocks t') (h' : t'.SameBlocks t'') :
    t.SameBlocks t'' :=
  ⟨h'.created.trans h.created, h'.live.trans h.live, fun z => (h'.stackBase z).trans (h.stackBase z)⟩

theorem SameBlocks.setTcb {b : TaskControlBlock} (hb : b.stackBase = (t.tcb a).stackBase) :
    t.SameBlocks (t.setTcb a b) :=
  ⟨rfl, rfl, fun z => by
    by_cases hz : z = a
    · simp [Tasks.setTcb, hz, hb]
    · simp [Tasks.setTcb, hz]⟩

theorem SameBlocks.setState : t.SameBlocks (t.setState a v) := .setTcb rfl

theorem SameBlocks.setNext : t.SameBlocks (t.setNext a n) := .setTcb rfl

theorem Relinked.sameBlocks (h : t.Relinked t') : t.SameBlocks t' :=
  ⟨h.created, h.live, fun z => by
    obtain ⟨n, v, hz⟩ := h.tcb z
    rw [hz]⟩

theorem Relinked.requeueCurrent : t.Relinked t.requeueCurrent := by
  rw [Tasks.requeueCurrent]
  dsimp only
  split
  · have h₁ : t.Relinked ((t.setState t.currentTaskPCB taskStateReadyToRun).setNext
        t.currentTaskPCB 0) := (Relinked.refl t).setState.setNext
    split
    · exact ⟨h₁.setNext.tcb, h₁.currentTaskPCB, h₁.created, h₁.live⟩
    · exact ⟨h₁.tcb, h₁.currentTaskPCB, h₁.created, h₁.live⟩
  · exact .refl t

theorem SameBlocks.updateTimeUsed : t.SameBlocks t.updateTimeUsed :=
  ⟨rfl, rfl, fun z => by
    by_cases hz : z = t.currentTaskPCB
    · simp [Tasks.updateTimeUsed, Tasks.setTcb, hz]
    · simp [Tasks.updateTimeUsed, Tasks.setTcb, hz]⟩

theorem SameBlocks.switchTo (site : Resume) : t.SameBlocks (t.switchTo site n) := by
  have h₁ : t.SameBlocks (t.setEsp t.currentTaskPCB site) := .setTcb rfl
  have h₂ : t.SameBlocks ((t.setEsp t.currentTaskPCB site).setCurrent n) :=
    ⟨h₁.created, h₁.live, h₁.stackBase⟩
  exact h₂.trans .setState

theorem SameBlocks.prepare : t.SameBlocks t.takeFirst.updateTimeUsed.requeueCurrent := by
  have h₁ : t.SameBlocks t.takeFirst := ⟨rfl, rfl, fun _ => rfl⟩
  exact h₁.trans (SameBlocks.updateTimeUsed.trans Relinked.requeueCurrent.sameBlocks)

theorem SameBlocks.reschedule {site : Resume} : t.SameBlocks (t.reschedule site) :=
  SameBlocks.prepare.trans (.switchTo site)

theorem SameBlocks.microSleepUntil {us : Nat} : t.SameBlocks (t.microSleepUntil us) := by
  have h₁ : t.SameBlocks (t.setTarget t.currentTaskPCB (u32 us)) := .setTcb rfl
  have h₂ := h₁.trans (.setNext (a := t.currentTaskPCB) (n := t.sleepingTaskes))
  exact ⟨h₂.created, h₂.live, h₂.stackBase⟩

theorem SameBlocks.blockTask_reschedule {site : Resume} :
    t.SameBlocks ((t.blockTask v).reschedule site) := SameBlocks.setState.trans .reschedule

theorem SameBlocks.terminateTask : t.SameBlocks t.terminateTask :=
  have h : t.SameBlocks (t.setNext t.currentTaskPCB t.deadTasks) := .setNext
  ⟨h.created, h.live, h.stackBase⟩

theorem SameBlocks.markTaskForDeath : t.SameBlocks t.markTaskForDeath :=
  SameBlocks.setState.trans (.terminateTask (t := t.setState t.currentTaskPCB taskStateDead))

theorem SameBlocks.tick (ht : t.tick = some t') : t.SameBlocks t' :=
  have h := ((Relinked.refl t.addTick).wakeLoop ht).sameBlocks
  ⟨h.created, h.live, h.stackBase⟩

theorem Blocks.congr (h : t.Blocks) (hs : t.SameBlocks t') : t'.Blocks where
  null := by
    rw [hs.live]
    exact h.null
  task a ha := by
    rw [hs.live]
    exact h.task a (hs.created ▸ ha)
  stack a ha := by
    rw [hs.stackBase, hs.live, hs.created]
    exact h.stack a (hs.created ▸ ha)
  apart a ha b hb := by
    rw [hs.stackBase, hs.stackBase]
    exact h.apart a (hs.created ▸ ha) b (hs.created ▸ hb)

theorem Blocks.of_not_live (h : t.Blocks) (h0 : x ≠ 0) (hx : t.live x = false) :
    x ∉ t.created ∧ ∀ z ∈ t.created, (t.tcb z).stackBase ≠ x := by
  refine ⟨fun hm => ?_, fun z hz e => ?_⟩
  · rw [h.task x hm] at hx
    cases hx
  · rcases h.stack z hz with hs | ⟨hs, -⟩
    · exact h0 (e.symm.trans hs)
    · rw [e, hx] at hs
      cases hs

theorem Blocks.createKernelTask (h : t.Blocks) (hf : t.Fresh newTask stackBase) :
    (t.createKernelTask newTask stackBase).Blocks := by
  refine Blocks.congr ?_ (Relinked.refl _).enqueue.sameBlocks
  obtain ⟨hnt, hns⟩ := h.of_not_live hf.task_ne hf.task
  obtain ⟨hst, hss⟩ := h.of_not_live hf.stack_ne hf.stack
  have hne (z : Nat) (hz : z ∈ t.created) : z ≠ newTask := fun e => hnt (e ▸ hz)
  have hnewStack : ((t.fillTask newTask stackBase).tcb newTask).stackBase = stackBase := by
    simp [fillTask, Tasks.setTcb]
  have hstack (z : Nat) (hz : z ∈ t.created) :
      ((t.fillTask newTask stackBase).tcb z).stackBase = (t.tcb z).stackBase := by
    simp [fillTask, Tasks.setTcb, hne z hz]
  have hlive (z : Nat) (hz : t.live z = true) : (t.fillTask newTask stackBase).live z = true := by
    change Function.update (Function.update t.live newTask true) stackBase true z = true
    rw [Function.update_apply, Function.update_apply]
    split <;> [rfl; split <;> [rfl; exact hz]]
  have hliveStack : (t.fillTask newTask stackBase).live stackBase = true := Function.update_self _ _ _
  have hliveTask : (t.fillTask newTask stackBase).live newTask = true :=
    (Function.update_of_ne hf.ne _ _).trans (Function.update_self _ _ _)
  have hcr {z : Nat} : z ∈ (t.fillTask newTask stackBase).created ↔ z = newTask ∨ z ∈ t.created :=
    Finset.mem_insert
  refine ⟨?_, fun z hz => ?_, fun z hz => ?_, fun z hz y hy => ?_⟩
  · refine (Function.update_of_ne hf.stack_ne.symm _ _).trans ?_
    exact (Function.update_of_ne hf.task_ne.symm _ _).trans h.null
  · rcases hcr.mp hz with rfl | hz
    · exact hliveTask
    · exact hlive z (h.task z hz)
  · rw [hcr, not_or]
    rcases hcr.mp hz with rfl | hz
    · rw [hnewStack]
      exact .inr ⟨hliveStack, hf.ne.symm, hst⟩
    · rw [hstack z hz]
      refine (h.stack z hz).imp_right fun hs => ⟨hlive _ hs.1, hns z hz, hs.2⟩
  · rcases hcr.mp hz with hz | hz <;> rcases hcr.mp hy with hy | hy
    · exact fun _ => .inl (hz.trans hy.symm)
    · rw [hz, hnewStack, hstack y hy]
      exact fun e => absurd e.symm (hss y hy)
    · rw [hy, hnewStack, hstack z hz]
      exact fun e => absurd e (hss z hz)
    · rw [hstack z hz, hstack y hy]
      exact h.apart z hz y hy

theorem Blocks.freeTask (h : t.Blocks) (ha : a ∈ t.created) (hf : t.freeTask a = some t') :
    t'.Blocks := by
  obtain ⟨hlive, rfl⟩ := freeTask_eq hf
  have h0 : (t.tcb a).stackBase ≠ 0 := fun e => by
    rw [e, h.null] at hlive
    cases hlive
  have hstack : (t.tcb a).stackBase ∉ t.created := ((h.stack a ha).resolve_left h0).2
  -- what stays handed out is neither the control block nor the stack
  have hkeep (z : Nat) (hz : t.live z = true) (hza : z ≠ a) (hzs : z ≠ (t.tcb a).stackBase) :
      Function.update (Function.update t.live (t.tcb a).stackBase false) a false z = true := by
    rw [Function.update_of_ne hza, Function.update_of_ne hzs, hz]
  refine ⟨?_, fun z hz => ?_, fun z hz => ?_, fun z hz y hy => ?_⟩
  · change Function.update (Function.update t.live _ false) a false 0 = false
    rw [Function.update_apply, Function.update_apply]
    split <;> [rfl; split <;> [rfl; exact h.null]]
  · obtain ⟨hza, hz⟩ := Finset.mem_erase.mp hz
    exact hkeep z (h.task z hz) hza fun e => hstack (e ▸ hz)
  · obtain ⟨hza, hz⟩ := Finset.mem_erase.mp hz
    by_cases hz0 : (t.tcb z).stackBase = 0
    · exact .inl hz0
    · obtain ⟨hl, hn⟩ := (h.stack z hz).resolve_left hz0
      refine .inr ⟨hkeep _ hl (fun e => hn (e ▸ ha)) fun e => ?_, fun hm => hn (Finset.mem_of_mem_erase hm)⟩
      exact (h.apart z hz a ha e).elim hza hz0
  · exact h.apart z (Finset.mem_of_mem_erase hz) y (Finset.mem_of_mem_erase hy)

theorem Blocks.freeLoop {fuel : Nat} (h : t.Blocks) (hd : Seg t.next a d 0) (h0 : 0 ∉ d)
    (hnodup : d.Nodup) (hcr : ∀ z ∈ d, z ∈ t.created) (hf : t.freeLoop fuel a = some t') :
    t'.Blocks := by
  induction d generalizing fuel a t with
  | nil =>
    obtain rfl : a = 0 := hd
    cases fuel with
    | zero => cases hf
    | succ fuel =>
      rw [Tasks.freeLoop, if_pos rfl] at hf
      exact Option.some.inj hf ▸ h
  | cons x d ih =>
    obtain ⟨rfl, hd⟩ := hd
    simp only [List.mem_cons, not_or] at h0
    obtain ⟨hnot, hnodup⟩ := List.nodup_cons.mp hnodup
    cases fuel with
    | zero => cases hf
    | succ fuel =>
      rw [Tasks.freeLoop, if_neg (Ne.symm h0.1)] at hf
      obtain ⟨t₁, h₁, hf⟩ := Option.bind_eq_some_iff.mp hf
      have hb := h.freeTask (hcr a (by simp)) h₁
      obtain ⟨-, rfl⟩ := freeTask_eq h₁
      refine ih hb (by exact hd) h0.2 hnodup (fun z hz => ?_) hf
      exact Finset.mem_erase.mpr ⟨fun e => hnot (e ▸ hz), hcr z (by simp [hz])⟩

theorem Blocks.deadTasksCleanup (h : t.Blocks) (hl : t.Lists r sl d)
    (hcr : ∀ z ∈ d, z ∈ t.created) (ht : t.deadTasksCleanup = some t') : t'.Blocks := by
  obtain ⟨t₁, h₁, ht⟩ := Option.bind_eq_some_iff.mp ht
  obtain rfl := Option.some.inj ht
  have hb : t₁.Blocks := h.freeLoop hl.dead (fun h0 => hl.nonnull (by simp [h0]))
    (List.nodup_append.mp hl.nodup).2.1 hcr h₁
  exact hb.congr ⟨rfl, rfl, fun _ => rfl⟩

end Tasks

/-! ### Runs -/

/-- The calls of the scheduler. -/
inductive SchedCall
  | createKernelTask (newTask stackBase : Nat)
  | schedule
  | microSleepUntil (microSeconds : Nat)
  | irq0Handler
  | terminateTask
  | markTaskForDeath
  | deadTasksCleanup

/-- The call, when nothing interrupts it. -/
def SchedCall.run : SchedCall → Scheduler → Option Scheduler
  | .createKernelTask newTask stackBase => Scheduler.createKernelTask newTask stackBase
  | .schedule => Scheduler.callSchedule .afterSchedule
  | .microSleepUntil us => Scheduler.microSleepUntil us
  | .irq0Handler => Scheduler.irq0Handler
  | .terminateTask => Scheduler.terminateTask
  | .markTaskForDeath => Scheduler.markTaskForDeath
  | .deadTasksCleanup => Scheduler.deadTasksCleanup

/-- `kmalloc` gives fresh blocks, and a task sleeps or ends only while another one
is ready. -/
def SchedCall.Allowed (s : Scheduler) : SchedCall → Prop
  | .createKernelTask newTask stackBase => s.tasks.Fresh newTask stackBase
  | .microSleepUntil _ => s.tasks.firstReadyToRunTask ≠ 0
  | .terminateTask => s.tasks.firstReadyToRunTask ≠ 0
  | .markTaskForDeath => s.tasks.firstReadyToRunTask ≠ 0
  | .schedule => True
  | .irq0Handler => True
  | .deadTasksCleanup => True

/-- One call by the running task, or one timer interrupt. -/
structure SchedStep (s : Scheduler) (e : SchedCall) (s' : Scheduler) : Prop where
  allowed : e.Allowed s
  run : e.run s = some s'

instance {t : Tasks} {newTask stackBase : Nat} : Decidable (t.Fresh newTask stackBase) :=
  decidable_of_iff (newTask ≠ 0 ∧ stackBase ≠ 0 ∧ newTask ≠ stackBase ∧
      t.live newTask = false ∧ t.live stackBase = false)
    ⟨fun ⟨h1, h2, h3, h4, h5⟩ => ⟨h1, h2, h3, h4, h5⟩,
      fun ⟨h1, h2, h3, h4, h5⟩ => ⟨h1, h2, h3, h4, h5⟩⟩

instance {s : Scheduler} : (e : SchedCall) → Decidable (e.Allowed s)
  | .createKernelTask _ _ => inferInstanceAs (Decidable (s.tasks.Fresh _ _))
  | .microSleepUntil _ => inferInstanceAs (Decidable (_ ≠ _))
  | .terminateTask => inferInstanceAs (Decidable (_ ≠ _))
  | .markTaskForDeath => inferInstanceAs (Decidable (_ ≠ _))
  | .schedule => inferInstanceAs (Decidable True)
  | .irq0Handler => inferInstanceAs (Decidable True)
  | .deadTasksCleanup => inferInstanceAs (Decidable True)

/-- The call, when it is allowed. -/
def SchedCall.step (e : SchedCall) (s : Scheduler) : Option Scheduler :=
  if e.Allowed s then e.run s else none

theorem SchedCall.step_spec {e : SchedCall} {s s' : Scheduler} (h : e.step s = some s') :
    SchedStep s e s' := by
  rw [SchedCall.step] at h
  split at h
  · exact ⟨‹_›, h⟩
  · cases h

/-- The invariant between two calls. -/
structure Scheduler.Settled (s : Scheduler) : Prop where
  quiet : s.locks.Quiet
  blocks : s.tasks.Blocks
  placed : ∃ r sl d, s.tasks.Placed r sl d

namespace Scheduler

variable {s s' : Scheduler} {site : Resume} {reason : Int}

theorem blockTask_spec (hq : s.locks.Quiet) (hf : s.tasks.firstReadyToRunTask ≠ 0)
    (h : s.blockTask reason site = some s') :
    s'.locks.Quiet ∧ s'.tasks = (s.tasks.blockTask reason).reschedule site := by
  rw [blockTask, blockSection, criticalSection_onTasks hq.unpostponed, Option.bind_eq_bind,
    Option.bind_some] at h
  exact callSchedule_ready
    (s := ⟨s.tasks.blockTask reason, s.locks.afterSection, s.lostSwitch⟩) hq.afterSection hf h

theorem microSleepUntil_spec {us : Nat} (hq : s.locks.Quiet)
    (hf : s.tasks.firstReadyToRunTask ≠ 0) (h : s.microSleepUntil us = some s') :
    s'.locks.Quiet ∧ s'.tasks
      = ((s.tasks.microSleepUntil us).blockTask taskStateSleeping).reschedule .afterSchedule := by
  rw [microSleepUntil, sleepSection, criticalSection_onTasks hq.unpostponed, Option.bind_eq_bind,
    Option.bind_some] at h
  exact blockTask_spec
    (s := ⟨s.tasks.microSleepUntil us, s.locks.afterSection, s.lostSwitch⟩) hq.afterSection hf h

theorem terminateTask_spec (hq : s.locks.Quiet) (hf : s.tasks.firstReadyToRunTask ≠ 0)
    (h : s.terminateTask = some s') :
    s'.locks.Quiet ∧ s'.tasks
      = (s.tasks.terminateTask.blockTask taskStateTerminated).reschedule .ended := by
  rw [terminateTask, criticalSection_onTasks hq.unpostponed, Option.bind_eq_bind,
    Option.bind_some] at h
  exact blockTask_spec
    (s := ⟨s.tasks.terminateTask, s.locks.afterSection, s.lostSwitch⟩) hq.afterSection hf h

theorem markTaskForDeath_spec (hq : s.locks.Quiet) (hf : s.tasks.firstReadyToRunTask ≠ 0)
    (h : s.markTaskForDeath = some s') :
    s'.locks.Quiet ∧ s'.tasks = s.tasks.markTaskForDeath.reschedule .ended := by
  rw [markTaskForDeath, criticalSection_onTasks hq.unpostponed, Option.bind_eq_bind,
    Option.bind_some] at h
  exact callSchedule_ready
    (s := ⟨s.tasks.markTaskForDeath, s.locks.afterSection, s.lostSwitch⟩) hq.afterSection hf h

end Scheduler

theorem Tasks.Lists.exists_cons {t : Tasks} {r sl d : List Nat} (h : t.Lists r sl d)
    (hf : t.firstReadyToRunTask ≠ 0) : ∃ n r', r = n :: r' := by
  cases r with
  | nil => exact absurd (h.first_eq_zero_iff.mpr rfl) hf
  | cons n r' => exact ⟨n, r', rfl⟩

/-- What a call does to the tasks, outside of every section. -/
inductive SchedEffect (t : Tasks) : SchedCall → Tasks → Prop
  | createKernelTask {newTask stackBase : Nat} : t.Fresh newTask stackBase →
      SchedEffect t (.createKernelTask newTask stackBase) (t.createKernelTask newTask stackBase)
  | alone : SchedEffect t .schedule t
  | schedule : t.firstReadyToRunTask ≠ 0 → SchedEffect t .schedule (t.reschedule .afterSchedule)
  | microSleepUntil {us : Nat} : t.firstReadyToRunTask ≠ 0 → SchedEffect t (.microSleepUntil us)
      (((t.microSleepUntil us).blockTask taskStateSleeping).reschedule .afterSchedule)
  | irq0Handler {t' : Tasks} : t.tick = some t' → SchedEffect t .irq0Handler t'
  | terminateTask : t.firstReadyToRunTask ≠ 0 → SchedEffect t .terminateTask
      ((t.terminateTask.blockTask taskStateTerminated).reschedule .ended)
  | markTaskForDeath : t.firstReadyToRunTask ≠ 0 →
      SchedEffect t .markTaskForDeath (t.markTaskForDeath.reschedule .ended)
  | deadTasksCleanup {t' : Tasks} : t.deadTasksCleanup = some t' →
      SchedEffect t .deadTasksCleanup t'

/-- **A call takes its locks and gives them back**, and is its effect on the tasks. -/
theorem SchedStep.effect {s s' : Scheduler} {e : SchedCall} (hs : SchedStep s e s')
    (hq : s.locks.Quiet) : s'.locks.Quiet ∧ SchedEffect s.tasks e s'.tasks := by
  obtain ⟨ha, hs⟩ := hs
  have hun := hq.unpostponed
  cases e with
  | createKernelTask newTask stackBase =>
    rw [SchedCall.run, Scheduler.createKernelTask, Scheduler.criticalSection_onTasks hun] at hs
    obtain rfl := Option.some.inj hs
    exact ⟨hq.afterSection, .createKernelTask ha⟩
  | schedule =>
    obtain ⟨hq', h0, h1⟩ := Scheduler.callSchedule_spec hq hs
    by_cases hf : s.tasks.firstReadyToRunTask = 0
    · exact ⟨hq', h0 hf ▸ .alone⟩
    · exact ⟨hq', h1 hf ▸ .schedule hf⟩
  | microSleepUntil us =>
    obtain ⟨hq', ht⟩ := Scheduler.microSleepUntil_spec hq ha hs
    exact ⟨hq', ht ▸ .microSleepUntil ha⟩
  | irq0Handler =>
    rw [SchedCall.run, Scheduler.irq0Handler_eq hq.steady] at hs
    obtain ⟨t, ht, rfl⟩ := Option.map_eq_some_iff.mp hs
    exact ⟨hq, .irq0Handler ht⟩
  | terminateTask =>
    obtain ⟨hq', ht⟩ := Scheduler.terminateTask_spec hq ha hs
    exact ⟨hq', ht ▸ .terminateTask ha⟩
  | markTaskForDeath =>
    obtain ⟨hq', ht⟩ := Scheduler.markTaskForDeath_spec hq ha hs
    exact ⟨hq', ht ▸ .markTaskForDeath ha⟩
  | deadTasksCleanup =>
    rw [SchedCall.run, Scheduler.deadTasksCleanup,
      Scheduler.criticalSection_eq (g := s.tasks.deadTasksCleanup) hun rfl] at hs
    obtain ⟨t, ht, rfl⟩ := Option.map_eq_some_iff.mp hs
    exact ⟨hq.afterSection, .deadTasksCleanup ht⟩

theorem SchedStep.settled {s s' : Scheduler} {e : SchedCall} (hs : SchedStep s e s')
    (h : s.Settled) : s'.Settled := by
  obtain ⟨hq, hb, r, sl, d, hp⟩ := h
  obtain ⟨hq', heff⟩ := hs.effect hq
  suffices h : s'.tasks.Blocks ∧ ∃ r sl d, s'.tasks.Placed r sl d from ⟨hq', h.1, h.2⟩
  generalize s'.tasks = t' at heff ⊢
  cases heff with
  | createKernelTask hf =>
    exact ⟨hb.createKernelTask hf, _, _, _, hp.createKernelTask (hf.notMem hb) hf.task_ne⟩
  | alone => exact ⟨hb, r, sl, d, hp⟩
  | schedule hf =>
    obtain ⟨n, r', rfl⟩ := hp.lists.exists_cons hf
    exact ⟨hb.congr .reschedule, _, _, _, hp.reschedule⟩
  | microSleepUntil hf =>
    obtain ⟨n, r', rfl⟩ := hp.lists.exists_cons hf
    exact ⟨hb.congr (Tasks.SameBlocks.microSleepUntil.trans .blockTask_reschedule), _, _, _,
      hp.microSleepUntil.reschedule⟩
  | irq0Handler ht => exact ⟨hb.congr (.tick ht), _, _, _, hp.tick ht⟩
  | terminateTask hf =>
    obtain ⟨n, r', rfl⟩ := hp.lists.exists_cons hf
    exact ⟨hb.congr (Tasks.SameBlocks.terminateTask.trans .blockTask_reschedule), _, _, _,
      hp.terminateTask.reschedule⟩
  | markTaskForDeath hf =>
    obtain ⟨n, r', rfl⟩ := hp.lists.exists_cons hf
    exact ⟨hb.congr (Tasks.SameBlocks.markTaskForDeath.trans .reschedule), _, _, _,
      hp.markTaskForDeath.reschedule⟩
  | deadTasksCleanup ht =>
    have hdead : ∀ z ∈ d, z ∈ s.tasks.created := fun z hz =>
      (hp.created z).mpr (.inr (by simp [hz]))
    exact ⟨hb.deadTasksCleanup hp.lists hdead ht, _, _, _, hp.deadTasksCleanup ht⟩

section Run

variable {kernelTask ticks : Nat} {tcb : Nat → TaskControlBlock} {live : Nat → Bool}

theorem mem_created_multitaskingInitialize {a : Nat} :
    a ∈ (Scheduler.multitaskingInitialize kernelTask ticks tcb live).tasks.created ↔
      a = kernelTask := Finset.mem_singleton

theorem tcb_multitaskingInitialize :
    (Scheduler.multitaskingInitialize kernelTask ticks tcb live).tasks.tcb kernelTask
      = { TaskControlBlock.zero with next := kernelTask, state := taskStateRunning } :=
  Function.update_self _ _ _

theorem multitaskingInitialize_placed (hk : kernelTask ≠ 0) :
    (Scheduler.multitaskingInitialize kernelTask ticks tcb live).tasks.Placed [] [] [] where
  lists := ⟨rfl, rfl, rfl, rfl, List.nodup_nil, List.not_mem_nil⟩
  matched := ⟨by simp, by simp, by simp⟩
  running := congrArg TaskControlBlock.state tcb_multitaskingInitialize
  current_ne := hk
  current_notMem := List.not_mem_nil
  created a := by
    rw [mem_created_multitaskingInitialize]
    exact (or_iff_left List.not_mem_nil).symm

theorem multitaskingInitialize_blocks (hk : kernelTask ≠ 0) (h0 : live 0 = false) :
    (Scheduler.multitaskingInitialize kernelTask ticks tcb live).tasks.Blocks where
  null := (Function.update_of_ne hk.symm _ _).trans h0
  task a ha := by
    rw [mem_created_multitaskingInitialize.mp ha]
    exact Function.update_self _ _ _
  stack a ha := by
    rw [mem_created_multitaskingInitialize.mp ha, tcb_multitaskingInitialize]
    exact .inl rfl
  apart a ha b hb _ := .inl ((mem_created_multitaskingInitialize.mp ha).trans
    (mem_created_multitaskingInitialize.mp hb).symm)

theorem sched_run_settled {es : List SchedCall} {s : Scheduler} (hk : kernelTask ≠ 0)
    (h0 : live 0 = false)
    (hrun : Trace SchedStep (Scheduler.multitaskingInitialize kernelTask ticks tcb live) es s) :
    s.Settled :=
  hrun.invariant
    ⟨⟨rfl, rfl⟩, multitaskingInitialize_blocks hk h0, _, _, _, multitaskingInitialize_placed hk⟩
    fun _ _ _ h hs => hs.settled h

/-- **Every task is in one place**, in every state of every run: it is running,
or on exactly one of the three lists, and its state says which. -/
theorem tasks_placed {es : List SchedCall} {s : Scheduler} (hk : kernelTask ≠ 0)
    (h0 : live 0 = false)
    (hrun : Trace SchedStep (Scheduler.multitaskingInitialize kernelTask ticks tcb live) es s) :
    (∃ r sl d, s.tasks.Placed r sl d) ∧
      (s.tasks.firstReadyToRunTask = 0 ↔ s.tasks.lastReadyToRunTask = 0) := by
  obtain ⟨r, sl, d, hp⟩ := (sched_run_settled hk h0 hrun).placed
  refine ⟨⟨r, sl, d, hp⟩, ?_⟩
  rw [hp.lists.first_eq_zero_iff, hp.lists.last_eq_zero_iff]

/-- A kernel task at `4096`, on an empty heap. -/
def bootedTask : Scheduler :=
  Scheduler.multitaskingInitialize 4096 0 (fun _ => .zero) fun _ => false

theorem tasks_placed_booted : ∃ s,
    Trace SchedStep bootedTask
      [.createKernelTask 8192 8448, .createKernelTask 12288 12544, .schedule, .microSleepUntil 2,
        .irq0Handler, .irq0Handler, .markTaskForDeath, .schedule, .deadTasksCleanup] s ∧
    ∃ r sl d, s.tasks.Placed r sl d := by
  obtain ⟨s, hs⟩ := Option.isSome_iff_exists.mp (show
    (execute SchedCall.step [.createKernelTask 8192 8448, .createKernelTask 12288 12544, .schedule,
      .microSleepUntil 2, .irq0Handler, .irq0Handler, .markTaskForDeath, .schedule,
      .deadTasksCleanup] bootedTask).isSome = true by decide +kernel)
  have hrun := Trace.of_execute (fun _ _ _ => SchedCall.step_spec) hs
  exact ⟨s, hrun, (tasks_placed (by decide) rfl hrun).1⟩

end Run

end ChoOS
