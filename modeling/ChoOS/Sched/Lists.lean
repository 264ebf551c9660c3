import ChoOS.Sched.Sections

/-!
# The three task lists

The ready queue, the sleeping list and the list of dead tasks are linked by the
one `next` field of the control blocks.  `Tasks.Lists` says which tasks are on
them: each list is a segment that ends at `NULL`, no task is on two of them or
twice on one, and `last_ready_to_run_task` is the end of the ready queue.  The
`next` of a task that is on no list says nothing.

There is one lemma for each operation on the lists; `Lists.wakeLoop` follows the
loop of the timer interrupt, which moves the sleepers that are due to the end of
the ready queue.
-/

namespace ChoOS

namespace Tasks

/-- The tasks on the three lists, in order. -/
structure Lists (t : Tasks) (r sl d : List Nat) : Prop where
  ready : Seg t.next t.firstReadyToRunTask r 0
  sleeping : Seg t.next t.sleepingTaskes sl 0
  dead : Seg t.next t.deadTasks d 0
  last : t.lastReadyToRunTask = r.getLastD 0
  nodup : (r ++ sl ++ d).Nodup
  nonnull : 0 ∉ r ++ sl ++ d

variable {t t' : Tasks} {r sl d : List Nat} {a n x : Nat} {v : Int} {b : TaskControlBlock}

/-! ### What the setters change -/

theorem next_setTcb : (t.setTcb a b).next = Function.update t.next a b.next := by
  funext z
  by_cases h : z = a <;> simp [next, setTcb, h]

theorem state_setTcb : (t.setTcb a b).state = Function.update t.state a b.state := by
  funext z
  by_cases h : z = a <;> simp [state, setTcb, h]

@[simp] theorem next_setNext : (t.setNext a n).next = Function.update t.next a n := next_setTcb

@[simp] theorem state_setNext : (t.setNext a n).state = t.state :=
  state_setTcb.trans (Function.update_eq_self a t.state)

@[simp] theorem next_setState : (t.setState a v).next = t.next :=
  next_setTcb.trans (Function.update_eq_self a t.next)

@[simp] theorem state_setState : (t.setState a v).state = Function.update t.state a v :=
  state_setTcb

@[simp] theorem next_setEsp {e : Resume} : (t.setEsp a e).next = t.next :=
  next_setTcb.trans (Function.update_eq_self a t.next)

@[simp] theorem state_setEsp {e : Resume} : (t.setEsp a e).state = t.state :=
  state_setTcb.trans (Function.update_eq_self a t.state)

@[simp] theorem state_enqueue : (t.enqueue a).state = t.state := by
  rw [enqueue]
  split
  · rfl
  · exact state_setNext

/-- The tasks are the same up to the lists and the states: the operations on the
lists change `next` and `state` in the control blocks, and the list pointers. -/
structure Relinked (t t' : Tasks) : Prop where
  tcb : ∀ z, ∃ n v, t'.tcb z = { t.tcb z with next := n, state := v }
  currentTaskPCB : t'.currentTaskPCB = t.currentTaskPCB
  created : t'.created = t.created
  live : t'.live = t.live

theorem Relinked.refl (t : Tasks) : t.Relinked t := ⟨fun _ => ⟨_, _, rfl⟩, rfl, rfl, rfl⟩

theorem Relinked.trans {t'' : Tasks} (h : t.Relinked t') (h' : t'.Relinked t'') :
    t.Relinked t'' where
  tcb z := by
    obtain ⟨n, v, hz⟩ := h.tcb z
    obtain ⟨n', v', hz'⟩ := h'.tcb z
    exact ⟨n', v', by rw [hz', hz]⟩
  currentTaskPCB := h'.currentTaskPCB.trans h.currentTaskPCB
  created := h'.created.trans h.created
  live := h'.live.trans h.live

theorem Relinked.esp (h : t.Relinked t') (z : Nat) : (t'.tcb z).esp = (t.tcb z).esp := by
  obtain ⟨n, v, hz⟩ := h.tcb z
  rw [hz]

theorem Relinked.targetWakeupTime (h : t.Relinked t') (z : Nat) :
    (t'.tcb z).targetWakeupTime = (t.tcb z).targetWakeupTime := by
  obtain ⟨n, v, hz⟩ := h.tcb z
  rw [hz]

theorem Relinked.setTcb (h : t.Relinked t') : t.Relinked
    (t'.setTcb a { t'.tcb a with next := n, state := v }) :=
  h.trans ⟨fun z => by
    by_cases hz : z = a
    · exact ⟨n, v, by simp [Tasks.setTcb, hz]⟩
    · exact ⟨(t'.tcb z).next, (t'.tcb z).state, by simp [Tasks.setTcb, hz]⟩, rfl, rfl, rfl⟩

theorem Relinked.setNext (h : t.Relinked t') : t.Relinked (t'.setNext a n) := h.setTcb

theorem Relinked.setState (h : t.Relinked t') : t.Relinked (t'.setState a v) := h.setTcb

theorem Relinked.enqueue (h : t.Relinked t') : t.Relinked (t'.enqueue a) := by
  rw [Tasks.enqueue]
  split
  · exact ⟨h.tcb, h.currentTaskPCB, h.created, h.live⟩
  · have h' : t.Relinked (t'.setNext t'.lastReadyToRunTask a) := h.setNext
    exact ⟨h'.tcb, h'.currentTaskPCB, h'.created, h'.live⟩

theorem Relinked.unblockTask (h : t.Relinked t') : t.Relinked (t'.unblockTask a) :=
  h.setState.setNext.enqueue

theorem Relinked.unlinkSleeping {p : Nat} (h : t.Relinked t') :
    t.Relinked (t'.unlinkSleeping p a) := by
  rw [Tasks.unlinkSleeping]
  split
  · exact ⟨h.tcb, h.currentTaskPCB, h.created, h.live⟩
  · exact h.setNext

theorem Relinked.wakeLoop {ticks fuel p : Nat} {t'' : Tasks} (h : t.Relinked t')
    (hw : t'.wakeLoop ticks fuel p a = some t'') : t.Relinked t'' := by
  induction fuel generalizing p a t' with
  | zero => exact absurd hw (by simp [Tasks.wakeLoop])
  | succ fuel ih =>
    rw [Tasks.wakeLoop] at hw
    split at hw
    · exact Option.some.inj hw ▸ h
    · split at hw
      · exact ih h.unlinkSleeping.unblockTask hw
      · exact ih h hw

/-! ### The ready queue -/

theorem Lists.first_eq_zero_iff (h : t.Lists r sl d) : t.firstReadyToRunTask = 0 ↔ r = [] :=
  h.ready.eq_nil_iff fun h0 => h.nonnull (by simp [h0])

theorem Lists.last_eq_zero_iff (h : t.Lists r sl d) : t.lastReadyToRunTask = 0 ↔ r = [] := by
  rw [h.last]
  rcases List.eq_nil_or_concat r with rfl | ⟨r', y, rfl⟩
  · simp
  · have hy : y ≠ 0 := fun h0 => h.nonnull (by simp [h0])
    simp [hy]

theorem Lists.head_ne (h : t.Lists (n :: r) sl d) : n ≠ 0 := fun h0 => h.nonnull (by simp [h0])

theorem Lists.head_notMem (h : t.Lists (n :: r) sl d) : n ∉ r ++ sl ++ d :=
  (List.nodup_cons.mp h.nodup).1

theorem Lists.congr (h : t.Lists r sl d) (hn : ∀ z ∈ r ++ sl ++ d, t'.next z = t.next z)
    (hf : t'.firstReadyToRunTask = t.firstReadyToRunTask)
    (hl : t'.lastReadyToRunTask = t.lastReadyToRunTask)
    (hs : t'.sleepingTaskes = t.sleepingTaskes) (hd : t'.deadTasks = t.deadTasks) :
    t'.Lists r sl d where
  ready := by
    rw [hf]
    exact h.ready.congr fun z hz => hn z (by simp [hz])
  sleeping := by
    rw [hs]
    exact h.sleeping.congr fun z hz => hn z (by simp [hz])
  dead := by
    rw [hd]
    exact h.dead.congr fun z hz => hn z (by simp [hz])
  last := hl.trans h.last
  nodup := h.nodup
  nonnull := h.nonnull

theorem Lists.setTcb (h : t.Lists r sl d) (ha : a ∉ r ++ sl ++ d) : (t.setTcb a b).Lists r sl d :=
  h.congr (fun z hz => by
    have hne : z ≠ a := fun e => ha (e ▸ hz)
    rw [next_setTcb, Function.update_of_ne hne]) rfl rfl rfl rfl

theorem Lists.setState (h : t.Lists r sl d) : (t.setState a v).Lists r sl d :=
  h.congr (fun z _ => by rw [next_setState]) rfl rfl rfl rfl

theorem nodup_middle_append {l₁ l₂ l₃ : List Nat} (h : (l₁ ++ l₂ ++ l₃).Nodup)
    (ha : a ∉ l₁ ++ l₂ ++ l₃) : (l₁ ++ a :: l₂ ++ l₃).Nodup := by
  rw [List.append_assoc] at h ha
  rw [List.append_assoc, List.cons_append, List.nodup_middle]
  exact List.nodup_cons.mpr ⟨ha, h⟩

theorem Lists.append (h : t.Lists r sl d) (ha : a ∉ r ++ sl ++ d) (h0 : a ≠ 0)
    (hnext : t.next a = 0) (hr : r = [] ∧ t' = (t.setFirst a).setLast a ∨
      r ≠ [] ∧ t' = (t.setNext t.lastReadyToRunTask a).setLast a) :
    t'.Lists (r ++ [a]) sl d := by
  have hnodup : (r ++ [a] ++ sl ++ d).Nodup := by
    have := nodup_middle_append h.nodup ha
    simpa using this
  have hnonnull : 0 ∉ r ++ [a] ++ sl ++ d := by
    have := h.nonnull
    simp only [List.mem_append, List.mem_singleton, not_or] at this ⊢
    exact ⟨⟨⟨this.1.1, h0.symm⟩, this.1.2⟩, this.2⟩
  rcases hr with ⟨rfl, rfl⟩ | ⟨hne, rfl⟩
  · exact
      { ready := ⟨rfl, hnext⟩
        sleeping := h.sleeping
        dead := h.dead
        last := rfl
        nodup := hnodup
        nonnull := hnonnull }
  · obtain ⟨r', y, hr⟩ := (List.eq_nil_or_concat r).resolve_left hne
    rw [List.concat_eq_append] at hr
    subst hr
    have hlast : t.lastReadyToRunTask = y := by simpa using h.last
    have hdis := h.nodup
    simp only [List.nodup_append, List.mem_append] at hdis
    -- the old last task is on no other list, and not earlier in this one
    have hy : ∀ z ∈ r' ++ sl ++ d, z ≠ y := by grind
    have hay : a ≠ y := fun e => ha (by simp [e])
    exact
      { ready := by
          have hnext' : ((t.setNext t.lastReadyToRunTask a).setLast a).next
              = Function.update t.next y a := by
            rw [← hlast]
            exact next_setNext
          rw [hnext']
          exact h.ready.concat (fun z hz => Function.update_of_ne (hy z (by simp [hz])) _ _)
            (Function.update_self _ _ _) ((Function.update_of_ne hay _ _).trans hnext)
        sleeping := h.sleeping.congr fun z hz => by
          change (t.setNext t.lastReadyToRunTask a).next z = t.next z
          rw [next_setNext, hlast, Function.update_of_ne (hy z (by simp [hz]))]
        dead := h.dead.congr fun z hz => by
          change (t.setNext t.lastReadyToRunTask a).next z = t.next z
          rw [next_setNext, hlast, Function.update_of_ne (hy z (by simp [hz]))]
        last := by simp [setLast]
        nodup := hnodup
        nonnull := hnonnull }

/-- **`enqueue`**, the way of `create_kernel_task` and `unblock_task`. -/
theorem Lists.enqueue (h : t.Lists r sl d) (ha : a ∉ r ++ sl ++ d) (h0 : a ≠ 0)
    (hnext : t.next a = 0) : (t.enqueue a).Lists (r ++ [a]) sl d := by
  refine h.append ha h0 hnext ?_
  rw [Tasks.enqueue]
  by_cases hf : t.firstReadyToRunTask = 0
  · exact .inl ⟨h.first_eq_zero_iff.mp hf, if_pos hf⟩
  · exact .inr ⟨fun hr => hf (h.first_eq_zero_iff.mpr hr), if_neg hf⟩

theorem Lists.unblockTask (h : t.Lists r sl d) (ha : a ∉ r ++ sl ++ d) (h0 : a ≠ 0) :
    (t.unblockTask a).Lists (r ++ [a]) sl d :=
  (h.setState.setTcb ha).enqueue ha h0 (by simp [next_setTcb])

theorem Lists.createKernelTask {stackBase : Nat} (h : t.Lists r sl d) (ha : a ∉ r ++ sl ++ d)
    (h0 : a ≠ 0) : (t.createKernelTask a stackBase).Lists (r ++ [a]) sl d := by
  have h₁ : (t.fillTask a stackBase).Lists r sl d :=
    h.congr (fun z hz => by
      have hne : z ≠ a := fun e => ha (e ▸ hz)
      rw [fillTask, next_setTcb, Function.update_of_ne hne]
      rfl) rfl rfl rfl rfl
  exact h₁.enqueue ha h0 (by simp [fillTask, next_setTcb])

theorem state_createKernelTask {stackBase : Nat} : (t.createKernelTask a stackBase).state
    = Function.update t.state a taskStateReadyToRun := by
  rw [Tasks.createKernelTask, state_enqueue, fillTask, state_setTcb]
  rfl

theorem Lists.takeFirst (h : t.Lists (n :: r) sl d) : t.takeFirst.Lists r sl d := by
  obtain ⟨hfirst, hrest⟩ := h.ready
  have hn0 : 0 ∉ r ++ sl ++ d := fun h0 => h.nonnull (by simp_all)
  have hnil := hrest.eq_nil_iff fun h0 => hn0 (by simp [h0])
  exact
    { ready := by
        change Seg t.next (t.next t.firstReadyToRunTask) r 0
        rw [hfirst]
        exact hrest
      sleeping := h.sleeping
      dead := h.dead
      last := by
        change (if t.next t.firstReadyToRunTask = 0 then 0 else t.lastReadyToRunTask) = _
        rw [hfirst]
        by_cases hr : r = []
        · rw [if_pos (hnil.mpr hr), hr]
          rfl
        · rw [if_neg (fun e => hr (hnil.mp e)), h.last]
          obtain ⟨r', y, rfl⟩ := (List.eq_nil_or_concat r).resolve_left hr
          rw [List.concat_eq_append, ← List.cons_append, List.getLastD_concat, List.getLastD_concat]
      nodup := (List.nodup_cons.mp h.nodup).2
      nonnull := hn0 }

/-! ### `schedule` -/

/-- The state of a task after the `movb` of `_switch_to_task`. -/
def runState (v : Int) : Int := v - v % 256 + taskStateRunning

/-- The states that `schedule` puts back into the queue. -/
abbrev Requeued (v : Int) : Prop := v = taskStateRunning ∨ v = taskStateReadyToRun

@[simp] theorem next_updateTimeUsed : t.updateTimeUsed.next = t.next :=
  next_setTcb.trans (Function.update_eq_self t.currentTaskPCB t.next)

@[simp] theorem state_updateTimeUsed : t.updateTimeUsed.state = t.state :=
  state_setTcb.trans (Function.update_eq_self t.currentTaskPCB t.state)

theorem Lists.updateTimeUsed (h : t.Lists r sl d) : t.updateTimeUsed.Lists r sl d :=
  h.congr (fun z _ => by rw [next_updateTimeUsed]) rfl rfl rfl rfl

theorem Lists.requeueCurrent (h : t.Lists r sl d) (hc : t.currentTaskPCB ∉ r ++ sl ++ d)
    (h0 : t.currentTaskPCB ≠ 0) (hs : Requeued (t.state t.currentTaskPCB)) :
    t.requeueCurrent.Lists (r ++ [t.currentTaskPCB]) sl d := by
  have h₁ : ((t.setState t.currentTaskPCB taskStateReadyToRun).setNext t.currentTaskPCB 0).Lists
      r sl d := h.setState.setTcb hc
  refine h₁.append hc h0 (by simp) ?_
  rw [Tasks.requeueCurrent, if_pos hs]
  by_cases hl : t.lastReadyToRunTask = 0
  · exact .inl ⟨h.last_eq_zero_iff.mp hl, if_neg (not_not.mpr hl)⟩
  · exact .inr ⟨fun hr => hl (h.last_eq_zero_iff.mpr hr), if_pos hl⟩

theorem state_requeueCurrent (hs : Requeued (t.state t.currentTaskPCB)) :
    t.requeueCurrent.state = Function.update t.state t.currentTaskPCB taskStateReadyToRun := by
  rw [Tasks.requeueCurrent, if_pos hs]
  dsimp only
  split
  · change (Tasks.setNext _ _ _).state = _
    rw [state_setNext, state_setNext, state_setState]
  · change (Tasks.setNext _ _ _).state = _
    rw [state_setNext, state_setState]

@[simp] theorem created_requeueCurrent : t.requeueCurrent.created = t.created := by
  rw [Tasks.requeueCurrent]
  dsimp only
  split
  · split <;> rfl
  · rfl

variable {site : Resume}

theorem Lists.switchTo (h : t.Lists r sl d) : (t.switchTo site n).Lists r sl d := by
  refine h.congr (fun z _ => ?_) rfl rfl rfl rfl
  rw [Tasks.switchTo, next_setState]
  exact congrFun next_setEsp z

theorem state_switchTo :
    (t.switchTo site n).state = Function.update t.state n (runState (t.state n)) := by
  have hesp : ((t.setEsp t.currentTaskPCB site).setCurrent n).state = t.state := state_setEsp
  rw [Tasks.switchTo, state_setState, hesp]
  rfl

@[simp] theorem created_reschedule : (t.reschedule site).created = t.created :=
  created_requeueCurrent

/-- **`schedule` by a task that stays runnable**: it goes to the end of the queue. -/
theorem Lists.reschedule_running (site : Resume) (h : t.Lists (n :: r) sl d)
    (hc : t.currentTaskPCB ∉ n :: r ++ sl ++ d) (h0 : t.currentTaskPCB ≠ 0)
    (hs : Requeued (t.state t.currentTaskPCB)) :
    (t.reschedule site).Lists (r ++ [t.currentTaskPCB]) sl d ∧
      (t.reschedule site).state
        = Function.update (Function.update t.state t.currentTaskPCB taskStateReadyToRun) n
            (runState (t.state n)) := by
  have hs' : Requeued (t.takeFirst.updateTimeUsed.state t.currentTaskPCB) := by
    rw [state_updateTimeUsed]
    exact hs
  have hn : n ≠ t.currentTaskPCB := fun e => hc (by simp [e])
  refine ⟨(h.takeFirst.updateTimeUsed.requeueCurrent (fun hm => hc ?_) h0 hs').switchTo, ?_⟩
  · exact List.mem_cons_of_mem _ hm
  · rw [Tasks.reschedule, state_switchTo, state_requeueCurrent hs', state_updateTimeUsed,
      h.ready.1]
    change Function.update (Function.update t.state t.currentTaskPCB _) n
      (runState (Function.update t.state t.currentTaskPCB _ n)) = _
    rw [Function.update_of_ne hn]

/-- **`schedule` by a task that is blocked**: it is not put back. -/
theorem Lists.reschedule_blocked (site : Resume) (h : t.Lists (n :: r) sl d)
    (hs : ¬ Requeued (t.state t.currentTaskPCB)) :
    (t.reschedule site).Lists r sl d ∧
      (t.reschedule site).state = Function.update t.state n (runState (t.state n)) := by
  have hs' : ¬ Requeued (t.takeFirst.updateTimeUsed.state t.currentTaskPCB) := by
    rw [state_updateTimeUsed]
    exact hs
  have hre : t.takeFirst.updateTimeUsed.requeueCurrent = t.takeFirst.updateTimeUsed := if_neg hs'
  rw [Tasks.reschedule, hre]
  refine ⟨h.takeFirst.updateTimeUsed.switchTo, ?_⟩
  rw [state_switchTo, state_updateTimeUsed, h.ready.1]
  rfl

/-! ### The sleeping list and the dead tasks -/

/-- **The section of `micro_sleep_until`.** -/
theorem Lists.microSleepUntil {us : Nat} (h : t.Lists r sl d)
    (hc : t.currentTaskPCB ∉ r ++ sl ++ d) (h0 : t.currentTaskPCB ≠ 0) :
    (t.microSleepUntil us).Lists r (t.currentTaskPCB :: sl) d := by
  have h₁ : ((t.setTarget t.currentTaskPCB (u32 us)).setNext t.currentTaskPCB
      t.sleepingTaskes).Lists r sl d := (h.setTcb hc).setTcb hc
  exact
    { ready := h₁.ready
      sleeping := ⟨rfl, by
        change Seg _ ((Tasks.setNext _ _ _).next _) sl 0
        rw [next_setNext, Function.update_self]
        exact h₁.sleeping⟩
      dead := h₁.dead
      last := h.last
      nodup := nodup_middle_append h.nodup hc
      nonnull := by
        have := h.nonnull
        simp only [List.mem_append, List.mem_cons, not_or] at this ⊢
        exact ⟨⟨this.1.1, h0.symm, this.1.2⟩, this.2⟩ }

theorem state_microSleepUntil {us : Nat} : (t.microSleepUntil us).state = t.state := by
  change ((t.setTarget t.currentTaskPCB (u32 us)).setNext t.currentTaskPCB _).state = t.state
  rw [state_setNext]
  exact state_setTcb.trans (Function.update_eq_self t.currentTaskPCB t.state)

/-- **The running task goes to the dead tasks.** -/
theorem Lists.terminateTask (h : t.Lists r sl d) (hc : t.currentTaskPCB ∉ r ++ sl ++ d)
    (h0 : t.currentTaskPCB ≠ 0) : t.terminateTask.Lists r sl (t.currentTaskPCB :: d) := by
  have h₁ : (t.setNext t.currentTaskPCB t.deadTasks).Lists r sl d := h.setTcb hc
  exact
    { ready := h₁.ready
      sleeping := h₁.sleeping
      dead := ⟨rfl, by
        change Seg _ ((Tasks.setNext _ _ _).next _) d 0
        rw [next_setNext, Function.update_self]
        exact h₁.dead⟩
      last := h.last
      nodup := List.nodup_middle.mpr (List.nodup_cons.mpr ⟨hc, h.nodup⟩)
      nonnull := by
        have := h.nonnull
        simp only [List.mem_append, List.mem_cons, not_or] at this ⊢
        exact ⟨this.1, h0.symm, this.2⟩ }

/-! ### The timer interrupt -/

section Wake

variable {ks cs : List Nat}

theorem Lists.unlinkSleeping (h : t.Lists r (ks ++ x :: cs) d) :
    (t.unlinkSleeping (ks.getLastD 0) x).Lists r (ks ++ cs) d ∧ x ∉ r ++ (ks ++ cs) ++ d := by
  have hsplit : r ++ (ks ++ x :: cs) ++ d = (r ++ ks) ++ x :: (cs ++ d) := by simp
  have hnodup := h.nodup
  have hnonnull := h.nonnull
  rw [hsplit, List.nodup_middle] at hnodup
  have hx : x ∉ r ++ (ks ++ cs) ++ d := by simpa using (List.nodup_cons.mp hnodup).1
  have hnodup' : (r ++ (ks ++ cs) ++ d).Nodup := by simpa using (List.nodup_cons.mp hnodup).2
  have hnonnull' : 0 ∉ r ++ (ks ++ cs) ++ d := fun h0 => hnonnull (by
    simp only [List.mem_append, List.mem_cons] at h0 ⊢
    tauto)
  obtain ⟨hpre, hpost⟩ := seg_append_cons.mp h.sleeping
  refine ⟨?_, hx⟩
  rcases List.eq_nil_or_concat ks with rfl | ⟨ks', p, hks⟩
  · exact
      { ready := h.ready
        sleeping := hpost
        dead := h.dead
        last := h.last
        nodup := hnodup'
        nonnull := hnonnull' }
  · rw [List.concat_eq_append] at hks
    subst hks
    have hp : p ≠ 0 := fun h0 => hnonnull' (by simp [h0])
    have hne : ∀ z ∈ r ++ (ks' ++ cs) ++ d, z ≠ p := by
      have hperm : r ++ (ks' ++ [p] ++ cs) ++ d = (r ++ ks') ++ p :: (cs ++ d) := by simp
      rw [hperm, List.nodup_middle] at hnodup'
      intro z hz e
      exact (List.nodup_cons.mp hnodup').1 (by simpa [← e] using hz)
    have hnext : (t.setNext p (t.next x)).next = Function.update t.next p (t.next x) := next_setNext
    rw [List.getLastD_concat, Tasks.unlinkSleeping, if_neg hp]
    exact
      { ready := h.ready.congr fun z hz => by
          rw [hnext, Function.update_of_ne (hne z (by simp [hz]))]
        sleeping := by
          rw [List.append_assoc, List.singleton_append, seg_append_cons]
          refine ⟨(seg_append_cons.mp hpre).1.congr fun z hz => ?_, ?_⟩
          · rw [hnext, Function.update_of_ne (hne z (by simp [hz]))]
          · rw [hnext, Function.update_self]
            refine hpost.congr fun z hz => ?_
            rw [Function.update_of_ne (hne z (by simp [hz]))]
        dead := h.dead.congr fun z hz => by
          rw [hnext, Function.update_of_ne (hne z (by simp [hz]))]
        last := h.last
        nodup := hnodup'
        nonnull := hnonnull' }

theorem state_unblockTask_unlinkSleeping {p : Nat} :
    ((t.unlinkSleeping p x).unblockTask x).state
      = Function.update t.state x taskStateReadyToRun := by
  rw [Tasks.unblockTask, state_enqueue, state_setNext, state_setState, Tasks.unlinkSleeping]
  split
  · rfl
  · rw [state_setNext]

/-- **The wake-up loop.**  `ks` are the sleepers it has passed, `cs` those in
front of it; the ones that are due go to the ready queue in their order. -/
theorem Lists.wakeLoop {due : Nat → Bool} {ticks fuel : Nat} (h : t.Lists r (ks ++ cs) d)
    (hdue : ∀ z ∈ cs, due z = decide ((t.tcb z).targetWakeupTime ≤ ticks))
    (hw : t.wakeLoop ticks fuel (ks.getLastD 0) (cs.headD 0) = some t') :
    t'.Lists (r ++ cs.filter due) (ks ++ cs.filter fun z => !due z) d ∧
      ∀ z, t'.state z = if z ∈ cs.filter due then taskStateReadyToRun else t.state z := by
  induction fuel generalizing t r ks cs with
  | zero => exact absurd hw (by simp [Tasks.wakeLoop])
  | succ fuel ih =>
    rw [Tasks.wakeLoop] at hw
    cases cs with
    | nil =>
      rw [List.headD_nil, if_pos rfl] at hw
      obtain rfl := Option.some.inj hw
      simpa using h
    | cons y cs =>
      have hy0 : y ≠ 0 := fun h0 => h.nonnull (by simp [h0])
      have hnext : t.next y = cs.headD 0 := (seg_append_cons.mp h.sleeping).2.start_eq
      rw [List.headD_cons, if_neg hy0, hnext] at hw
      have hydue := hdue y (by simp)
      by_cases hd : (t.tcb y).targetWakeupTime ≤ ticks
      · rw [if_pos hd] at hw
        rw [decide_eq_true hd] at hydue
        obtain ⟨h₁, hy⟩ := h.unlinkSleeping
        have hrel := ((Relinked.refl t).unlinkSleeping (p := ks.getLastD 0) (a := y)).unblockTask
          (a := y)
        obtain ⟨hl, hs⟩ := ih (h₁.unblockTask hy hy0)
          (fun z hz => by rw [hrel.targetWakeupTime, hdue z (by simp [hz])]) hw
        refine ⟨?_, fun z => ?_⟩
        · simpa [hydue] using hl
        · rw [hs, state_unblockTask_unlinkSleeping]
          by_cases hz : z = y
          · simp [hz, hydue]
          · simp [hz, hydue]
      · rw [if_neg hd] at hw
        rw [decide_eq_false hd] at hydue
        have h₁ : t.Lists r ((ks ++ [y]) ++ cs) d := by simpa using h
        rw [← List.getLastD_concat (a := 0) (l := ks) (b := y)] at hw
        obtain ⟨hl, hs⟩ := ih h₁ (fun z hz => hdue z (by simp [hz])) hw
        refine ⟨?_, fun z => ?_⟩
        · simpa [hydue] using hl
        · rw [hs]
          simp [hydue]

/-- The sleepers that the next timer interrupt wakes. -/
def due (t : Tasks) (z : Nat) : Bool :=
  decide ((t.tcb z).targetWakeupTime ≤ u64 (t.ticksSinceBoot + 1))

/-- **The timer interrupt** moves the sleepers that are due to the ready queue. -/
theorem Lists.tick (h : t.Lists r sl d) (ht : t.tick = some t') :
    t'.Lists (r ++ sl.filter t.due) (sl.filter fun z => !t.due z) d ∧
      (∀ z, t'.state z = if z ∈ sl.filter t.due then taskStateReadyToRun else t.state z) ∧
      t'.currentTaskPCB = t.currentTaskPCB ∧ t'.created = t.created := by
  have h₁ : t.addTick.Lists r ([] ++ sl) d := h.congr (fun _ _ => rfl) rfl rfl rfl rfl
  have hw : t.addTick.wakeLoop (u64 (t.ticksSinceBoot + 1)) walkFuel (List.getLastD [] 0)
      (sl.headD 0) = some t' := by
    rw [← h.sleeping.start_eq]
    exact ht
  obtain ⟨hl, hs⟩ := h₁.wakeLoop (fun _ _ => rfl) hw
  have hrel := (Relinked.refl t.addTick).wakeLoop hw
  exact ⟨hl, hs, hrel.currentTaskPCB, hrel.created⟩

end Wake

/-! ### `dead_tasks_cleanup` -/

theorem kfree_eq {ptr : Nat} (h : t.kfree ptr = some t') :
    t.live ptr = true ∧ t' = { t with live := Function.update t.live ptr false } := by
  rw [Tasks.kfree] at h
  split at h
  · exact ⟨‹_›, (Option.some.inj h).symm⟩
  · cases h

/-- **`free_task`** gives back two blocks of the heap and leaves the control blocks. -/
theorem freeTask_eq (h : t.freeTask a = some t') :
    t.live (t.tcb a).stackBase = true ∧ t' = { t with
      live := Function.update (Function.update t.live (t.tcb a).stackBase false) a false
      created := t.created.erase a } := by
  obtain ⟨t₁, h₁, h⟩ := Option.bind_eq_some_iff.mp h
  obtain ⟨t₂, h₂, h⟩ := Option.bind_eq_some_iff.mp h
  obtain ⟨hlive, rfl⟩ := kfree_eq h₁
  obtain ⟨-, rfl⟩ := kfree_eq h₂
  exact ⟨hlive, (Option.some.inj h).symm⟩

theorem freeLoop_created {fuel : Nat} (h : Seg t.next a d 0) (h0 : 0 ∉ d)
    (hf : t.freeLoop fuel a = some t') :
    (∀ z, z ∈ t'.created ↔ z ∈ t.created ∧ z ∉ d) ∧
      ∃ live created, t' = { t with live := live, created := created } := by
  induction d generalizing fuel a t with
  | nil =>
    obtain rfl : a = 0 := h
    cases fuel with
    | zero => cases hf
    | succ fuel =>
      rw [freeLoop, if_pos rfl] at hf
      obtain rfl := Option.some.inj hf
      exact ⟨fun z => by simp, _, _, rfl⟩
  | cons x d ih =>
    obtain ⟨rfl, h⟩ := h
    simp only [List.mem_cons, not_or] at h0
    cases fuel with
    | zero => cases hf
    | succ fuel =>
      rw [freeLoop, if_neg (Ne.symm h0.1)] at hf
      obtain ⟨t₁, h₁, hf⟩ := Option.bind_eq_some_iff.mp hf
      obtain ⟨-, rfl⟩ := freeTask_eq h₁
      obtain ⟨hc, live, created, rfl⟩ := ih (by exact h) h0.2 hf
      refine ⟨fun z => ?_, live, created, rfl⟩
      rw [hc]
      simp only [Finset.mem_erase, List.mem_cons, not_or]
      tauto

/-- **`dead_tasks_cleanup`** empties the list of the dead tasks. -/
theorem Lists.deadTasksCleanup (h : t.Lists r sl d) (ht : t.deadTasksCleanup = some t') :
    t'.Lists r sl [] ∧ (∀ z, z ∈ t'.created ↔ z ∈ t.created ∧ z ∉ d) ∧
      ∃ live created, t' = { t with live := live, created := created, deadTasks := 0 } := by
  obtain ⟨t₁, h₁, ht⟩ := Option.bind_eq_some_iff.mp ht
  obtain ⟨hcr, live, created, rfl⟩ := freeLoop_created h.dead
    (fun h0 => h.nonnull (by simp [h0])) h₁
  obtain rfl := Option.some.inj ht
  refine ⟨⟨h.ready, h.sleeping, rfl, h.last, ?_, fun h0 => h.nonnull ?_⟩, hcr, live, created, rfl⟩
  · simpa using (List.nodup_append.mp h.nodup).1
  · rw [List.append_nil] at h0
    exact List.mem_append_left _ h0

end Tasks

end ChoOS
