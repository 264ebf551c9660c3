import ChoOS.Sched.Queue

/-!
# What the wake-up does

`internal_update_awoken_taskes` walks the sleeping list with two pointers while
`unblock_task` rewrites `next` of the tasks that it takes out.  `WakeReady` is
what it needs: the ready queue and the sleeping list end at `NULL`, no task is
twice on them, and `last_ready_to_run_task` is the end of the queue.  Nothing is
said about the dead tasks, so `setDead` may be put in front of the loop
(`wakeLoop_setDead`) and the lemmas on the three lists apply.

* `Lists.wakeLoop_isSome`: the loop ends.  The sleepers are different 32-bit
  addresses, so there are fewer of them than turns.
* `wakeLoop_frame`: what the loop leaves alone.
* `internalUpdateAwokenTaskes_wakes`: the sleepers that are due, and no others,
  are behind the old ready queue, in their old order.
-/

namespace ChoOS

/-- Different addresses that are not `NULL` are fewer than all addresses. -/
theorem length_lt_walkFuel : ∀ l : List Nat, l.Nodup → 0 ∉ l → (∀ z ∈ l, z < 4294967296) →
    l.length < walkFuel := by
  intro l hnodup h0 hlt
  have hsub : l.toFinset ⊆ (Finset.range 4294967296).erase 0 := by
    intro z hz
    rw [List.mem_toFinset] at hz
    exact Finset.mem_erase.mpr ⟨fun e => h0 (e ▸ hz), Finset.mem_range.mpr (hlt z hz)⟩
  have hcard := Finset.card_le_card hsub
  rw [List.toFinset_card_of_nodup hnodup, Finset.card_erase_of_mem (Finset.mem_range.mpr (by omega)),
    Finset.card_range] at hcard
  rw [walkFuel]
  omega

namespace Tasks

variable {t t' : Tasks} {r sl d ks cs : List Nat} {a p x y : Nat}

/-! ### The dead tasks do not matter -/

theorem unlinkSleeping_setDead :
    (t.setDead a).unlinkSleeping p x = (t.unlinkSleeping p x).setDead a := by
  rw [Tasks.unlinkSleeping, Tasks.unlinkSleeping]
  split <;> rfl

theorem enqueue_setDead : (t.setDead a).enqueue x = (t.enqueue x).setDead a := by
  rw [Tasks.enqueue, Tasks.enqueue]
  change (if t.firstReadyToRunTask = 0 then _ else _) = _
  split <;> rfl

theorem unblockTask_setDead :
    (t.setDead a).unblockTask x = (t.unblockTask x).setDead a :=
  enqueue_setDead (t := (t.setState x taskStateReadyToRun).setNext x 0)

theorem wakeLoop_setDead (ticks a : Nat) : ∀ (fuel p x : Nat) (t : Tasks),
    (t.setDead a).wakeLoop ticks fuel p x = (t.wakeLoop ticks fuel p x).map (·.setDead a) := by
  intro fuel
  induction fuel with
  | zero => intros; rfl
  | succ fuel ih =>
    intro p x t
    rw [Tasks.wakeLoop, Tasks.wakeLoop]
    by_cases hx : x = 0
    · rw [if_pos hx, if_pos hx]
      rfl
    rw [if_neg hx, if_neg hx]
    change (if (t.tcb x).targetWakeupTime ≤ ticks then _ else _) = _
    by_cases hd : (t.tcb x).targetWakeupTime ≤ ticks
    · rw [if_pos hd, if_pos hd, unlinkSleeping_setDead, unblockTask_setDead]
      exact ih _ _ _
    · rw [if_neg hd, if_neg hd]
      exact ih _ _ _

theorem wakeLoop_deadTasks {ticks fuel : Nat} (hw : t.wakeLoop ticks fuel p x = some t') :
    t'.deadTasks = t.deadTasks := by
  -- putting the old value back in front of the loop puts it back behind it
  have hself : t.wakeLoop ticks fuel p x
      = (t.wakeLoop ticks fuel p x).map (·.setDead t.deadTasks) :=
    wakeLoop_setDead ticks t.deadTasks fuel p x t
  rw [hw] at hself
  have he : t' = t'.setDead t.deadTasks := Option.some.inj hself
  exact (congrArg Tasks.deadTasks he).trans rfl

/-! ### The loop ends -/

/-- **The loop ends** when it has a turn for every sleeper and one more. -/
theorem Lists.wakeLoop_isSome (ticks : Nat) : ∀ (fuel : Nat) (cs ks r : List Nat) (t : Tasks),
    t.Lists r (ks ++ cs) d → cs.length < fuel →
    ∃ t', t.wakeLoop ticks fuel (ks.getLastD 0) (cs.headD 0) = some t' := by
  intro fuel
  induction fuel with
  | zero => intro cs ks r t _ hlt; exact absurd hlt (Nat.not_lt_zero _)
  | succ fuel ih =>
    intro cs ks r t h hlt
    rw [Tasks.wakeLoop]
    cases cs with
    | nil => exact ⟨t, if_pos rfl⟩
    | cons y cs =>
      have hy0 : y ≠ 0 := fun h0 => h.nonnull (by simp [h0])
      have hnext : t.next y = cs.headD 0 := (seg_append_cons.mp h.sleeping).2.start_eq
      have hlt' : cs.length < fuel := Nat.lt_of_succ_lt_succ hlt
      rw [List.headD_cons, if_neg hy0, hnext]
      by_cases hd : (t.tcb y).targetWakeupTime ≤ ticks
      · rw [if_pos hd]
        obtain ⟨h₁, hy⟩ := h.unlinkSleeping
        exact ih cs ks (r ++ [y]) _ (h₁.unblockTask hy hy0) hlt'
      · rw [if_neg hd]
        have h₁ : t.Lists r ((ks ++ [y]) ++ cs) d := by simpa using h
        rw [← List.getLastD_concat (a := 0) (l := ks) (b := y)]
        exact ih cs (ks ++ [y]) r t h₁ hlt'

/-! ### What the loop leaves alone -/

/-- The states differ in the control blocks of `l`, in the ready queue and in the
sleeping list. -/
structure WakeFrame (l : List Nat) (t t' : Tasks) : Prop where
  rest : t' = { t with
    tcb := t'.tcb
    firstReadyToRunTask := t'.firstReadyToRunTask
    lastReadyToRunTask := t'.lastReadyToRunTask
    sleepingTaskes := t'.sleepingTaskes }
  tcb : ∀ z, z ∉ l → t'.tcb z = t.tcb z

theorem WakeFrame.refl (l : List Nat) (t : Tasks) : t.WakeFrame l t := ⟨rfl, fun _ _ => rfl⟩

theorem WakeFrame.trans {l : List Nat} {t'' : Tasks} (h : t.WakeFrame l t')
    (h' : t'.WakeFrame l t'') : t.WakeFrame l t'' where
  rest := by
    rw [h'.rest, h.rest]
  tcb z hz := (h'.tcb z hz).trans (h.tcb z hz)

theorem WakeFrame.setTcb {l : List Nat} {b : TaskControlBlock} (ha : a ∈ l) :
    t.WakeFrame l (t.setTcb a b) where
  rest := rfl
  tcb z hz := by
    have hne : z ≠ a := fun e => hz (e ▸ ha)
    exact Function.update_of_ne hne b t.tcb

theorem WakeFrame.enqueue {l : List Nat} (hl : t.firstReadyToRunTask ≠ 0 →
    t.lastReadyToRunTask ∈ l) : t.WakeFrame l (t.enqueue a) := by
  rw [Tasks.enqueue]
  split
  · exact ⟨rfl, fun _ _ => rfl⟩
  · exact (WakeFrame.setTcb (hl ‹_›)).trans ⟨rfl, fun _ _ => rfl⟩

theorem Lists.unlinkSleeping_frame {l : List Nat} (h : t.Lists r (ks ++ x :: cs) d)
    (hl : r ++ (ks ++ x :: cs) ⊆ l) :
    t.WakeFrame l (t.unlinkSleeping (ks.getLastD 0) x) := by
  rw [Tasks.unlinkSleeping]
  split
  · exact ⟨rfl, fun _ _ => rfl⟩
  · rename_i hne
    rcases List.eq_nil_or_concat ks with rfl | ⟨ks', p, rfl⟩
    · exact absurd rfl hne
    · refine .setTcb (hl ?_)
      simp

theorem Lists.unblockTask_frame {l : List Nat} (h : t.Lists r sl d) (hx : x ∈ l) (hr : r ⊆ l) :
    t.WakeFrame l (t.unblockTask x) := by
  have hset : t.WakeFrame l ((t.setState x taskStateReadyToRun).setNext x 0) :=
    (WakeFrame.setTcb hx).trans (.setTcb hx)
  refine hset.trans (.enqueue fun hf => hr ?_)
  obtain ⟨r', y, rfl⟩ := (List.eq_nil_or_concat r).resolve_left fun e =>
    hf (h.first_eq_zero_iff.mpr e)
  change t.lastReadyToRunTask ∈ _
  rw [h.last, List.concat_eq_append, List.getLastD_concat]
  simp

/-- **What the loop leaves alone**: all tasks that are on neither list, and every
other pointer. -/
theorem Lists.wakeLoop_frame (ticks : Nat) : ∀ (fuel : Nat) (cs ks r : List Nat) (t t' : Tasks),
    t.Lists r (ks ++ cs) d →
    t.wakeLoop ticks fuel (ks.getLastD 0) (cs.headD 0) = some t' →
    ∀ l, r ++ (ks ++ cs) ⊆ l → t.WakeFrame l t' := by
  intro fuel
  induction fuel with
  | zero => intro cs ks r t t' _ hw; cases hw
  | succ fuel ih =>
    intro cs ks r t t' h hw l hl
    rw [Tasks.wakeLoop] at hw
    cases cs with
    | nil =>
      rw [List.headD_nil, if_pos rfl] at hw
      exact Option.some.inj hw ▸ .refl l t
    | cons y cs =>
      have hy0 : y ≠ 0 := fun h0 => h.nonnull (by simp [h0])
      have hnext : t.next y = cs.headD 0 := (seg_append_cons.mp h.sleeping).2.start_eq
      have hyl : y ∈ l := hl (by simp)
      rw [List.headD_cons, if_neg hy0, hnext] at hw
      by_cases hd : (t.tcb y).targetWakeupTime ≤ ticks
      · rw [if_pos hd] at hw
        obtain ⟨h₁, hy⟩ := h.unlinkSleeping
        refine (h.unlinkSleeping_frame hl).trans ((h₁.unblockTask_frame hyl fun z hz => ?_).trans ?_)
        · exact hl (List.mem_append_left _ hz)
        · refine ih cs ks (r ++ [y]) _ t' (h₁.unblockTask hy hy0) hw l fun z hz => hl ?_
          simp only [List.mem_append, List.mem_cons, List.not_mem_nil, or_false] at hz ⊢
          tauto
      · rw [if_neg hd] at hw
        have h₁ : t.Lists r ((ks ++ [y]) ++ cs) d := by simpa using h
        rw [← List.getLastD_concat (a := 0) (l := ks) (b := y)] at hw
        exact ih cs (ks ++ [y]) r t t' h₁ hw l (by simpa using hl)

/-- The wake-up test of `internal_update_awoken_taskes`. -/
def dueAt (t : Tasks) (ticks z : Nat) : Bool := decide ((t.tcb z).targetWakeupTime ≤ ticks)

end Tasks

/-! ### `internal_update_awoken_taskes` -/

namespace Scheduler

variable {s s' : Scheduler} {r sl : List Nat}

/-- The ready queue is `r` and the sleeping list is `sl`.  Pointers have 32 bits,
and no switch is postponed outside of the sections that the counter counts. -/
structure WakeReady (s : Scheduler) (r sl : List Nat) : Prop where
  ready : Seg s.tasks.next s.tasks.firstReadyToRunTask r 0
  last : s.tasks.lastReadyToRunTask = r.getLastD 0
  sleeping : Seg s.tasks.next s.tasks.sleepingTaskes sl 0
  nodup : (r ++ sl).Nodup
  nonnull : 0 ∉ r ++ sl
  addresses : ∀ z ∈ r ++ sl, z < 4294967296
  steady : s.locks.Steady

/-- What `internal_update_awoken_taskes` makes of `s`.  The locks are as behind any
section, unless `IRQ_disable_counter` wraps and `unblock_task` enables interrupts. -/
structure Woken (ticks : Nat) (r sl : List Nat) (s s' : Scheduler) : Prop where
  lists : s'.WakeReady (r ++ sl.filter (s.tasks.dueAt ticks))
    (sl.filter fun z => !s.tasks.dueAt ticks z)
  state : ∀ z, s'.tasks.state z
    = if z ∈ sl.filter (s.tasks.dueAt ticks) then taskStateReadyToRun else s.tasks.state z
  fields : ∀ z, s'.tasks.tcb z
    = { s.tasks.tcb z with next := s'.tasks.next z, state := s'.tasks.state z }
  others : ∀ z, z ∉ r ++ sl → s'.tasks.tcb z = s.tasks.tcb z
  rest : s'.tasks = { s.tasks with
    tcb := s'.tasks.tcb
    firstReadyToRunTask := s'.tasks.firstReadyToRunTask
    lastReadyToRunTask := s'.tasks.lastReadyToRunTask
    sleepingTaskes := s'.tasks.sleepingTaskes }
  counters : s'.locks = s.locks.setInterrupts s'.locks.interruptFlag
  locks : s.locks.irqDisableCounter + 1 ≠ 0 → s'.locks = s.locks.afterSection
  lostSwitch : s'.lostSwitch = s.lostSwitch

theorem WakeReady.lists (h : s.WakeReady r sl) : (s.tasks.setDead 0).Lists r sl [] where
  ready := h.ready
  sleeping := h.sleeping
  dead := rfl
  last := h.last
  nodup := (List.append_nil (r ++ sl)).symm ▸ h.nodup
  nonnull := (List.append_nil (r ++ sl)).symm ▸ h.nonnull

/-- **A tick wakes exactly the sleepers that are due.** -/
theorem internalUpdateAwokenTaskes_wakes (ticks : Nat) (h : s.WakeReady r sl) :
    ∃ s', s.internalUpdateAwokenTaskes ticks = some s' ∧ Woken ticks r sl s s' := by
  have hl : (s.tasks.setDead 0).Lists r ([] ++ sl) [] := h.lists
  have hsl : sl.length < walkFuel := by
    refine length_lt_walkFuel sl (List.nodup_append.mp h.nodup).2.1 (fun h0 => ?_) fun z hz => ?_
    · exact h.nonnull (List.mem_append_right _ h0)
    · exact h.addresses z (List.mem_append_right _ hz)
  -- the loop runs on the lists without the dead tasks
  obtain ⟨t₁, ht₁⟩ := Tasks.Lists.wakeLoop_isSome ticks walkFuel sl [] r _ hl hsl
  have hstart : sl.headD 0 = s.tasks.sleepingTaskes := h.sleeping.start_eq.symm
  obtain ⟨t', ht', rfl⟩ := Option.map_eq_some_iff.mp ((Tasks.wakeLoop_setDead ..).symm.trans ht₁)
  have hdue : ∀ z ∈ sl, s.tasks.dueAt ticks z
      = decide (((s.tasks.setDead 0).tcb z).targetWakeupTime ≤ ticks) := fun _ _ => rfl
  obtain ⟨hlists, hstate⟩ := hl.wakeLoop hdue ht₁
  have hrel := (Tasks.Relinked.refl s.tasks).wakeLoop ht'
  have hframe := hl.wakeLoop_frame ticks walkFuel sl [] r _ _ ht₁ _ (List.Subset.refl _)
  have hloop : s.tasks.wakeLoop ticks walkFuel 0 s.tasks.sleepingTaskes = some t' := by
    rw [← hstart]
    exact ht'
  obtain ⟨b, hb, hcall⟩ := internalUpdateAwokenTaskes_eq ticks h.steady
  rw [hloop, Option.map_some] at hcall
  refine ⟨_, hcall, ?_⟩
  exact
    { lists :=
        { ready := hlists.ready
          last := hlists.last
          sleeping := hlists.sleeping
          nodup := by
            have := hlists.nodup
            rwa [List.append_nil] at this
          nonnull := by
            have := hlists.nonnull
            rwa [List.append_nil] at this
          addresses := fun z hz => h.addresses z (by
            simp only [List.mem_append, List.mem_filter] at hz ⊢
            tauto)
          steady := ⟨h.steady.outer, h.steady.inner⟩ }
      state := hstate
      fields := fun z => by
        obtain ⟨n, v, hz⟩ := hrel.tcb z
        rw [Tasks.next, Tasks.state, hz]
      others := fun z hz => hframe.tcb z hz
      rest := calc
        t' = (t'.setDead 0).setDead s.tasks.deadTasks := by
          rw [← Tasks.wakeLoop_deadTasks ht']
          rfl
        _ = _ := congrArg (·.setDead s.tasks.deadTasks) hframe.rest
      counters := rfl
      locks := fun hirq => by rw [hb hirq]; rfl
      lostSwitch := rfl }

/-- Task `8192` is ready; `12288`, `16384` and `20480` sleep until the ticks `5`, `9`
and `3`. -/
def sleepers : Scheduler := bootedTask.onTasks fun t =>
  { t with
    tcb := Function.update (Function.update (Function.update t.tcb
      12288 { TaskControlBlock.zero with next := 16384, state := 3, targetWakeupTime := 5 })
      16384 { TaskControlBlock.zero with next := 20480, state := 3, targetWakeupTime := 9 })
      20480 { TaskControlBlock.zero with next := 0, state := 3, targetWakeupTime := 3 }
    firstReadyToRunTask := 8192
    lastReadyToRunTask := 8192
    sleepingTaskes := 12288 }

theorem internalUpdateAwokenTaskes_sleepers :
    ∃ s', sleepers.internalUpdateAwokenTaskes 5 = some s' ∧
      Woken 5 [8192] [12288, 16384, 20480] sleepers s' :=
  internalUpdateAwokenTaskes_wakes 5
    { ready := ⟨rfl, rfl⟩
      last := rfl
      sleeping := ⟨rfl, rfl, rfl, rfl⟩
      nodup := by decide
      nonnull := by decide
      addresses := by decide
      steady := ⟨.inl rfl, .inl rfl⟩ }

end Scheduler

end ChoOS
