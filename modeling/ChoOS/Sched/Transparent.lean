import ChoOS.Lib.Nest
import ChoOS.Lib.Trace
import ChoOS.Sched.Sections

/-!
# The lock and the interrupt flag of its caller

`lock_scheduler` does `cli` and `unlock_scheduler` does `sti` when
`IRQ_disable_counter` comes back to `0`.  The counter says nothing about the
interrupt flag in front of the first `lock_scheduler`, so the last
`unlock_scheduler` sets it in any case.

`LockOp` are the calls that stand in a nest of sections; a nest may be deeper
than a counter can count.  `nest_transparent` says which nests leave the
interrupts as they were.  `internalUpdateAwokenTaskes_nest` is the nest of the
timer interrupt, which runs with interrupts off and turns them on.
-/

namespace ChoOS

namespace Scheduler

/-- `schedule`, for a caller that goes on without a task switch. -/
def scheduleHere (s : Scheduler) : Option Scheduler :=
  match s.schedule with
  | (s, none) => some s
  | (_, some _) => none

end Scheduler

/-- The calls of a nest.  `code` is what its sections do to the tasks. -/
inductive LockOp
  | lock
  | unlock
  | schedule
  | code (f : Tasks → Tasks)

namespace LockOp

def run : LockOp → Scheduler → Option Scheduler
  | .lock, s => some s.lockScheduler
  | .unlock, s => s.unlockHere
  | .schedule, s => s.scheduleHere
  | .code f, s => some (s.onTasks f)

/-- By how much a call changes the nesting. -/
def nesting : LockOp → ℤ
  | .lock => 1
  | .unlock => -1
  | .schedule => 0
  | .code _ => 0

/-- The interrupt flag behind a call, from the one in front of it and the counter
behind it. -/
def flagAfter (counter : BitVec 32) (b : Bool) : LockOp → Bool
  | .lock => false
  | .unlock => if counter = 0 then true else b
  | .schedule => b
  | .code _ => b

end LockOp

/-- Interrupts are off between the first call of a nest and the last one, and
behind it they are what they were in front. -/
structure Transparent (s : Scheduler) (ops : List LockOp) (s' : Scheduler) : Prop where
  off : ∀ p s₁, p <+: ops → p ≠ [] → p ≠ ops → execute LockOp.run p s = some s₁ →
    s₁.locks.interruptFlag = false
  back : s'.locks.interruptFlag = s.locks.interruptFlag

variable {s s₁ s' : Scheduler} {ops p : List LockOp} {op : LockOp}

/-! ### One call -/

/-- A `schedule` that comes back leaves the counters and the interrupts alone. -/
theorem Scheduler.scheduleHere_locks (h : s.scheduleHere = some s') :
    s'.locks.irqDisableCounter = s.locks.irqDisableCounter ∧
      s'.locks.interruptFlag = s.locks.interruptFlag := by
  rw [scheduleHere] at h
  rcases s.schedule_cases with ⟨-, he⟩ | ⟨-, -, he⟩ | ⟨-, -, he⟩
  · rw [he] at h
    obtain rfl := Option.some.inj h
    exact ⟨rfl, rfl⟩
  · rw [he] at h
    obtain rfl := Option.some.inj h
    exact ⟨rfl, rfl⟩
  · rw [he] at h
    exact absurd h (by simp)

theorem Scheduler.unlockHere_locks (h : s.unlockHere = some s') :
    s'.locks.irqDisableCounter = s.locks.irqDisableCounter - 1 ∧
      s'.locks.interruptFlag
        = if s.locks.irqDisableCounter - 1 = 0 then true else s.locks.interruptFlag := by
  rw [unlockHere] at h
  rcases s.unlockStart_cases with ⟨-, he⟩ | ⟨-, -, he⟩ | ⟨-, -, -, he⟩ <;> rw [he] at h
  · obtain rfl := Option.some.inj h
    exact ⟨rfl, rfl⟩
  · obtain rfl := Option.some.inj h
    exact ⟨rfl, rfl⟩
  · cases h

theorem LockOp.run_counter (h : op.run s = some s') :
    (s'.locks.irqDisableCounter.toNat : ℤ)
      = (s.locks.irqDisableCounter.toNat + op.nesting) % 4294967296 := by
  have hlt := s.locks.irqDisableCounter.isLt
  cases op with
  | lock =>
    obtain rfl := Option.some.inj h
    change ((s.locks.irqDisableCounter + 1).toNat : ℤ) = _
    have hone : (1 : BitVec 32).toNat = 1 := rfl
    rw [BitVec.toNat_add, hone, nesting]
    omega
  | unlock =>
    have h : s.unlockHere = some s' := h
    have hone : (1 : BitVec 32).toNat = 1 := rfl
    rw [(Scheduler.unlockHere_locks h).1, BitVec.toNat_sub, hone, nesting]
    omega
  | schedule =>
    rw [(Scheduler.scheduleHere_locks h).1]
    simp only [nesting]
    omega
  | code f =>
    obtain rfl := Option.some.inj h
    simp only [Scheduler.onTasks, nesting]
    omega

theorem LockOp.run_flag (h : op.run s = some s') :
    s'.locks.interruptFlag = op.flagAfter s'.locks.irqDisableCounter s.locks.interruptFlag := by
  cases op with
  | lock =>
    obtain rfl := Option.some.inj h
    rfl
  | unlock =>
    have h : s.unlockHere = some s' := h
    obtain ⟨hc, hf⟩ := Scheduler.unlockHere_locks h
    rw [flagAfter, hc, hf]
  | schedule => exact (Scheduler.scheduleHere_locks h).2
  | code f =>
    obtain rfl := Option.some.inj h
    rfl

theorem LockOp.nesting_ge (op : LockOp) : -1 ≤ op.nesting := by
  cases op <;> simp [nesting]

theorem LockOp.nesting_le (op : LockOp) : op.nesting ≤ 1 := by
  cases op <;> simp [nesting]

/-! ### Whole nests -/

/-- **The counter counts the nesting**, as long as it fits. -/
theorem execute_counter : ∀ (p : List LockOp) (s' : Scheduler), s.locks.irqDisableCounter = 0 →
    execute LockOp.run p s = some s' →
    (s'.locks.irqDisableCounter.toNat : ℤ) = height LockOp.nesting p % 4294967296 := by
  intro p
  induction p using List.reverseRecOn with
  | nil =>
    intro s' h0 h
    obtain rfl := Option.some.inj h
    rw [h0]
    rfl
  | append_singleton p op ih =>
    intro s' h0 h
    obtain ⟨s₁, h₁, hop⟩ := execute_concat h
    have hc := ih s₁ h0 h₁
    have hop := op.run_counter hop
    rw [hop, hc, height_append, height_cons, height_nil]
    omega

theorem execute_part (hp : p <+: ops) (h : execute LockOp.run ops s = some s') :
    ∃ s₁, execute LockOp.run p s = some s₁ := by
  obtain ⟨t, rfl⟩ := hp
  rw [execute_append] at h
  obtain ⟨s₁, h₁, -⟩ := Option.bind_eq_some_iff.mp h
  exact ⟨s₁, h₁⟩

/-- **Interrupts are off inside of a nest** that is never deeper than the counter. -/
theorem nest_off (h0 : s.locks.irqDisableCounter = 0) (hn : IsNest LockOp.nesting ops)
    (hdeep : ∀ p, p <+: ops → height LockOp.nesting p ≤ 4294967296) :
    ∀ (p : List LockOp) (s₁ : Scheduler), p <+: ops → p ≠ [] → p ≠ ops →
      execute LockOp.run p s = some s₁ → s₁.locks.interruptFlag = false := by
  intro p
  induction p using List.reverseRecOn with
  | nil =>
    intro s₁ _ hne
    exact absurd rfl hne
  | append_singleton p op ih =>
    intro s₁ hp hne hall h
    have hp' : p <+: ops := (List.prefix_append p [op]).trans hp
    have hcount := execute_counter _ _ h0 h
    obtain ⟨s₂, h₂, hop⟩ := execute_concat h
    rw [op.run_flag hop]
    by_cases hfirst : p = []
    · -- the first call is `lock_scheduler`
      subst hfirst
      obtain ⟨e, t, rfl, hopen⟩ := hn.opens
      obtain ⟨rfl, -⟩ := List.cons_prefix_cons.mp hp
      cases op with
      | lock => rfl
      | unlock => simp [LockOp.nesting] at hopen
      | schedule => simp [LockOp.nesting] at hopen
      | code f => simp [LockOp.nesting] at hopen
    have hlast : p ≠ ops := by
      rintro rfl
      simpa using hp.length_le
    rw [ih s₂ hp' hfirst hlast h₂]
    cases op with
    | lock => rfl
    | schedule => rfl
    | code f => rfl
    | unlock =>
      -- the counter is not `0`: the depth is positive, and below `2 ^ 32`
      have hpos := hn.inside _ hp hne hall
      have hle := hdeep p hp'
      simp only [height_append, height_cons, height_nil, LockOp.nesting] at hcount hpos
      rw [LockOp.flagAfter, if_neg]
      intro hzero
      rw [hzero] at hcount
      change ((0 : Nat) : ℤ) = _ at hcount
      omega

/-- **Behind a nest interrupts are on**, whatever they were. -/
theorem nest_on (h0 : s.locks.irqDisableCounter = 0) (hn : IsNest LockOp.nesting ops)
    (h : execute LockOp.run ops s = some s') : s'.locks.interruptFlag = true := by
  have hcount := execute_counter _ _ h0 h
  rw [hn.back] at hcount
  induction ops using List.reverseRecOn with
  | nil =>
    obtain ⟨e, t, he, -⟩ := hn.opens
    exact absurd he (by simp)
  | append_singleton ops op _ =>
    obtain ⟨s₁, -, hop⟩ := execute_concat h
    have hclose := hn.closes.2
    rw [op.run_flag hop]
    cases op with
    | lock => simp [LockOp.nesting] at hclose
    | schedule => simp [LockOp.nesting] at hclose
    | code f => simp [LockOp.nesting] at hclose
    | unlock => rw [LockOp.flagAfter, if_pos (BitVec.eq_of_toNat_eq (Int.ofNat_inj.mp hcount))]

/-- **A nest is transparent** when interrupts were on and its depth fits into the
counter, and in no other case. -/
theorem nest_transparent (h0 : s.locks.irqDisableCounter = 0) (hn : IsNest LockOp.nesting ops)
    (h : execute LockOp.run ops s = some s') :
    Transparent s ops s' ↔ s.locks.interruptFlag = true ∧
      ∀ p, p <+: ops → height LockOp.nesting p ≤ 4294967296 := by
  constructor
  · intro ht
    refine ⟨ht.back.symm.trans (nest_on h0 hn h), ?_⟩
    intro p hp
    by_contra hdeep
    obtain ⟨t, rfl⟩ := hp
    have hend := hn.back
    -- on the way down the counter is `0` while the nest is not left
    obtain ⟨r, c, hr, hc, hk⟩ := height_descends LockOp.nesting_ge t p (not_le.mp hdeep) (by omega)
    have hall : r ++ [c] ≠ p ++ t := by
      intro he
      rw [he] at hk
      omega
    obtain ⟨s₁, h₁⟩ := execute_part hr h
    have hoff := ht.off _ _ hr (by simp) hall h₁
    have hcount := execute_counter _ _ h0 h₁
    obtain ⟨s₂, -, hop⟩ := execute_concat h₁
    rw [c.run_flag hop] at hoff
    cases c with
    | lock => simp [LockOp.nesting] at hc
    | schedule => simp [LockOp.nesting] at hc
    | code f => simp [LockOp.nesting] at hc
    | unlock =>
      rw [hk] at hcount
      rw [LockOp.flagAfter, if_pos (BitVec.eq_of_toNat_eq (Int.ofNat_inj.mp hcount))] at hoff
      exact absurd hoff (by simp)
  · rintro ⟨hb, hdeep⟩
    exact ⟨nest_off h0 hn hdeep, (nest_on h0 hn h).trans hb.symm⟩

/-- The scheduler behind `multitasking_initialize`. -/
def idle : Scheduler :=
  .multitaskingInitialize 64 0 (fun _ => .zero) fun _ => false

/-- A `schedule` inside of two sections: the switch is postponed, and when it is
made up for nothing is ready. -/
def nestedSchedule : List LockOp := [.lock, .lock, .schedule, .unlock, .unlock]

theorem nestedSchedule_isNest : IsNest LockOp.nesting nestedSchedule := by
  have hcode : Level LockOp.nesting [.schedule] := .single rfl
  have hinner : IsNest LockOp.nesting [.lock, .schedule, .unlock] := hcode.bracket rfl rfl
  exact hinner.level.bracket rfl rfl

theorem nest_transparent_idle : Transparent idle nestedSchedule idle := by
  refine (nest_transparent rfl nestedSchedule_isNest rfl).mpr ⟨rfl, ?_⟩
  intro p hp
  have hheight := height_le_length LockOp.nesting_le p
  have hlength : p.length ≤ 5 := hp.length_le
  omega

/-- **In the timer interrupt the lock turns interrupts on.**  The gate cleared the
flag, no task sleeps, and `internal_update_awoken_taskes` is one section. -/
theorem handler_not_transparent :
    let s := idle.onLocks (·.setInterrupts false)
    s.locks.irqDisableCounter = 0 ∧ IsNest LockOp.nesting [.lock, .unlock] ∧
      execute LockOp.run [.lock, .unlock] s = some idle ∧
      s.internalUpdateAwokenTaskes 1 = some idle ∧
      s.locks.interruptFlag = false ∧ idle.locks.interruptFlag = true ∧
      ¬ Transparent s [.lock, .unlock] idle := by
  refine ⟨rfl, Level.nil.bracket rfl rfl, rfl, rfl, rfl, rfl, ?_⟩
  intro h
  exact absurd h.back (by decide)

/-! ### The nests of the source -/

namespace Scheduler

/-- `lock_scheduler`, some code and `unlock_scheduler`. -/
theorem execute_section (f : Tasks → Tasks) (s : Scheduler) :
    execute LockOp.run [.lock, .code f, .unlock] s
      = s.criticalSection fun s => some (s.onTasks f) := by
  have hunlock (s : Scheduler) : execute LockOp.run [.unlock] s = s.unlockHere :=
    Option.bind_fun_some _
  exact hunlock _

theorem wakeLoop_level {ticks fuel prev curr : Nat}
    (h : s.wakeLoop ticks fuel prev curr = some s') :
    ∃ ops, Level LockOp.nesting ops ∧ execute LockOp.run ops s = some s' := by
  induction fuel generalizing prev curr s with
  | zero => cases h
  | succ n ih =>
    rw [wakeLoop] at h
    by_cases hc : curr = 0
    · rw [if_pos hc] at h
      exact ⟨[], .nil, h⟩
    rw [if_neg hc] at h
    by_cases hd : (s.tasks.tcb curr).targetWakeupTime ≤ ticks
    · rw [if_pos hd] at h
      obtain ⟨s₁, hsection, h⟩ := Option.bind_eq_some_iff.mp h
      obtain ⟨ops, hlevel, hrun⟩ := ih h
      -- `unblock_task` takes the lock for the task that is woken
      have hunlink : Level LockOp.nesting [.code (·.unlinkSleeping prev curr)] := .single rfl
      have hcode : Level LockOp.nesting [.code (·.unblockTask curr)] := .single rfl
      have hunblock : IsNest LockOp.nesting [.lock, .code (·.unblockTask curr), .unlock] :=
        hcode.bracket rfl rfl
      refine ⟨.code (·.unlinkSleeping prev curr) ::
        ([.lock, .code (·.unblockTask curr), .unlock] ++ ops), ?_, ?_⟩
      · exact hunlink.append (hunblock.level.append hlevel)
      · rw [execute, LockOp.run, Option.bind_some, execute_append, execute_section]
        exact Option.bind_eq_some_iff.mpr ⟨s₁, hsection, hrun⟩
    · rw [if_neg hd] at h
      exact ih h

/-- **The timer interrupt takes the lock in a nest**: one section, and in it one
for every task that it wakes. -/
theorem internalUpdateAwokenTaskes_nest {ticks : Nat}
    (h : s.internalUpdateAwokenTaskes ticks = some s') :
    ∃ ops, IsNest LockOp.nesting ops ∧ execute LockOp.run ops s = some s' := by
  obtain ⟨s₁, hbody, hunlock⟩ := Option.bind_eq_some_iff.mp h
  obtain ⟨ops, hlevel, hrun⟩ := wakeLoop_level hbody
  refine ⟨.lock :: (ops ++ [.unlock]), hlevel.bracket rfl rfl, ?_⟩
  rw [execute, LockOp.run, Option.bind_some, execute_append, hrun, Option.bind_some, execute,
    LockOp.run, hunlock]
  rfl

/-- **The timer interrupt turns interrupts on** before its `iret`. -/
theorem internalUpdateAwokenTaskes_on {ticks : Nat} (h0 : s.locks.irqDisableCounter = 0)
    (h : s.internalUpdateAwokenTaskes ticks = some s') : s'.locks.interruptFlag = true := by
  obtain ⟨ops, hn, hrun⟩ := internalUpdateAwokenTaskes_nest h
  exact nest_on h0 hn hrun

end Scheduler

end ChoOS
