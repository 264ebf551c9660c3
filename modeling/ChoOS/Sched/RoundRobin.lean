import Mathlib.Data.List.Rotate
import ChoOS.Lib.Nest
import ChoOS.Sched.Locks

/-!
# Yielding is round-robin

A task yields with a call of `schedule`, or with several of them in a nest of
locked sections, as `long_task` does; `IsYield` are the calls of one yield.  In a
nest `schedule` only sets a flag (`Inside`), and the switch is made up for in the
outermost `unlock_scheduler`.

`Cycle` lists the running task and behind it the ready queue.  A yield takes the
first task from the queue and puts the running one at its end, so it rotates the
list by one: `Cycle.yield`.  `round_robin` is what follows for any number of
yields.  That the tasks of the queue have a stack to come back to is a part of
`Cycle`; `sched_run_cycle` says that they do in every state of every run.

The nests are as deep as `postpone_task_switches_counter` can count (`Shallow`).
At depth `2 ^ 32` the counter is `0`, and `schedule` switches inside of the nest:
`deepYield_switches`.
-/

namespace ChoOS

/-- A stack that leads back to the code of a task. -/
def Resume.Returns : Resume → Prop
  | .null => False
  | .forged => True
  | .afterSchedule => True
  | .insideUnlock => True
  | .ended => False

namespace Scheduler

variable {s s' : Scheduler} {site : Resume}

theorem resume_returns (h : site.Returns) : ∃ s', resume site s = some s' := by
  cases site with
  | null => exact absurd h id
  | forged => exact ⟨_, rfl⟩
  | afterSchedule => exact ⟨_, rfl⟩
  | insideUnlock => exact ⟨_, rfl⟩
  | ended => exact absurd h id

/-- **A call of `schedule` comes back to a task** when the first task of the queue
has a stack. -/
theorem callSchedule_returns (hsite : site.Returns) (hfirst : s.tasks.firstReadyToRunTask ≠ 0 →
    (s.tasks.tcb s.tasks.firstReadyToRunTask).esp.Returns) :
    ∃ s', callSchedule site s = some s' := by
  rw [callSchedule]
  rcases s.schedule_cases with ⟨-, he⟩ | ⟨-, -, he⟩ | ⟨hp, hf, he⟩ <;> rw [he]
  · exact resume_returns hsite
  · exact resume_returns hsite
  · dsimp only
    rw [switchAndResume, switchToTask, if_neg (by simp [onTasks, hp])]
    refine resume_returns ?_
    change ((s.tasks.reschedule site).tcb s.tasks.firstReadyToRunTask).esp.Returns
    rw [Tasks.esp_reschedule]
    split
    · exact hsite
    · exact hfirst hf

/-! ### Calls of one yield -/

/-- The calls that a yield is made of. -/
inductive YieldOp
  | lock
  | unlock
  | schedule
  deriving DecidableEq

namespace YieldOp

def run : YieldOp → Scheduler → Option Scheduler
  | .lock, s => some s.lockScheduler
  | .unlock, s => s.unlockScheduler
  | .schedule, s => s.callSchedule .afterSchedule

/-- By how much a call changes the nesting. -/
def nesting : YieldOp → ℤ
  | .lock => 1
  | .unlock => -1
  | .schedule => 0

end YieldOp

/-- One `schedule`, or at least one in a nest of sections. -/
def IsYield (ops : List YieldOp) : Prop :=
  ops = [.schedule] ∨ IsNest YieldOp.nesting ops ∧ .schedule ∈ ops

/-- The counter can count the sections. -/
def Shallow (ops : List YieldOp) : Prop :=
  ∀ p, p <+: ops → height YieldOp.nesting p < 4294967296

/-- Behind the calls `p` in a nest that was entered in `s`. -/
structure Inside (s : Scheduler) (p : List YieldOp) (s₁ : Scheduler) : Prop where
  tasks : s₁.tasks = s.tasks
  counter : (s₁.locks.postponeTaskSwitchesCounter.toNat : ℤ) = height YieldOp.nesting p
  flag : s₁.locks.taskSwitchesPostponedFlag = decide (.schedule ∈ p)

variable {p ops : List YieldOp} {s₁ : Scheduler}

theorem Inside.start (hq : s.locks.Quiet) : Inside s [] s := by
  refine ⟨rfl, ?_, hq.flag⟩
  rw [hq.counter]
  rfl

/-- **A call inside of a nest** does not switch. -/
theorem Inside.step {op : YieldOp} (h : Inside s p s₁)
    (hpos : 0 < height YieldOp.nesting (p ++ [op]))
    (hlt : height YieldOp.nesting (p ++ [op]) < 4294967296) :
    ∃ s₂, op.run s₁ = some s₂ ∧ Inside s (p ++ [op]) s₂ := by
  have hc := h.counter
  rw [height_append, height_cons, height_nil] at hpos hlt
  cases op with
  | lock =>
    simp only [YieldOp.nesting] at hlt
    have hcount : (s₁.locks.postponeTaskSwitchesCounter + 1).toNat = _ := toNat_add_one (by omega)
    refine ⟨_, rfl, h.tasks, ?_, ?_⟩
    · rw [height_append, ← hc]
      change ((s₁.locks.postponeTaskSwitchesCounter + 1).toNat : ℤ) = _
      rw [hcount]
      simp [YieldOp.nesting]
    · rw [lockScheduler, onLocks]
      change s₁.locks.taskSwitchesPostponedFlag = _
      rw [h.flag]
      simp
  | unlock =>
    simp only [YieldOp.nesting] at hpos
    have hcount : (s₁.locks.postponeTaskSwitchesCounter - 1).toNat = _ := toNat_sub_one (by omega)
    have hne : s₁.locks.postponeTaskSwitchesCounter - 1 ≠ 0 := by
      rw [Ne, eq_zero_iff_toNat, hcount]
      omega
    have hstart : s₁.unlockStart = (s₁.onLocks fun l => l.release.unlockTail, none) := by
      rcases s₁.unlockStart_cases with ⟨-, he⟩ | ⟨h0, -⟩ | ⟨h0, -⟩
      · exact he
      · exact absurd h0 hne
      · exact absurd h0 hne
    refine ⟨s₁.onLocks fun l => l.release.unlockTail, ?_, h.tasks, ?_, ?_⟩
    · rw [YieldOp.run, unlockScheduler, hstart]
    · rw [height_append, ← hc]
      change ((s₁.locks.postponeTaskSwitchesCounter - 1).toNat : ℤ) = _
      rw [hcount]
      simp only [height_cons, height_nil, YieldOp.nesting]
      omega
    · change s₁.locks.taskSwitchesPostponedFlag = _
      rw [h.flag]
      simp
  | schedule =>
    simp only [YieldOp.nesting] at hpos
    have hne : s₁.locks.postponeTaskSwitchesCounter ≠ 0 := by
      rw [Ne, eq_zero_iff_toNat]
      omega
    have hcall : callSchedule .afterSchedule s₁ = some (s₁.onLocks (·.setFlag true)) := by
      rw [callSchedule, schedule, if_pos hne]
      rfl
    refine ⟨_, hcall, h.tasks, ?_, ?_⟩
    · rw [height_append, ← hc]
      change (s₁.locks.postponeTaskSwitchesCounter.toNat : ℤ) = _
      simp [YieldOp.nesting]
    · change true = _
      simp

/-- **Inside of a nest** nothing happens to the tasks. -/
theorem inside_nest (hq : s.locks.Quiet) (hn : IsNest YieldOp.nesting ops) (hd : Shallow ops) :
    ∀ p, p <+: ops → p ≠ ops → ∃ s₁, execute YieldOp.run p s = some s₁ ∧ Inside s p s₁ := by
  intro p
  induction p using List.reverseRecOn with
  | nil =>
    intro _ _
    exact ⟨s, rfl, .start hq⟩
  | append_singleton p op ih =>
    intro hp hall
    have hp' : p <+: ops := (List.prefix_append p [op]).trans hp
    have hlast : p ≠ ops := by
      rintro rfl
      simpa using hp.length_le
    obtain ⟨s₁, hrun, hin⟩ := ih hp' hlast
    have hpos := hn.inside _ hp (by simp) hall
    obtain ⟨s₂, hop, hin'⟩ := hin.step hpos (hd _ hp)
    refine ⟨s₂, ?_, hin'⟩
    rw [execute_append, hrun, Option.bind_some, execute, hop]
    rfl

/-! ### One yield -/

/-- The running task and the ready queue are `l`, outside of every section. -/
structure Cycle (s : Scheduler) (l sl d : List Nat) : Prop where
  quiet : s.locks.Quiet
  placed : s.tasks.Placed l.tail sl d
  running : l.head? = some s.tasks.currentTaskPCB
  returns : ∀ a ∈ l.tail, (s.tasks.tcb a).esp.Returns

variable {l sl d : List Nat}

/-- **A `schedule` rotates the list.** -/
theorem Cycle.callSchedule (site : Resume) (h : s.Cycle l sl d) (hsite : site.Returns) :
    ∃ s', callSchedule site s = some s' ∧ s'.Cycle (l.rotate 1) sl d := by
  obtain ⟨hq, hplaced, hrunning, hreturns⟩ := h
  cases l with
  | nil => cases hrunning
  | cons c q =>
    obtain rfl : c = s.tasks.currentTaskPCB := Option.some.inj hrunning
    rw [List.tail_cons] at hplaced hreturns
    have hfirst : s.tasks.firstReadyToRunTask ≠ 0 → s.tasks.firstReadyToRunTask ∈ q := by
      intro hf
      obtain ⟨n, r, rfl⟩ := hplaced.lists.exists_cons hf
      rw [hplaced.lists.ready.1]
      exact List.mem_cons_self
    obtain ⟨s', hcall⟩ := callSchedule_returns (s := s) hsite fun hf => hreturns _ (hfirst hf)
    obtain ⟨hq', h0, h1⟩ := callSchedule_spec hq hcall
    refine ⟨s', hcall, ?_⟩
    cases q with
    | nil =>
      have ht := h0 (hplaced.lists.first_eq_zero_iff.mpr rfl)
      rw [List.rotate_singleton]
      exact ⟨hq', ht ▸ hplaced, by rw [ht, List.head?_cons], by simp⟩
    | cons n r =>
      have hf : s.tasks.firstReadyToRunTask ≠ 0 := by
        intro hf
        exact absurd (hplaced.lists.first_eq_zero_iff.mp hf) (List.cons_ne_nil n r)
      have ht := h1 hf
      have hrotate : (s.tasks.currentTaskPCB :: n :: r).rotate 1
          = n :: (r ++ [s.tasks.currentTaskPCB]) := by
        rw [List.rotate_cons_succ, List.rotate_zero, List.cons_append]
      rw [hrotate]
      refine ⟨hq', ht ▸ hplaced.reschedule, ?_, fun a ha => ?_⟩
      · rw [ht, List.head?_cons]
        exact congrArg some hplaced.lists.ready.1.symm
      · rw [List.tail_cons] at ha
        rw [ht, Tasks.esp_reschedule]
        split
        · exact hsite
        · rename_i hne
          rcases List.mem_append.mp ha with ha | ha
          · exact hreturns a (List.mem_cons_of_mem _ ha)
          · exact absurd (List.mem_singleton.mp ha) hne

/-- Nothing happens before the last call, and the last one rotates the list. -/
structure Rotates (ops : List YieldOp) (s s' : Scheduler) : Prop where
  run : execute YieldOp.run ops s = some s'
  inside : ∀ p, p <+: ops → p ≠ ops →
    ∃ s₁, execute YieldOp.run p s = some s₁ ∧ s₁.tasks = s.tasks

/-- **A yield rotates the list by one**, in its last call. -/
theorem Cycle.yield (h : s.Cycle l sl d) (hy : IsYield ops) (hd : Shallow ops) :
    ∃ s', Rotates ops s s' ∧ s'.Cycle (l.rotate 1) sl d := by
  rcases hy with rfl | ⟨hn, hs⟩
  · obtain ⟨s', hcall, hc⟩ := h.callSchedule .afterSchedule trivial
    refine ⟨s', ⟨?_, fun p hp hne => ?_⟩, hc⟩
    · rw [execute, YieldOp.run, hcall]
      rfl
    · rcases List.prefix_cons_iff.mp hp with rfl | ⟨t, rfl, ht⟩
      · exact ⟨s, rfl, rfl⟩
      · rw [List.prefix_nil.mp ht] at hne
        exact absurd rfl hne
  · have hinside := inside_nest h.quiet hn hd
    rcases List.eq_nil_or_concat ops with rfl | ⟨p, op, rfl⟩
    · cases hs
    rw [List.concat_eq_append] at hn hs hinside ⊢
    obtain ⟨s₁, hrun, hin⟩ := hinside p (List.prefix_append _ _) (by simp)
    -- the last call closes the nest, so it is `unlock_scheduler`
    have hback := hn.back
    have hclose := hn.closes.2
    rw [height_append, height_cons, height_nil] at hback
    cases op with
    | lock => simp [YieldOp.nesting] at hclose
    | schedule => simp [YieldOp.nesting] at hclose
    | unlock =>
      have hcount : s₁.locks.postponeTaskSwitchesCounter = 1 := by
        have hc := hin.counter
        simp only [YieldOp.nesting] at hback
        exact BitVec.eq_of_toNat_eq (show _ = 1 by omega)
      have hflag : s₁.locks.taskSwitchesPostponedFlag = true := by
        rw [hin.flag]
        simpa using hs
      have hcycle : (s₁.onLocks fun l => l.release.setFlag false).Cycle l sl d :=
        { quiet := ⟨by simp [onLocks, Locks.release, Locks.setFlag, hcount], rfl⟩
          placed := by
            rw [onLocks, hin.tasks]
            exact h.placed
          running := by
            rw [onLocks, hin.tasks]
            exact h.running
          returns := by
            rw [onLocks, hin.tasks]
            exact h.returns }
      obtain ⟨s', hcall, hc⟩ := hcycle.callSchedule .insideUnlock trivial
      refine ⟨s', ⟨?_, fun p' hp hne => ?_⟩, hc⟩
      · rw [execute_append, hrun, Option.bind_some, execute, YieldOp.run,
          unlockScheduler_postponed hcount hflag, hcall]
        rfl
      · obtain ⟨s₂, hrun', hin'⟩ := hinside p' hp hne
        exact ⟨s₂, hrun', hin'.tasks⟩

/-! ### Any number of yields -/

/-- So many yields, each by the task that runs then; `ys` are their calls. -/
def yields (ys : Nat → List YieldOp) : Nat → Scheduler → Option Scheduler
  | 0, s => some s
  | k + 1, s => do execute YieldOp.run (ys k) (← yields ys k s)

variable {ys : Nat → List YieldOp}

theorem Cycle.yields (h : s.Cycle l sl d) (hys : ∀ j, IsYield (ys j))
    (hd : ∀ j, Shallow (ys j)) :
    ∀ k, ∃ s', yields ys k s = some s' ∧ s'.Cycle (l.rotate k) sl d := by
  intro k
  induction k with
  | zero => exact ⟨s, rfl, l.rotate_zero.symm ▸ h⟩
  | succ k ih =>
    obtain ⟨s₁, hrun, hc⟩ := ih
    obtain ⟨s', hy, hc'⟩ := hc.yield (hys k) (hd k)
    refine ⟨s', ?_, List.rotate_rotate l k 1 ▸ hc'⟩
    rw [Scheduler.yields, hrun]
    exact hy.run

theorem Cycle.length_pos (h : s.Cycle l sl d) : 0 < l.length := by
  cases l with
  | nil => cases h.running
  | cons c q => exact Nat.succ_pos _

theorem Cycle.getElem?_mod {k : Nat} (hl : 0 < l.length) (h : s'.Cycle (l.rotate k) sl d) :
    l[k % l.length]? = some s'.tasks.currentTaskPCB := by
  have hrunning := h.running
  rw [← List.rotate_mod, List.head?_rotate (Nat.mod_lt k hl)] at hrunning
  exact hrunning

/-- **Yielding is exact round-robin**, in nests that the counter can count.  `l` are the
running task and the ready queue.
Yield `k` takes place in its last call; in front of it `l` is rotated by `k`, so
element `k` of `l` runs, counted around; as many yields as there are tasks, from
anywhere on, let every task run once and come back to where they began. -/
theorem round_robin (h : s.Cycle l sl d) (hys : ∀ j, IsYield (ys j))
    (hd : ∀ j, Shallow (ys j)) :
    ∃ run : Nat → Scheduler, (∀ k, yields ys k s = some (run k)) ∧ ∀ k,
      Rotates (ys k) (run k) (run (k + 1)) ∧
      (run k).Cycle (l.rotate k) sl d ∧
      l[k % l.length]? = some (run k).tasks.currentTaskPCB ∧
      ((List.range l.length).map fun i => (run (k + i)).tasks.currentTaskPCB).Perm l ∧
      (run (k + l.length)).Cycle (l.rotate k) sl d := by
  choose run hrun hcycle using h.yields hys hd
  refine ⟨run, hrun, fun k => ⟨?_, hcycle k, (hcycle k).getElem?_mod h.length_pos, ?_, ?_⟩⟩
  · obtain ⟨s', hy, -⟩ := (hcycle k).yield (hys k) (hd k)
    have hnext := hrun (k + 1)
    rw [Scheduler.yields, hrun k] at hnext
    obtain rfl : s' = run (k + 1) := Option.some.inj (hy.run.symm.trans hnext)
    exact hy
  · have hlist : ((List.range l.length).map fun i => (run (k + i)).tasks.currentTaskPCB)
        = l.rotate k := by
      refine List.ext_getElem (by simp) fun i hi _ => ?_
      rw [List.getElem_map, List.getElem_range, List.getElem_rotate]
      have hget := (hcycle (k + i)).getElem?_mod h.length_pos
      have hlt : (i + k) % l.length < l.length := Nat.mod_lt _ h.length_pos
      rw [Nat.add_comm k i, List.getElem?_eq_getElem hlt] at hget
      rw [Nat.add_comm k i]
      exact (Option.some.inj hget).symm
    rw [hlist]
    exact l.rotate_perm k
  · have hback : l.rotate (k + l.length) = l.rotate k := by
      rw [← List.rotate_rotate, ← List.length_rotate l k, List.rotate_length]
    exact hback ▸ hcycle (k + l.length)

/-- Two new tasks behind the kernel task. -/
def threeTasks : Scheduler := bootedTask.onTasks fun t =>
  (t.createKernelTask 8192 8448).createKernelTask 12288 12544

theorem threeTasks_cycle : threeTasks.Cycle [4096, 8192, 12288] [] [] where
  quiet := ⟨rfl, rfl⟩
  placed := by
    have h : bootedTask.tasks.Placed [] [] [] := multitaskingInitialize_placed (by decide)
    have h₁ : (bootedTask.tasks.createKernelTask 8192 8448).Placed [8192] [] [] :=
      h.createKernelTask (by decide) (by decide)
    exact h₁.createKernelTask (by decide) (by decide)
  running := rfl
  returns := by
    intro a ha
    rcases List.mem_cons.mp ha with rfl | ha
    · trivial
    · rw [List.mem_singleton.mp ha]
      trivial

/-- The yields of `long_task`, every other one two sections deep. -/
def mixedYields (j : Nat) : List YieldOp :=
  if j % 2 = 0 then [.lock, .schedule, .unlock]
  else [.lock, .schedule, .lock, .schedule, .unlock, .unlock]

theorem mixedYields_isYield (j : Nat) : IsYield (mixedYields j) := by
  have hcode : Level YieldOp.nesting [.schedule] := .single rfl
  have hnest : IsNest YieldOp.nesting [.lock, .schedule, .unlock] := hcode.bracket rfl rfl
  rw [mixedYields]
  split
  · exact .inr ⟨hnest, by decide⟩
  · exact .inr ⟨(hcode.append hnest.level).bracket rfl rfl, by decide⟩

theorem mixedYields_shallow (j : Nat) : Shallow (mixedYields j) := by
  intro p hp
  have hheight := height_le_length (δ := YieldOp.nesting) (by intro e; cases e <;> decide) p
  have hlength := hp.length_le
  have hsix : (mixedYields j).length ≤ 6 := by
    rw [mixedYields]
    split
    · decide
    · decide
  omega

theorem round_robin_threeTasks :
    ∃ run : Nat → Scheduler, (∀ k, yields mixedYields k threeTasks = some (run k)) ∧
      (run 3).Cycle [4096, 8192, 12288] [] [] := by
  obtain ⟨run, hrun, hall⟩ := round_robin threeTasks_cycle mixedYields_isYield mixedYields_shallow
  exact ⟨run, hrun, (hall 0).2.2.2.2⟩

/-- A `schedule` so many sections deep. -/
def deepYield : Nat → List YieldOp
  | 0 => [.schedule]
  | n + 1 => .lock :: (deepYield n ++ [.unlock])

theorem deepYield_level (n : Nat) : Level YieldOp.nesting (deepYield n) := by
  induction n with
  | zero => exact .single rfl
  | succ n ih => exact (ih.bracket rfl rfl).level

theorem schedule_mem_deepYield (n : Nat) : .schedule ∈ deepYield n := by
  induction n with
  | zero => exact List.mem_cons_self
  | succ n ih => simp [deepYield, ih]

theorem deepYield_isYield (n : Nat) : IsYield (deepYield (n + 1)) :=
  .inr ⟨(deepYield_level n).bracket rfl rfl, schedule_mem_deepYield (n + 1)⟩

theorem prefix_deepYield (n : Nat) : List.replicate n .lock ++ [.schedule] <+: deepYield n := by
  induction n with
  | zero => exact List.prefix_rfl
  | succ n ih =>
    rw [List.replicate_succ, List.cons_append, deepYield]
    exact List.cons_prefix_cons.mpr ⟨rfl, ih.trans (List.prefix_append _ _)⟩

theorem execute_locks (n : Nat) (s : Scheduler) :
    ∃ s₁, execute YieldOp.run (List.replicate n .lock) s = some s₁ ∧ s₁.tasks = s.tasks ∧
      s₁.locks.taskSwitchesPostponedFlag = s.locks.taskSwitchesPostponedFlag ∧
      s₁.locks.postponeTaskSwitchesCounter
        = s.locks.postponeTaskSwitchesCounter + BitVec.ofNat 32 n := by
  induction n with
  | zero => exact ⟨s, rfl, rfl, rfl, (BitVec.add_zero _).symm⟩
  | succ n ih =>
    obtain ⟨s₁, hrun, ht, hf, hp⟩ := ih
    refine ⟨s₁.lockScheduler, ?_, ht, hf, ?_⟩
    · rw [List.replicate_succ', execute_append, hrun]
      rfl
    · change s₁.locks.postponeTaskSwitchesCounter + 1 = _
      rw [hp, BitVec.add_assoc, BitVec.ofNat_add]
      rfl

/-- **`2 ^ 32` sections deep** `schedule` switches at once. -/
theorem deepYield_switches : ¬ ∀ ops, IsYield ops → ∃ s', Rotates ops threeTasks s' := by
  intro hall
  obtain ⟨n, hn⟩ : ∃ n, n + 1 = 4294967296 := ⟨4294967295, rfl⟩
  obtain ⟨-, -, hinside⟩ := hall (deepYield (n + 1)) (deepYield_isYield n)
  obtain ⟨s₂, hrun, ht₂⟩ := hinside _ (prefix_deepYield (n + 1)) fun he => by
    have hlast := congrArg List.getLast? he
    rw [deepYield, ← List.cons_append, List.getLast?_concat, List.getLast?_concat] at hlast
    cases hlast
  obtain ⟨s₁, hlocks, ht, hf, hp⟩ := execute_locks (n + 1) threeTasks
  rw [execute_append, hlocks, Option.bind_some] at hrun
  have hcall : callSchedule .afterSchedule s₁ = some s₂ := (Option.bind_fun_some _).symm.trans hrun
  have hquiet : s₁.locks.Quiet := ⟨by rw [hp, hn]; decide, hf.trans rfl⟩
  have hswitch := (callSchedule_spec hquiet hcall).2.2 (by rw [ht]; decide)
  rw [ht₂, ht] at hswitch
  exact absurd (congrArg Tasks.currentTaskPCB hswitch) (by decide)

end Scheduler

/-! ### In every run -/

namespace Tasks

variable {t t' : Tasks} {r sl d : List Nat} {n : Nat} {site : Resume}

/-- The tasks that wait have a stack to come back to. -/
def Resumable (t : Tasks) (r sl : List Nat) : Prop := ∀ a ∈ r ++ sl, (t.tcb a).esp.Returns

theorem Resumable.createKernelTask {newTask stackBase : Nat} (h : t.Resumable r sl) :
    (t.createKernelTask newTask stackBase).Resumable (r ++ [newTask]) sl := by
  intro a ha
  have hrel := ((Relinked.refl (t.fillTask newTask stackBase)).enqueue (a := newTask)).esp a
  rw [Tasks.createKernelTask, hrel]
  by_cases hn : a = newTask
  · simp [fillTask, Tasks.setTcb, hn, Resume.Returns]
  · have ha' : a ∈ r ++ sl := by
      simp only [List.mem_append, List.mem_singleton] at ha ⊢
      tauto
    simpa [fillTask, Tasks.setTcb, hn] using h a ha'

theorem Resumable.reschedule {t₀ : Tasks} (h : t₀.Resumable (n :: r) sl) (hs : t₀.SameStacks t)
    {r' sl' : List Nat} (hsite : t.currentTaskPCB ∈ r' ++ sl' → site.Returns)
    (hmem : ∀ a ∈ r' ++ sl', a = t.currentTaskPCB ∨ a ∈ n :: r ++ sl) :
    (t.reschedule site).Resumable r' sl' := by
  intro a ha
  rw [esp_reschedule]
  split
  · rename_i e
    exact hsite (e ▸ ha)
  · rename_i hne
    rw [hs.esp]
    exact h a ((hmem a ha).resolve_left hne)

/-- A task that has ended does not come back. -/
theorem Resumable.reschedule_dead {t₀ : Tasks} (h : t₀.Resumable (n :: r) sl)
    (hs : t₀.SameStacks t) (hc : t₀.currentTaskPCB ∉ n :: r ++ sl ++ d) :
    (t.reschedule site).Resumable r sl := by
  rw [List.cons_append, List.cons_append, List.mem_cons, List.mem_append, not_or, not_or] at hc
  refine h.reschedule hs (fun hm => ?_) fun a ha => .inr (List.mem_cons_of_mem _ ha)
  rw [hs.currentTaskPCB] at hm
  exact absurd hm hc.2.1

end Tasks

/-- The invariant between two calls, with the stacks. -/
structure Scheduler.Resumes (s : Scheduler) : Prop where
  quiet : s.locks.Quiet
  blocks : s.tasks.Blocks
  placed : ∃ r sl d, s.tasks.Placed r sl d ∧ s.tasks.Resumable r sl

/-- **A call keeps the stacks** of the tasks that wait. -/
theorem SchedStep.resumes {s s' : Scheduler} {e : SchedCall} (hs : SchedStep s e s')
    (h : s.Resumes) : s'.Resumes := by
  obtain ⟨hq, hb, r, sl, d, hp, hr⟩ := h
  obtain ⟨hq', hb', -⟩ := hs.settled ⟨hq, hb, r, sl, d, hp⟩
  obtain ⟨-, heff⟩ := hs.effect hq
  suffices h : ∃ r sl d, s'.tasks.Placed r sl d ∧ s'.tasks.Resumable r sl from ⟨hq', hb', h⟩
  generalize s'.tasks = t' at heff ⊢
  cases heff with
  | createKernelTask hf =>
    exact ⟨_, _, _, hp.createKernelTask (hf.notMem hb) hf.task_ne, hr.createKernelTask⟩
  | alone => exact ⟨r, sl, d, hp, hr⟩
  | schedule hf =>
    obtain ⟨n, r', rfl⟩ := hp.lists.exists_cons hf
    refine ⟨_, _, _, hp.reschedule, hr.reschedule ⟨rfl, rfl, fun _ => rfl⟩ (fun _ => trivial) ?_⟩
    intro a ha
    simp only [List.mem_append, List.mem_cons, List.not_mem_nil, or_false] at ha ⊢
    tauto
  | @microSleepUntil us hf =>
    obtain ⟨n, r', rfl⟩ := hp.lists.exists_cons hf
    have hsame : s.tasks.SameStacks ((s.tasks.microSleepUntil us).blockTask taskStateSleeping) :=
      Tasks.SameStacks.microSleepUntil.trans (.setTcb rfl)
    refine ⟨_, _, _, hp.microSleepUntil.reschedule, hr.reschedule hsame (fun _ => trivial) ?_⟩
    intro a ha
    rw [hsame.currentTaskPCB]
    simp only [List.mem_append, List.mem_cons] at ha ⊢
    tauto
  | irq0Handler ht =>
    have hrel := (Tasks.Relinked.refl s.tasks.addTick).wakeLoop ht
    refine ⟨_, _, _, hp.tick ht, fun a ha => ?_⟩
    rw [hrel.esp]
    refine hr a ?_
    simp only [List.mem_append, List.mem_filter] at ha ⊢
    tauto
  | terminateTask hf =>
    obtain ⟨n, r', rfl⟩ := hp.lists.exists_cons hf
    have hsame : s.tasks.SameStacks (s.tasks.terminateTask.blockTask taskStateTerminated) :=
      Tasks.SameStacks.terminateTask.trans (.setTcb rfl)
    exact ⟨_, _, _, hp.terminateTask.reschedule, hr.reschedule_dead hsame hp.current_notMem⟩
  | markTaskForDeath hf =>
    obtain ⟨n, r', rfl⟩ := hp.lists.exists_cons hf
    have hstate : s.tasks.SameStacks (s.tasks.setState s.tasks.currentTaskPCB taskStateDead) :=
      .setTcb rfl
    have hsame : s.tasks.SameStacks s.tasks.markTaskForDeath := hstate.trans .terminateTask
    exact ⟨_, _, _, hp.markTaskForDeath.reschedule, hr.reschedule_dead hsame hp.current_notMem⟩
  | deadTasksCleanup ht =>
    obtain ⟨-, -, live, created, rfl⟩ := hp.lists.deadTasksCleanup ht
    exact ⟨_, _, _, hp.deadTasksCleanup ht, hr⟩

/-- The running task and the ready queue, **in every state of every run**, can yield
round-robin. -/
theorem sched_run_cycle {kernelTask ticks : Nat} {tcb : Nat → TaskControlBlock}
    {live : Nat → Bool} {es : List SchedCall} {s : Scheduler} (hk : kernelTask ≠ 0)
    (h0 : live 0 = false)
    (hrun : Trace SchedStep (Scheduler.multitaskingInitialize kernelTask ticks tcb live) es s) :
    ∃ q sl d, s.Cycle (s.tasks.currentTaskPCB :: q) sl d := by
  have hinit : (Scheduler.multitaskingInitialize kernelTask ticks tcb live).Resumes :=
    ⟨⟨rfl, rfl⟩, multitaskingInitialize_blocks hk h0, [], [], [],
      multitaskingInitialize_placed hk, fun _ ha => absurd ha List.not_mem_nil⟩
  obtain ⟨hq, -, r, sl, d, hp, hr⟩ := hrun.invariant hinit fun _ _ _ h hs => hs.resumes h
  exact ⟨r, sl, d, hq, hp, rfl, fun a ha => hr a (List.mem_append_left _ ha)⟩

end ChoOS
