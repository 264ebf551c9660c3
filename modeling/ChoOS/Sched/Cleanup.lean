import ChoOS.Heap.Store
import ChoOS.Sched.Wake
import ChoOS.Sched.WakeUp

/-!
# Giving back the memory of dead tasks

`TaskHeap` is the scheduler together with the heap of `allocators.c`: a task's
control block and its stack are two allocations of that heap, and other code
allocates there too.  `dead_tasks_cleanup` is followed access by access
(`cleanupOps`): it reads two fields of every dead control block, frees the stack
and then the block.  A read needs a live block, and so does `kfree`
(`CleanupStep`); so a run of the accesses through the heap says that no block is
freed that is not live and none is read after it was freed.

`Cleaned` is what is wanted of the call.  The initial kernel task runs on the stack
of the boot loader and its `stack_base` is `NULL`, which `dead_tasks_cleanup` hands
to `kfree` like any other.  `dead_tasks_cleanup_frees` says that nothing else goes
wrong: the call does what it is for exactly when the initial kernel task is not
among the dead.
-/

namespace ChoOS

variable {ε : Type}

/-! ### The accesses of the loop -/

/-- One access of `dead_tasks_cleanup`. -/
inductive CleanupOp
  /-- A field of a control block. -/
  | read (node : Nat)
  | kfree (ptr : Nat)

/-- The accesses of the loop from `node` on: `node->next`, `node->stack_base`, and the
two calls of `kfree`. -/
def Tasks.cleanupOps (t : Tasks) : Nat → Nat → List CleanupOp
  | 0, _ => []
  | fuel + 1, node =>
    if node = 0 then []
    else [.read node, .read node, .kfree (t.tcb node).stackBase, .kfree node]
      ++ t.cleanupOps fuel (t.next node)

/-- The pointers passed to `kfree`. -/
def CleanupOp.freed : List CleanupOp → List Nat
  | [] => []
  | .read _ :: ops => freed ops
  | .kfree ptr :: ops => ptr :: freed ops

/-- An access to the heap; only live blocks may be read or freed. -/
inductive CleanupStep : Client ε → CleanupOp → Client ε → Prop
  | read {c : Client ε} {node : Nat} : (c.live node).isSome → CleanupStep c (.read node) c
  | kfree {c : Client ε} {ptr : Nat} {h' : Heap ε} : (c.live ptr).isSome →
      kfree ptr c.heap = some h' →
      CleanupStep c (.kfree ptr) ⟨h', Function.update c.live ptr none⟩

/-- The blocks of a list of tasks, a stack and a control block for each. -/
def Tasks.taskBlocks (t : Tasks) : List Nat → List Nat
  | [] => []
  | a :: l => (t.tcb a).stackBase :: a :: t.taskBlocks l

/-- A map without the keys of a list. -/
def withoutAll {α : Type} (f : Nat → Option α) (l : List Nat) (p : Nat) : Option α :=
  if p ∈ l then none else f p

section Accesses

variable {c c' : Client ε} {ptr : Nat} {op : CleanupOp} {ops : List CleanupOp} {t : Tasks}

theorem CleanupOp.freed_append (ops ops' : List CleanupOp) :
    freed (ops ++ ops') = freed ops ++ freed ops' := by
  induction ops with
  | nil => rfl
  | cons op ops ih =>
    cases op with
    | read node => exact ih
    | kfree ptr => exact congrArg (ptr :: ·) ih

theorem withoutAll_nil {α : Type} (f : Nat → Option α) : withoutAll f [] = f := by
  funext p
  simp [withoutAll]

theorem withoutAll_concat {α : Type} (f : Nat → Option α) (l : List Nat) (p : Nat) :
    Function.update (withoutAll f l) p none = withoutAll f (l ++ [p]) := by
  funext q
  by_cases hq : q = p
  · subst hq
    simp [withoutAll]
  · simp [withoutAll, hq]

/-- **One access** takes what it frees from the live pointers and from the store. -/
theorem CleanupStep.spec (hI : c.Inv) (hs : CleanupStep c op c') :
    c'.Inv ∧ (∀ p ∈ CleanupOp.freed [op], (c.live p).isSome) ∧
      c'.live = withoutAll c.live (CleanupOp.freed [op]) ∧
      c'.store = withoutAll c.store (CleanupOp.freed [op]) := by
  cases hs with
  | read hn => exact ⟨hI, by simp [CleanupOp.freed], (withoutAll_nil _).symm, (withoutAll_nil _).symm⟩
  | @kfree ptr h' hp hk =>
    obtain ⟨bs, hI⟩ := hI
    obtain ⟨n, hn⟩ := Option.isSome_iff_exists.mp hp
    obtain ⟨h'', hk', -, -, hI', hu⟩ := kfree_spec hI hn
    obtain rfl := Option.some.inj (hk.symm.trans hk')
    have hone {α : Type} (f : Nat → Option α) : Function.update f ptr none = withoutAll f [ptr] := by
      rw [← withoutAll_nil f, withoutAll_concat, withoutAll_nil, List.nil_append]
    refine ⟨hI', ?_, hone _, (store_free hu).trans (hone _)⟩
    intro p hp'
    rw [List.mem_singleton.mp hp', hn]
    rfl

/-- **A run of accesses** frees live pointers only, and leaves the others alone. -/
theorem cleanup_run (hI : c.Inv) (h : Trace CleanupStep c ops c') :
    c'.Inv ∧ (∀ p ∈ CleanupOp.freed ops, (c.live p).isSome) ∧
      c'.live = withoutAll c.live (CleanupOp.freed ops) ∧
      c'.store = withoutAll c.store (CleanupOp.freed ops) := by
  induction h with
  | nil => exact ⟨hI, by simp [CleanupOp.freed], (withoutAll_nil _).symm, (withoutAll_nil _).symm⟩
  | @snoc ops c₁ c₂ op _ hs ih =>
    obtain ⟨hI₁, hlive₁, hl₁, hst₁⟩ := ih
    obtain ⟨hI₂, hlive₂, hl₂, hst₂⟩ := hs.spec hI₁
    have happend {α : Type} (f : Nat → Option α) :
        withoutAll (withoutAll f (CleanupOp.freed ops)) (CleanupOp.freed [op])
          = withoutAll f (CleanupOp.freed (ops ++ [op])) := by
      funext p
      rw [CleanupOp.freed_append]
      simp only [withoutAll, List.mem_append]
      split <;> split <;> simp_all
    refine ⟨hI₂, ?_, ?_, ?_⟩
    · intro p hp
      rw [CleanupOp.freed_append, List.mem_append] at hp
      rcases hp with hp | hp
      · exact hlive₁ p hp
      · -- what is live later was live before
        have hp := hlive₂ p hp
        rw [hl₁, withoutAll] at hp
        split at hp
        · cases hp
        · exact hp
    · rw [hl₂, hl₁, happend]
    · rw [hst₂, hst₁, happend]

theorem CleanupStep.exists_kfree (hI : c.Inv) (hp : (c.live ptr).isSome) :
    ∃ c', CleanupStep c (.kfree ptr) c' := by
  obtain ⟨bs, hI⟩ := hI
  obtain ⟨n, hn⟩ := Option.isSome_iff_exists.mp hp
  obtain ⟨h', hk, -⟩ := kfree_spec hI hn
  exact ⟨_, .kfree hp hk⟩

theorem Tasks.mem_taskBlocks {p : Nat} : ∀ {d : List Nat},
    p ∈ t.taskBlocks d ↔ ∃ a ∈ d, p = (t.tcb a).stackBase ∨ p = a := by
  intro d
  induction d with
  | nil => simp [taskBlocks]
  | cons a d ih =>
    simp only [taskBlocks, List.mem_cons, ih, exists_eq_or_imp, or_assoc]

theorem Tasks.freed_cleanupOps : ∀ (d : List Nat) (fuel node : Nat), Seg t.next node d 0 → 0 ∉ d →
    d.length < fuel → CleanupOp.freed (t.cleanupOps fuel node) = t.taskBlocks d := by
  intro d
  induction d with
  | nil =>
    intro fuel node hseg _ hfuel
    obtain rfl : node = 0 := hseg
    obtain ⟨fuel, rfl⟩ := Nat.exists_eq_succ_of_ne_zero (Nat.ne_of_gt hfuel)
    rw [cleanupOps, if_pos rfl]
    rfl
  | cons a d ih =>
    intro fuel node hseg h0 hfuel
    obtain ⟨rfl, hseg⟩ := hseg
    simp only [List.mem_cons, not_or] at h0
    obtain ⟨fuel, rfl⟩ := Nat.exists_eq_succ_of_ne_zero (Nat.ne_of_gt (Nat.zero_lt_of_lt hfuel))
    have htail := ih fuel (t.next node) hseg h0.2 (Nat.lt_of_succ_lt_succ hfuel)
    rw [cleanupOps, if_neg (Ne.symm h0.1), CleanupOp.freed_append, htail]
    rfl

/-- **The accesses for a list of tasks** can all be made when their blocks are live
and different. -/
theorem exists_cleanup (t : Tasks) : ∀ (d : List Nat) (fuel node : Nat) (c : Client ε),
    c.Inv → Seg t.next node d 0 → 0 ∉ d → d.length < fuel → (t.taskBlocks d).Nodup →
    (∀ p ∈ t.taskBlocks d, (c.live p).isSome) →
    ∃ c', Trace CleanupStep c (t.cleanupOps fuel node) c' := by
  intro d
  induction d with
  | nil =>
    intro fuel node c _ hseg _ hfuel _ _
    obtain rfl : node = 0 := hseg
    obtain ⟨fuel, rfl⟩ := Nat.exists_eq_succ_of_ne_zero (Nat.ne_of_gt hfuel)
    rw [Tasks.cleanupOps, if_pos rfl]
    exact ⟨c, .nil⟩
  | cons a d ih =>
    intro fuel node c hI hseg h0 hfuel hnodup hlive
    obtain ⟨rfl, hseg⟩ := hseg
    simp only [List.mem_cons, not_or] at h0
    obtain ⟨fuel, rfl⟩ := Nat.exists_eq_succ_of_ne_zero (Nat.ne_of_gt (Nat.zero_lt_of_lt hfuel))
    simp only [Tasks.taskBlocks, List.nodup_cons, List.mem_cons, not_or] at hnodup
    obtain ⟨⟨hsa, hsd⟩, had, hnodup⟩ := hnodup
    have hnode := hlive node (by simp [Tasks.taskBlocks])
    obtain ⟨c₁, hstep₁⟩ :=
      CleanupStep.exists_kfree hI (hlive (t.tcb node).stackBase (by simp [Tasks.taskBlocks]))
    obtain ⟨hI₁, -, hl₁, -⟩ := hstep₁.spec hI
    have hnode₁ : (c₁.live node).isSome := by
      rw [hl₁, withoutAll, if_neg (by simpa [CleanupOp.freed] using Ne.symm hsa)]
      exact hnode
    obtain ⟨c₂, hstep₂⟩ := CleanupStep.exists_kfree hI₁ hnode₁
    have hhead : Trace CleanupStep c
        [.read node, .read node, .kfree (t.tcb node).stackBase, .kfree node] c₂ :=
      (((Trace.nil.snoc (.read hnode)).snoc (.read hnode)).snoc hstep₁).snoc hstep₂
    obtain ⟨hI₂, -, hl₂, -⟩ := cleanup_run hI hhead
    -- the blocks of the other tasks are still live
    have hrest : ∀ p ∈ t.taskBlocks d, (c₂.live p).isSome := by
      intro p hp
      have hpn : p ≠ node := fun e => had (e ▸ hp)
      have hps : p ≠ (t.tcb node).stackBase := fun e => hsd (e ▸ hp)
      rw [hl₂, withoutAll, if_neg (by simp [CleanupOp.freed, hps, hpn])]
      exact hlive p (by simp [Tasks.taskBlocks, hp])
    obtain ⟨c', hrun⟩ := ih fuel (t.next node) c₂ hI₂ hseg h0.2 (Nat.lt_of_succ_lt_succ hfuel)
      hnodup hrest
    rw [Tasks.cleanupOps, if_neg (Ne.symm h0.1)]
    exact ⟨c', hhead.append hrun⟩

end Accesses

/-! ### The loop on the tasks -/

namespace Tasks

variable {t t' : Tasks} {r sl d : List Nat}

theorem taskBlocks_congr (h : ∀ z, (t'.tcb z).stackBase = (t.tcb z).stackBase) :
    t'.taskBlocks d = t.taskBlocks d := by
  induction d with
  | nil => rfl
  | cons a d ih => rw [taskBlocks, taskBlocks, ih, h]

/-- **The loop of `dead_tasks_cleanup`** ends when the blocks of its tasks are live and
different. -/
theorem exists_freeLoop : ∀ (d : List Nat) (fuel node : Nat) (t : Tasks),
    Seg t.next node d 0 → 0 ∉ d → d.length < fuel → (t.taskBlocks d).Nodup →
    (∀ p ∈ t.taskBlocks d, t.live p = true) →
    ∃ t', t.freeLoop fuel node = some t' ∧
      ∀ p, t'.live p = (t.live p && decide (p ∉ t.taskBlocks d)) := by
  intro d
  induction d with
  | nil =>
    intro fuel node t hseg _ hfuel _ _
    obtain rfl : node = 0 := hseg
    obtain ⟨fuel, rfl⟩ := Nat.exists_eq_succ_of_ne_zero (Nat.ne_of_gt hfuel)
    rw [freeLoop, if_pos rfl]
    exact ⟨t, rfl, by simp [taskBlocks]⟩
  | cons a d ih =>
    intro fuel node t hseg h0 hfuel hnodup hlive
    obtain ⟨rfl, hseg⟩ := hseg
    simp only [List.mem_cons, not_or] at h0
    obtain ⟨fuel, rfl⟩ := Nat.exists_eq_succ_of_ne_zero (Nat.ne_of_gt (Nat.zero_lt_of_lt hfuel))
    simp only [taskBlocks, List.nodup_cons, List.mem_cons, not_or] at hnodup
    obtain ⟨⟨hsa, hsd⟩, had, hnodup⟩ := hnodup
    have hstack := hlive (t.tcb node).stackBase (by simp [taskBlocks])
    have hnode := hlive node (by simp [taskBlocks])
    obtain ⟨t₁, ht₁⟩ : ∃ t₁ : Tasks, t₁ = { t with
        live := Function.update (Function.update t.live (t.tcb node).stackBase false) node false
        created := t.created.erase node } := ⟨_, rfl⟩
    have hfree : t.freeTask node = some t₁ := by
      have hnode₁ : Function.update t.live (t.tcb node).stackBase false node = true := by
        rw [Function.update_of_ne (Ne.symm hsa), hnode]
      simp only [freeTask, kfree, hstack, if_true, Option.bind_eq_bind, Option.bind_some, hnode₁, ht₁]
      rfl
    have hkeep : ∀ p, p ≠ node → p ≠ (t.tcb node).stackBase → t₁.live p = t.live p := by
      intro p hpn hps
      rw [ht₁]
      dsimp only
      rw [Function.update_of_ne hpn, Function.update_of_ne hps]
    have hblocks : ∀ d, t₁.taskBlocks d = t.taskBlocks d := by
      intro d
      exact taskBlocks_congr fun z => by rw [ht₁]
    obtain ⟨t', hrun, hlive'⟩ := ih fuel (t.next node) t₁ (ht₁ ▸ hseg) h0.2
      (Nat.lt_of_succ_lt_succ hfuel) (hblocks d ▸ hnodup) (by
        intro p hp
        rw [hblocks] at hp
        rw [hkeep p (fun e => had (e ▸ hp)) fun e => hsd (e ▸ hp)]
        exact hlive p (by simp [taskBlocks, hp]))
    refine ⟨t', ?_, ?_⟩
    · rw [freeLoop, if_neg (Ne.symm h0.1), hfree]
      exact hrun
    · intro p
      rw [hlive', hblocks]
      by_cases hpn : p = node
      · simp [taskBlocks, hpn, ht₁]
      · by_cases hps : p = (t.tcb node).stackBase
        · have hne : (t.tcb node).stackBase ≠ node := hps ▸ hpn
          simp [taskBlocks, hps, ht₁, hne]
        · simp [taskBlocks, hpn, hps, hkeep p hpn hps]

theorem Blocks.taskBlocks_nodup (h : t.Blocks) (hd : ∀ a ∈ d, a ∈ t.created) (hnodup : d.Nodup)
    (hs : ∀ a ∈ d, (t.tcb a).stackBase ≠ 0) : (t.taskBlocks d).Nodup := by
  induction d with
  | nil => exact List.nodup_nil
  | cons a d ih =>
    obtain ⟨had, hnodup⟩ := List.nodup_cons.mp hnodup
    have ha := hd a List.mem_cons_self
    have hsa := hs a List.mem_cons_self
    have hstack := ((h.stack a ha).resolve_left hsa).2
    have hrest := ih (fun b hb => hd b (List.mem_cons_of_mem _ hb)) hnodup
      fun b hb => hs b (List.mem_cons_of_mem _ hb)
    simp only [taskBlocks, List.nodup_cons, List.mem_cons, not_or, mem_taskBlocks, not_exists, not_and]
    have hne : (t.tcb a).stackBase ≠ a := by
      intro e
      rw [e] at hstack
      exact hstack ha
    refine ⟨⟨hne, ?_⟩, ?_, hrest⟩
    · intro b hb
      have hbc := hd b (List.mem_cons_of_mem _ hb)
      refine ⟨fun e => ?_, fun e => hstack (e ▸ hbc)⟩
      rcases h.apart a ha b hbc e with hab | h0
      · exact had (hab ▸ hb)
      · exact hsa h0
    · intro b hb
      have hbc := hd b (List.mem_cons_of_mem _ hb)
      have hsb := hs b (List.mem_cons_of_mem _ hb)
      refine ⟨fun e => ((h.stack b hbc).resolve_left hsb).2 (e ▸ ha), fun e => had (e ▸ hb)⟩

theorem Blocks.taskBlocks_live (h : t.Blocks) (hd : ∀ a ∈ d, a ∈ t.created)
    (hs : ∀ a ∈ d, (t.tcb a).stackBase ≠ 0) : ∀ p ∈ t.taskBlocks d, t.live p = true := by
  intro p hp
  obtain ⟨a, ha, rfl | rfl⟩ := mem_taskBlocks.mp hp
  · exact ((h.stack a (hd a ha)).resolve_left (hs a ha)).1
  · exact h.task p (hd p ha)

end Tasks

/-! ### The kernel -/

/-- `sizeof(struct TaskControlBlock)`, which is packed. -/
def sizeofTaskControlBlock : Nat := 44

/-- `KERNEL_STACK_SIZE` -/
def kernelStackSize : Nat := pageSize * 4

/-- The scheduler and the heap it allocates from. -/
structure TaskHeap (ε : Type) where
  sched : Scheduler
  pc : TaskPc
  client : Client ε

inductive TaskHeapEvent
  | task (e : TaskEvent)
  /-- A call of other code into the heap. -/
  | heap (e : HeapEvent)

/-- The blocks that belong to the tasks. -/
def Tasks.Owns (t : Tasks) (p : Nat) : Prop :=
  p ≠ 0 ∧ ∃ a ∈ t.created, p = a ∨ p = (t.tcb a).stackBase

/-- The blocks that are handed out, after a call of other code. -/
def Scheduler.setLive (live : Nat → Bool) (s : Scheduler) : Scheduler :=
  s.onTasks fun t => { t with live := live }

def Client.handedOut (c : Client ε) (p : Nat) : Bool := (c.live p).isSome

/-- One step.  `create_kernel_task` allocates and `dead_tasks_cleanup` frees; the
other calls of the scheduler leave the heap alone, and other code leaves the blocks
of the tasks alone. -/
inductive TaskHeapStep (legal : Legal ε) : TaskHeap ε → TaskHeapEvent → TaskHeap ε → Prop
  | task {k : TaskHeap ε} {e : TaskEvent} {s' : Scheduler} {pc' : TaskPc} :
      (∀ newTask stackBase, e ≠ .createKernelTask newTask stackBase) → e ≠ .deadTasksCleanup →
      (e = .irq0Handler → k.sched.locks.interruptFlag = true) →
      e.run k.sched k.pc = some (s', pc') → TaskHeapStep legal k (.task e) ⟨s', pc', k.client⟩
  | createKernelTask {k : TaskHeap ε} {newTask stackBase : Nat} {s' : Scheduler} {pc' : TaskPc}
      {c₁ c₂ : Client ε} :
      HeapStep legal k.client (.kmalloc sizeofTaskControlBlock newTask) c₁ → newTask ≠ 0 →
      HeapStep legal c₁ (.kmalloc kernelStackSize stackBase) c₂ → stackBase ≠ 0 →
      TaskEvent.run (.createKernelTask newTask stackBase) k.sched k.pc = some (s', pc') →
      TaskHeapStep legal k (.task (.createKernelTask newTask stackBase)) ⟨s', pc', c₂⟩
  | deadTasksCleanup {k : TaskHeap ε} {s' : Scheduler} {pc' : TaskPc} {c' : Client ε} :
      TaskEvent.run .deadTasksCleanup k.sched k.pc = some (s', pc') →
      Trace CleanupStep k.client
        (k.sched.tasks.cleanupOps walkFuel k.sched.tasks.deadTasks) c' →
      TaskHeapStep legal k (.task .deadTasksCleanup) ⟨s', pc', c'⟩
  | heap {k : TaskHeap ε} {e : HeapEvent} {c' : Client ε} :
      (∀ p i, k.sched.tasks.Owns p → ¬ e.Concerns p i) → HeapStep legal k.client e c' →
      TaskHeapStep legal k (.heap e) ⟨k.sched.setLive c'.handedOut, k.pc, c'⟩

/-- The kernel behind `multitasking_initialize`; `c` is the heap with the control block
of the kernel task. -/
def TaskHeap.start (kernelTask ticks : Nat) (tcb : Nat → TaskControlBlock) (c : Client ε) :
    TaskHeap ε :=
  ⟨Scheduler.multitaskingInitialize kernelTask ticks tcb c.handedOut, .user, c⟩

/-- What a run of the scheduler looks at: no call of `micro_sleep_until` waits. -/
def TaskHeap.worker (k : TaskHeap ε) : Worker := ⟨k.sched, k.pc, fun _ => none⟩

/-- A step whose `schedule` of `micro_sleep_until` finds a ready task, with no timer
interrupt that wakes the running task in front of it. -/
def OrderlyStep (legal : Legal ε) (k : TaskHeap ε) (e : TaskHeapEvent) (k' : TaskHeap ε) : Prop :=
  TaskHeapStep legal k e k' ∧ ∀ e', e = .task e' → Switches k.worker e'

/-- `dead_tasks_cleanup` has freed the memory of the dead tasks `d`, and nothing else
is changed. -/
structure Cleaned (k : TaskHeap ε) (r sl d : List Nat) (s' : Scheduler) (c' : Client ε) :
    Prop where
  call : k.sched.deadTasksCleanup = some s'
  accesses : Trace CleanupStep k.client
    (k.sched.tasks.cleanupOps walkFuel k.sched.tasks.deadTasks) c'
  freed : CleanupOp.freed (k.sched.tasks.cleanupOps walkFuel k.sched.tasks.deadTasks)
    = k.sched.tasks.taskBlocks d
  once : (k.sched.tasks.taskBlocks d).Nodup
  gone : ∀ p ∈ k.sched.tasks.taskBlocks d, c'.live p = none
  others : ∀ p ∉ k.sched.tasks.taskBlocks d,
    c'.live p = k.client.live p ∧ c'.store p = k.client.store p
  lists : s'.tasks.Lists r sl []
  kept : ∃ live created, s'.tasks
    = { k.sched.tasks with live := live, created := created, deadTasks := 0 }
  live : ∀ p, s'.tasks.live p = c'.handedOut p

/-- The scheduler is in order, its blocks are blocks of the heap, and the initial
kernel task is the one without a stack. -/
structure TaskHeap.Inv (kernelTask : Nat) (k : TaskHeap ε) : Prop where
  quiet : k.sched.locks.Quiet
  blocks : k.sched.tasks.Blocks
  places : ∃ r sl d, k.sched.tasks.AtSite k.pc r sl d
  heap : k.client.Inv
  live : ∀ p, k.sched.tasks.live p = k.client.handedOut p
  kernel : kernelTask ∈ k.sched.tasks.created
  stack : ∀ a ∈ k.sched.tasks.created, (k.sched.tasks.tcb a).stackBase = 0 ↔ a = kernelTask

section TaskHeap

variable {legal : Legal ε} {k k' : TaskHeap ε} {c c' : Client ε} {e : TaskHeapEvent} {s' : Scheduler}
variable {t t' : Tasks} {r sl d : List Nat} {kernelTask : Nat}

theorem Client.Inv.null (h : c.Inv) : c.live 0 = none := by
  obtain ⟨bs, hI⟩ := h
  cases hl : c.live 0 with
  | none => rfl
  | some n => exact absurd rfl (HeapInv.live_ne_null hI hl)

theorem Client.Inv.live_lt {p : Nat} (h : c.Inv) (hp : (c.live p).isSome) : p < 4294967296 := by
  obtain ⟨bs, hI⟩ := h
  obtain ⟨n, hn⟩ := Option.isSome_iff_exists.mp hp
  obtain ⟨b, hb, rfl⟩ := hI.mem_of_live _ _ hn
  have := HeapInv.bounds hI hb
  omega

/-- The call frees the blocks of the dead tasks, in this order. -/
theorem TaskHeap.Inv.freed_eq (h : k.Inv kernelTask) (hp : k.sched.tasks.AtSite k.pc r sl d) :
    d.length < walkFuel ∧ 0 ∉ d ∧
      CleanupOp.freed (k.sched.tasks.cleanupOps walkFuel k.sched.tasks.deadTasks)
        = k.sched.tasks.taskBlocks d := by
  have h0 : 0 ∉ d := fun h0 => hp.lists.nonnull (List.mem_append_right _ h0)
  have hfuel : d.length < walkFuel := by
    refine length_lt_walkFuel d (List.nodup_append.mp hp.lists.nodup).2.1 h0 fun z hz => ?_
    have hz := h.blocks.task z ((hp.created z).mpr (.inr (List.mem_append_right _ hz)))
    rw [h.live] at hz
    exact h.heap.live_lt hz
  exact ⟨hfuel, h0, Tasks.freed_cleanupOps d walkFuel _ hp.lists.dead h0 hfuel⟩

/-- **A dead list that can be freed.** -/
theorem TaskHeap.Inv.cleaned (h : k.Inv kernelTask) (hp : k.sched.tasks.AtSite k.pc r sl d)
    (hk : kernelTask ∉ d) : ∃ s' c', Cleaned k r sl d s' c' := by
  have hd : ∀ a ∈ d, a ∈ k.sched.tasks.created := by
    intro a ha
    exact (hp.created a).mpr (.inr (List.mem_append_right _ ha))
  have hs : ∀ a ∈ d, (k.sched.tasks.tcb a).stackBase ≠ 0 := by
    intro a ha h0
    exact hk ((h.stack a (hd a ha)).mp h0 ▸ ha)
  have honce := h.blocks.taskBlocks_nodup hd (List.nodup_append.mp hp.lists.nodup).2.1 hs
  have hlive := h.blocks.taskBlocks_live hd hs
  have hclive : ∀ p ∈ k.sched.tasks.taskBlocks d, (k.client.live p).isSome := by
    intro p hp
    have := hlive p hp
    rw [h.live] at this
    exact this
  obtain ⟨hfuel, h0, hfreed⟩ := h.freed_eq hp
  obtain ⟨t₁, hloop, hlive₁⟩ := Tasks.exists_freeLoop d walkFuel _ _ hp.lists.dead h0 hfuel honce hlive
  obtain ⟨c', hrun⟩ := exists_cleanup _ d walkFuel _ k.client h.heap hp.lists.dead h0 hfuel honce
    hclive
  obtain ⟨-, -, hlive', hstore'⟩ := cleanup_run h.heap hrun
  rw [hfreed] at hlive' hstore'
  have ht : k.sched.tasks.deadTasksCleanup = some (t₁.setDead 0) := by
    rw [Tasks.deadTasksCleanup, hloop]
    rfl
  have hcall : k.sched.deadTasksCleanup
      = some ⟨t₁.setDead 0, k.sched.locks.afterSection, k.sched.lostSwitch⟩ := by
    rw [Scheduler.deadTasksCleanup,
      Scheduler.criticalSection_eq (g := k.sched.tasks.deadTasksCleanup) h.quiet.unpostponed rfl, ht]
    rfl
  obtain ⟨hlists, -, hkept⟩ := hp.lists.deadTasksCleanup ht
  refine ⟨⟨t₁.setDead 0, k.sched.locks.afterSection, k.sched.lostSwitch⟩, c', ?_⟩
  exact
    { call := hcall
      accesses := hrun
      freed := hfreed
      once := honce
      gone := fun p hp => by rw [hlive', withoutAll, if_pos hp]
      others := fun p hp => by
        rw [hlive', hstore', withoutAll, withoutAll, if_neg hp, if_neg hp]
        exact ⟨rfl, rfl⟩
      lists := hlists
      kept := hkept
      live := fun p => by
        refine (hlive₁ p).trans ?_
        rw [h.live, Client.handedOut, Client.handedOut, hlive', withoutAll]
        split <;> simp_all }

/-- **The stack of the initial kernel task cannot be freed.** -/
theorem TaskHeap.Inv.notMem (h : k.Inv kernelTask) (hp : k.sched.tasks.AtSite k.pc r sl d)
    (hrun : Trace CleanupStep k.client
      (k.sched.tasks.cleanupOps walkFuel k.sched.tasks.deadTasks) c') : kernelTask ∉ d := by
  intro hk
  have h0 : 0 ∈ k.sched.tasks.taskBlocks d := by
    refine Tasks.mem_taskBlocks.mpr ⟨kernelTask, hk, .inl ?_⟩
    exact ((h.stack kernelTask h.kernel).mpr rfl).symm
  have hlive := (cleanup_run h.heap hrun).2.1 0 ((h.freed_eq hp).2.2 ▸ h0)
  rw [h.heap.null] at hlive
  cases hlive

/-- The call frees the memory of the dead tasks exactly when the initial kernel task is
not among them. -/
theorem TaskHeap.Inv.cleaned_iff (h : k.Inv kernelTask) (hp : k.sched.tasks.AtSite k.pc r sl d) :
    (∃ s' c', Cleaned k r sl d s' c') ↔ kernelTask ∉ d := by
  refine ⟨?_, h.cleaned hp⟩
  rintro ⟨s', c', hc⟩
  exact h.notMem hp hc.accesses

/-! ### Steps of the kernel -/

theorem HeapStep.fresh {size r : Nat} (hl : LegalCalls legal) (hI : c.Inv)
    (hs : HeapStep legal c (.kmalloc size r) c') (hr : r ≠ 0) :
    c.live r = none ∧ c'.live = Function.update c.live r (some size) := by
  obtain ⟨bs, hI⟩ := hI
  cases hs with
  | kmalloc hc hk =>
    obtain ⟨r', h', hk', hres, -⟩ := legal_kmalloc hl hI hc
    obtain ⟨rfl, rfl⟩ := Prod.mk.inj (Option.some.inj (hk.symm.trans hk'))
    rcases hres with ⟨h0, -⟩ | ⟨-, hfresh, -⟩
    · exact absurd h0 hr
    · exact ⟨hfresh, liveAlloc_of_ne _ _ hr⟩

theorem Moves.sameBlocks {pc pc' : TaskPc} {e : TaskEvent} (hm : Moves t pc e t' pc')
    (hcreate : ∀ newTask stackBase, e ≠ .createKernelTask newTask stackBase)
    (hclean : e ≠ .deadTasksCleanup) : t.SameBlocks t' := by
  have hsame : t.SameBlocks t := ⟨rfl, rfl, fun _ => rfl⟩
  cases hm with
  | create => exact absurd rfl (hcreate _ _)
  | idle _ _ => exact hsame
  | schedule _ _ => exact .reschedule
  | sleep => exact .microSleepUntil
  | block => exact .setState
  | goOn _ => exact hsame
  | switch _ => exact .reschedule
  | terminate => exact .terminateTask
  | terminateBlock => exact .setState
  | mark => exact .markTaskForDeath
  | leave _ => exact .reschedule
  | cleanup _ => exact absurd rfl hclean
  | tick ht => exact .tick ht

theorem Moves.create_eq {pc pc' : TaskPc} {newTask stackBase : Nat}
    (hm : Moves t pc (.createKernelTask newTask stackBase) t' pc') :
    t' = t.createKernelTask newTask stackBase := by
  cases hm with
  | create => rfl
  | idle he _ => rcases he with he | he <;> cases he
  | schedule he _ => rcases he with he | he <;> cases he

theorem Moves.cleanup_eq {pc pc' : TaskPc} (hm : Moves t pc .deadTasksCleanup t' pc') :
    t.deadTasksCleanup = some t' := by
  cases hm with
  | cleanup ht => exact ht
  | idle he _ => rcases he with he | he <;> cases he
  | schedule he _ => rcases he with he | he <;> cases he

theorem TaskHeap.Inv.heapStep {e : HeapEvent} (h : k.Inv kernelTask) (hl : LegalCalls legal)
    (hown : ∀ p i, k.sched.tasks.Owns p → ¬ e.Concerns p i) (hs : HeapStep legal k.client e c') :
    TaskHeap.Inv kernelTask ⟨k.sched.setLive c'.handedOut, k.pc, c'⟩ := by
  have hI' := hs.inv hl h.heap
  have hkeep : ∀ p, k.sched.tasks.Owns p → k.sched.tasks.live p = true →
      c'.handedOut p = true := by
    intro p hp hlive
    rw [h.live] at hlive
    obtain ⟨n, hn⟩ := Option.isSome_iff_exists.mp hlive
    exact Option.isSome_iff_exists.mpr ⟨n, (hs.keeps hl h.heap (fun i => hown p i hp) hn).1⟩
  have hnull : ∀ a ∈ k.sched.tasks.created, a ≠ 0 := by
    rintro a ha rfl
    have := h.blocks.task 0 ha
    rw [h.blocks.null] at this
    cases this
  obtain ⟨r, sl, d, hp⟩ := h.places
  refine ⟨h.quiet, ⟨?_, ?_, ?_, h.blocks.apart⟩, ⟨r, sl, d, ?_⟩, hI', fun _ => rfl, h.kernel, h.stack⟩
  · change c'.handedOut 0 = false
    rw [Client.handedOut, hI'.null]
    rfl
  · intro a ha
    exact hkeep a ⟨hnull a ha, a, ha, .inl rfl⟩ (h.blocks.task a ha)
  · intro a ha
    by_cases h0 : (k.sched.tasks.tcb a).stackBase = 0
    · exact .inl h0
    · obtain ⟨hlive, hout⟩ := (h.blocks.stack a ha).resolve_left h0
      exact .inr ⟨hkeep _ ⟨h0, a, ha, .inr rfl⟩ hlive, hout⟩
  · exact ⟨⟨hp.lists.ready, hp.lists.sleeping, hp.lists.dead, hp.lists.last, hp.lists.nodup,
      hp.lists.nonnull⟩, hp.current_ne, hp.created, hp.states, by cases hpc : k.pc <;> exact hpc ▸ hp.place⟩

/-- **`create_kernel_task`** on two fresh allocations. -/
theorem TaskHeap.Inv.createKernelTask {newTask stackBase : Nat} {pc' : TaskPc} {c₁ c₂ : Client ε}
    (h : k.Inv kernelTask) (hl : LegalCalls legal)
    (hs₁ : HeapStep legal k.client (.kmalloc sizeofTaskControlBlock newTask) c₁)
    (hnew : newTask ≠ 0) (hs₂ : HeapStep legal c₁ (.kmalloc kernelStackSize stackBase) c₂)
    (hstack : stackBase ≠ 0)
    (hrun : TaskEvent.run (.createKernelTask newTask stackBase) k.sched k.pc = some (s', pc')) :
    TaskHeap.Inv kernelTask ⟨s', pc', c₂⟩ := by
  have hI₁ := hs₁.inv hl h.heap
  obtain ⟨hfresh₁, hlive₁⟩ := hs₁.fresh hl h.heap hnew
  obtain ⟨hfresh₂, hlive₂⟩ := hs₂.fresh hl hI₁ hstack
  have hne : newTask ≠ stackBase := by
    intro e
    rw [← e, hlive₁, Function.update_self] at hfresh₂
    cases hfresh₂
  have hf : k.sched.tasks.Fresh newTask stackBase := by
    refine ⟨hnew, hstack, hne, ?_, ?_⟩
    · rw [h.live, Client.handedOut, hfresh₁]
      rfl
    · rw [hlive₁, Function.update_of_ne hne.symm] at hfresh₂
      rw [h.live, Client.handedOut, hfresh₂]
      rfl
  obtain ⟨r, sl, d, hp⟩ := h.places
  obtain ⟨hm, hq'⟩ := TaskEvent.run_moves h.quiet hrun
  obtain ⟨hb', r', sl', d', hp', -⟩ := hm.keeps h.blocks hp
    (fun _ _ he => by cases he; exact hf) (fun he => by cases he) (fun he => by cases he)
  have ht := hm.create_eq
  have hsame := ((Tasks.Relinked.refl (k.sched.tasks.fillTask newTask stackBase)).enqueue
    (a := newTask)).sameBlocks
  have hstacks : ∀ z, (s'.tasks.tcb z).stackBase
      = if z = newTask then stackBase else (k.sched.tasks.tcb z).stackBase := by
    intro z
    rw [ht]
    refine (hsame.stackBase z).trans ?_
    by_cases hz : z = newTask
    · simp [Tasks.fillTask, Tasks.setTcb, hz]
    · simp [Tasks.fillTask, Tasks.setTcb, hz]
  have hcreated : s'.tasks.created = insert newTask k.sched.tasks.created := by
    rw [ht]
    exact hsame.created
  have hkt : kernelTask ≠ newTask := fun e => hf.notMem h.blocks (e ▸ h.kernel)
  refine ⟨hq', hb', ⟨r', sl', d', hp'⟩, hs₂.inv hl hI₁, ?_, ?_, ?_⟩
  · intro p
    have hlive : s'.tasks.live = Function.update (Function.update k.sched.tasks.live newTask true)
        stackBase true := by
      rw [ht]
      exact hsame.live
    rw [hlive, Client.handedOut, hlive₂, hlive₁]
    simp only [Function.update_apply]
    split
    · rfl
    · split
      · rfl
      · exact h.live p
  · rw [hcreated]
    exact Finset.mem_insert_of_mem h.kernel
  · intro a ha
    rw [hcreated, Finset.mem_insert] at ha
    rw [hstacks]
    by_cases han : a = newTask
    · rw [if_pos han]
      exact iff_of_false hstack fun e => hkt (e.symm.trans han)
    · rw [if_neg han]
      exact h.stack a (ha.resolve_left han)

/-- **`dead_tasks_cleanup`**, when all of its accesses can be made. -/
theorem TaskHeap.Inv.deadTasksCleanup {pc' : TaskPc} (h : k.Inv kernelTask)
    (hrun : TaskEvent.run .deadTasksCleanup k.sched k.pc = some (s', pc'))
    (hops : Trace CleanupStep k.client
      (k.sched.tasks.cleanupOps walkFuel k.sched.tasks.deadTasks) c') :
    TaskHeap.Inv kernelTask ⟨s', pc', c'⟩ := by
  obtain ⟨r, sl, d, hp⟩ := h.places
  have hk := h.notMem hp hops
  obtain ⟨s'', c'', hc⟩ := h.cleaned hp hk
  obtain ⟨hm, hq'⟩ := TaskEvent.run_moves h.quiet hrun
  obtain ⟨hb', r', sl', d', hp', -⟩ := hm.keeps h.blocks hp
    (fun _ _ he => by cases he) (fun he => by cases he) (fun he => by cases he)
  have hcall : k.sched.deadTasksCleanup = some s' := by
    generalize k.pc = pc at hrun
    cases pc <;> try cases hrun
    exact (result_of_map hrun).1
  obtain rfl := Option.some.inj (hcall.symm.trans hc.call)
  have ht := hm.cleanup_eq
  obtain ⟨-, hcreated, live, created, hkept⟩ := hp.lists.deadTasksCleanup ht
  obtain ⟨hI', -, hlive', -⟩ := cleanup_run h.heap hops
  have htcb : s'.tasks.tcb = k.sched.tasks.tcb := by rw [hkept]
  refine ⟨hq', hb', ⟨r', sl', d', hp'⟩, hI', ?_, ?_, ?_⟩
  · intro p
    rw [hc.live, Client.handedOut, Client.handedOut, hlive', (cleanup_run h.heap hc.accesses).2.2.1]
  · exact (hcreated kernelTask).mpr ⟨h.kernel, hk⟩
  · intro a ha
    rw [htcb]
    exact h.stack a ((hcreated a).mp ha).1

theorem OrderlyStep.inv (hs : OrderlyStep legal k e k') (hl : LegalCalls legal)
    (h : k.Inv kernelTask) : k'.Inv kernelTask := by
  obtain ⟨hs, hsw⟩ := hs
  cases hs with
  | createKernelTask hs₁ hnew hs₂ hstack hrun =>
    exact h.createKernelTask hl hs₁ hnew hs₂ hstack hrun
  | deadTasksCleanup hrun hops => exact h.deadTasksCleanup hrun hops
  | heap hown hs => exact h.heapStep hl hown hs
  | @task e s' pc' hcreate hclean _ hrun =>
    obtain ⟨r, sl, d, hp⟩ := h.places
    have hsw := hsw _ rfl
    obtain ⟨hm, hq'⟩ := TaskEvent.run_moves h.quiet hrun
    obtain ⟨hb', r', sl', d', hp', -⟩ := hm.keeps h.blocks hp
      (fun _ _ he => absurd he (hcreate _ _)) hsw.ready
      fun he hpc hmem => hsw.due_eq_false hp.lists he hpc hmem
    have hsame := hm.sameBlocks hcreate hclean
    refine ⟨hq', hb', ⟨r', sl', d', hp'⟩, h.heap, ?_, ?_, ?_⟩
    · intro p
      dsimp only
      rw [hsame.live]
      exact h.live p
    · dsimp only
      rw [hsame.created]
      exact h.kernel
    · intro a ha
      dsimp only at ha ⊢
      rw [hsame.created] at ha
      rw [hsame.stackBase]
      exact h.stack a ha

end TaskHeap

/-! ### Runs -/

section Run

variable {legal : Legal ε} {kernelEnd kernelTask ticks : Nat} {m : ByteMem} {env : ε} {h₀ : Heap ε}
variable {c₀ c : Client ε} {tcb : Nat → TaskControlBlock} {k : TaskHeap ε}
variable {calls : List HeapEvent} {es : List TaskHeapEvent}

/-- **Every state of a run**, from `heap_init` and `multitasking_initialize` on. -/
theorem taskHeap_run_inv (hl : LegalCalls legal) (hinit : heapInit kernelEnd m env = some h₀)
    (hboot : Trace (HeapStep legal) ⟨h₀, fun _ => none⟩ calls c₀)
    (halloc : HeapStep legal c₀ (.kmalloc sizeofTaskControlBlock kernelTask) c)
    (hk : kernelTask ≠ 0)
    (hrun : Trace (OrderlyStep legal) (TaskHeap.start kernelTask ticks tcb c) es k) :
    k.Inv kernelTask := by
  have hI₀ : c₀.Inv := heap_run_inv hl ⟨_, (heapInit_spec hinit).2.2⟩ hboot
  have hI : c.Inv := halloc.inv hl hI₀
  have hlive := (halloc.fresh hl hI₀ hk).2
  have h0 : c.handedOut 0 = false := by
    rw [Client.handedOut, hI.null]
    rfl
  have hw : (Worker.start (Scheduler.multitaskingInitialize kernelTask ticks tcb c.handedOut)).Inv :=
    Worker.start_inv hk h0
  obtain ⟨r, sl, d, hp, -⟩ := hw.places
  refine hrun.invariant ⟨hw.quiet, hw.blocks, ⟨r, sl, d, hp⟩, hI, ?_, ?_, ?_⟩
    fun _ _ _ h hs => hs.inv hl h
  · intro p
    change Function.update c.handedOut kernelTask true p = c.handedOut p
    by_cases hpk : p = kernelTask
    · rw [hpk, Function.update_self, Client.handedOut, hlive, Function.update_self]
      rfl
    · rw [Function.update_of_ne hpk]
  · exact Finset.mem_singleton_self _
  · intro a ha
    rw [Finset.mem_singleton.mp ha]
    refine iff_of_true ?_ rfl
    change (Function.update tcb kernelTask _ kernelTask).stackBase = 0
    rw [Function.update_self]
    rfl

/-- **`dead_tasks_cleanup` frees exactly the memory of the dead tasks**, in every state
of every run, when the initial kernel task is not among them; and only then. -/
theorem dead_tasks_cleanup_frees (hl : LegalCalls legal)
    (hinit : heapInit kernelEnd m env = some h₀)
    (hboot : Trace (HeapStep legal) ⟨h₀, fun _ => none⟩ calls c₀)
    (halloc : HeapStep legal c₀ (.kmalloc sizeofTaskControlBlock kernelTask) c)
    (hk : kernelTask ≠ 0)
    (hrun : Trace (OrderlyStep legal) (TaskHeap.start kernelTask ticks tcb c) es k)
    (hpc : k.pc = .user) :
    ∃ r sl d, k.sched.tasks.AtSite .user r sl d ∧
      ((∃ s' c', Cleaned k r sl d s' c') ↔ kernelTask ∉ d) := by
  have hI := taskHeap_run_inv hl hinit hboot halloc hk hrun
  obtain ⟨r, sl, d, hp⟩ := hI.places
  exact ⟨r, sl, d, hpc ▸ hp, hI.cleaned_iff hp⟩

/-- A task that is made ends, or the kernel task that made it does. -/
theorem tasks_end : ∃ h₀ c k k', heapInit 0xC0120000 (fun _ => 0) () = some h₀ ∧
    HeapStep smallCalls ⟨h₀, fun _ => none⟩ (.kmalloc sizeofTaskControlBlock 0xC0120008) c ∧
    Trace (OrderlyStep smallCalls) (TaskHeap.start 0xC0120008 0 (fun _ => .zero) c)
      [.task (.createKernelTask 0xC0120040 0xC0120078), .task .schedule, .task .markSection,
        .task .endSchedule] k ∧
    k.pc = .user ∧ k.sched.tasks.deadTasks = 0xC0120040 ∧ k.sched.tasks.next 0xC0120040 = 0 ∧
    Trace (OrderlyStep smallCalls) (TaskHeap.start 0xC0120008 0 (fun _ => .zero) c)
      [.task (.createKernelTask 0xC0120040 0xC0120078), .task .terminateSection,
        .task .terminateBlock, .task .endSchedule] k' ∧
    k'.pc = .user ∧ k'.sched.tasks.deadTasks = 0xC0120008 := by
  have hsw : ∀ {w : Worker} {e : TaskEvent}, e ≠ .blockSchedule → e ≠ .irq0Handler →
      ∀ e', TaskHeapEvent.task e = .task e' → Switches w e' := by
    rintro w e hb hi _ ⟨⟩
    exact ⟨fun he => absurd he hb, fun he => absurd he hi⟩
  have hcreate : ∀ {k k' : TaskHeap Unit} {a b : Nat},
      TaskHeapStep smallCalls k (.task (.createKernelTask a b)) k' →
      OrderlyStep smallCalls k (.task (.createKernelTask a b)) k' :=
    fun h => ⟨h, hsw (by simp) (by simp)⟩
  have htask : ∀ {k : TaskHeap Unit} {e : TaskEvent} {s' : Scheduler} {pc' : TaskPc},
      e.run k.sched k.pc = some (s', pc') → (∀ a b, e ≠ .createKernelTask a b) →
      e ≠ .deadTasksCleanup → e ≠ .blockSchedule → e ≠ .irq0Handler →
      OrderlyStep smallCalls k (.task e) ⟨s', pc', k.client⟩ :=
    fun h hc hd hb hi => ⟨.task hc hd (fun he => absurd he hi) h, hsw hb hi⟩
  exact ⟨_, _, _, _, rfl, .kmalloc (smallCalls_unbounded (by decide) (by decide)) rfl,
    .snoc (.snoc (.snoc (.snoc .nil
      (hcreate (.createKernelTask
        (.kmalloc (smallCalls_unbounded (by decide) (by decide)) rfl) (by decide)
        (.kmalloc (smallCalls_unbounded (by decide) (by decide)) rfl) (by decide) rfl)))
      (htask rfl (by simp) (by simp) (by simp) (by simp)))
      (htask rfl (by simp) (by simp) (by simp) (by simp)))
      (htask rfl (by simp) (by simp) (by simp) (by simp)), rfl, rfl, rfl,
    .snoc (.snoc (.snoc (.snoc .nil
      (hcreate (.createKernelTask
        (.kmalloc (smallCalls_unbounded (by decide) (by decide)) rfl) (by decide)
        (.kmalloc (smallCalls_unbounded (by decide) (by decide)) rfl) (by decide) rfl)))
      (htask rfl (by simp) (by simp) (by simp) (by simp)))
      (htask rfl (by simp) (by simp) (by simp) (by simp)))
      (htask rfl (by simp) (by simp) (by simp) (by simp)), rfl, rfl⟩

theorem dead_tasks_cleanup_frees_ended : ∃ k : TaskHeap Unit,
    k.sched.tasks.deadTasks = 0xC0120040 ∧
    ∃ r sl, k.sched.tasks.AtSite .user r sl [0xC0120040] ∧
      ∃ s' c', Cleaned k r sl [0xC0120040] s' c' := by
  obtain ⟨h₀, c, k, -, hinit, halloc, hrun, hpc, hdead, hnext, -⟩ := tasks_end
  obtain ⟨r, sl, d, hp, hiff⟩ := dead_tasks_cleanup_frees legalCalls_small hinit .nil halloc
    (by decide) hrun hpc
  have hl := hp.lists
  have hseg : Seg k.sched.tasks.next 0xC0120040 [0xC0120040] 0 := ⟨rfl, hnext⟩
  obtain rfl : d = [0xC0120040] :=
    (hdead ▸ hl.dead).unique hseg (fun h0 => hl.nonnull (List.mem_append_right _ h0)) (by decide)
  exact ⟨k, hdead, r, sl, hp, hiff.mpr (by decide)⟩

/-- The initial kernel task ends, and `dead_tasks_cleanup` passes `NULL` to `kfree`. -/
theorem kernel_task_not_cleaned : ∃ h₀ c k, heapInit 0xC0120000 (fun _ => 0) () = some h₀ ∧
    HeapStep smallCalls ⟨h₀, fun _ => none⟩ (.kmalloc sizeofTaskControlBlock 0xC0120008) c ∧
    Trace (OrderlyStep smallCalls) (TaskHeap.start 0xC0120008 0 (fun _ => .zero) c)
      [.task (.createKernelTask 0xC0120040 0xC0120078), .task .terminateSection,
        .task .terminateBlock, .task .endSchedule] k ∧
    ∃ r sl d, k.sched.tasks.AtSite .user r sl d ∧
      0 ∈ CleanupOp.freed (k.sched.tasks.cleanupOps walkFuel k.sched.tasks.deadTasks) ∧
      ¬ ∃ s' c', Cleaned k r sl d s' c' := by
  obtain ⟨h₀, c, -, k, hinit, halloc, -, -, -, -, hrun, hpc, hdead⟩ := tasks_end
  have hI := taskHeap_run_inv legalCalls_small hinit .nil halloc (by decide) hrun
  obtain ⟨r, sl, d, hp⟩ := hI.places
  have hk : 0xC0120008 ∈ d := by
    have hseg := hp.lists.dead
    rw [hdead] at hseg
    cases d with
    | nil => exact absurd (show 0xC0120008 = 0 from hseg) (by decide)
    | cons a d => exact hseg.1 ▸ List.mem_cons_self
  refine ⟨h₀, c, k, hinit, halloc, hrun, r, sl, d, hpc ▸ hp, ?_, ?_⟩
  · rw [(hI.freed_eq hp).2.2, Tasks.mem_taskBlocks]
    exact ⟨_, hk, .inl ((hI.stack _ hI.kernel).mpr rfl).symm⟩
  · rw [hI.cleaned_iff hp, not_not]
    exact hk

end Run

end ChoOS
