import ChoOS.Sched.Queue

/-!
# Asking for the state of a task

`get_task_state` looks at the running task and then at the three lists, one
after the other and without the lock, so the timer interrupt can come between
two of these looks.  The interrupt only moves sleepers to the ready queue.  A
task that it moves after the ready queue was searched and before the sleeping
list is, is in neither when `get_task_state` looks there, and it answers
`TASK_STATE_NOT_FOUND` (`WakesUnseen`).  Nothing else can go wrong: the lists that
are still to be searched (`LookupPc.rest`) have the task on them.

`task_state_found` is the result; a process number is good for one task as long
as fewer than `2 ^ 32` tasks were created (`distinct_ids`).
-/

namespace ChoOS

/-- `TASK_STATE_NOT_FOUND` -/
def taskStateNotFound : Int := -1

/-- What `get_task_state` looks at next. -/
inductive LookupPc
  | current
  | ready
  | sleeping
  | dead
  | done (res : Int)
  deriving DecidableEq

/-- A call of `get_task_state` in the middle. -/
structure Lookup where
  sched : Scheduler
  pc : LookupPc

/-- A loop of `get_task_state`: the node with the number `pid`, or `NULL`. -/
def Tasks.findTask (pid fuel head : Nat) (t : Tasks) : Option Nat :=
  follow t.next (fun node => node == 0 || (t.tcb node).id == pid) fuel head

namespace Lookup

/-- A loop of `get_task_state` with the `return` in it. -/
def scan (pid fuel head : Nat) (next : LookupPc) (m : Lookup) : Option Lookup :=
  (m.sched.tasks.findTask pid fuel head).map fun node =>
    { m with pc := if node = 0 then next else .done (m.sched.tasks.state node) }

/-- The next look of `get_task_state`; `none` when `fuel` nodes did not end it. -/
def advance (pid fuel : Nat) (m : Lookup) : Option Lookup :=
  let t := m.sched.tasks
  match m.pc with
  | .current =>
    if t.currentTaskPCB ≠ 0 ∧ (t.tcb t.currentTaskPCB).id = pid then
      some { m with pc := .done (t.state t.currentTaskPCB) }
    else some { m with pc := .ready }
  | .ready => m.scan pid fuel t.firstReadyToRunTask .sleeping
  | .sleeping => m.scan pid fuel t.sleepingTaskes .dead
  | .dead => m.scan pid fuel t.deadTasks (.done taskStateNotFound)
  | .done _ => none

def start (s : Scheduler) : Lookup := ⟨s, .current⟩

end Lookup

inductive LookupEvent
  | advance
  | irq0Handler
  deriving DecidableEq

/-- The call goes on, or the timer interrupts it. -/
inductive LookupStep (pid : Nat) : Lookup → LookupEvent → Lookup → Prop
  | advance {m m' : Lookup} (fuel : Nat) : m.advance pid fuel = some m' →
      LookupStep pid m .advance m'
  | irq0Handler {m : Lookup} {s : Scheduler} : (∀ res, m.pc ≠ .done res) →
      m.sched.locks.interruptFlag = true → m.sched.irq0Handler = some s →
      LookupStep pid m .irq0Handler { m with sched := s }

/-- The timer interrupt now wakes `a`, which the search of the sleeping list that
comes next would find. -/
structure WakesUnseen (a : Nat) (m : Lookup) : Prop where
  pc : m.pc = .sleeping
  asleep : m.sched.tasks.state a = taskStateSleeping
  due : (m.sched.tasks.tcb a).targetWakeupTime ≤ u64 (m.sched.tasks.ticksSinceBoot + 1)

/-- A step that does not take `a` away from the search. -/
def SeenStep (pid a : Nat) (m : Lookup) (e : LookupEvent) (m' : Lookup) : Prop :=
  LookupStep pid m e m' ∧ (e = .irq0Handler → ¬ WakesUnseen a m)

/-- The task `a` had the state `v` at some moment of the call. -/
def HadState (pid a : Nat) (m : Lookup) (ls : List LookupEvent) (m' : Lookup) (v : Int) : Prop :=
  ∃ ls₁ ls₂ m₁, ls = ls₁ ++ ls₂ ∧ Trace (LookupStep pid) m ls₁ m₁ ∧
    Trace (LookupStep pid) m₁ ls₂ m' ∧ m₁.sched.tasks.state a = v

/-! ### One look -/

section Look

variable {t t' : Tasks} {m m' : Lookup} {r sl d l : List Nat} {a pid head fuel : Nat}

/-- **A loop of `get_task_state`** finds the task when it is on the list. -/
theorem Tasks.findTask_seg (h : Seg t.next head l 0) (h0 : 0 ∉ l)
    (hid : ∀ b ∈ l, (t.tcb b).id = pid ↔ b = a) (hf : l.length < fuel) :
    t.findTask pid fuel head = some (if a ∈ l then a else 0) := by
  have hpass : ∀ b ∈ l, b ≠ a → (b == 0 || (t.tcb b).id == pid) = false := by
    intro b hb hne
    have hb0 : b ≠ 0 := fun e => h0 (e ▸ hb)
    have hbid : (t.tcb b).id ≠ pid := fun e => hne ((hid b hb).mp e)
    simp [hb0, hbid]
  by_cases ha : a ∈ l
  · obtain ⟨l₁, l₂, rfl, hfirst⟩ := List.eq_append_cons_of_mem ha
    have haid : (t.tcb a).id = pid := (hid a ha).mpr rfl
    rw [if_pos ha]
    refine (seg_append_cons.mp h).1.follow_eq ?_ (by simp [haid]) ?_
    · intro b hb
      exact hpass b (by simp [hb]) fun e => hfirst (e ▸ hb)
    · simp only [List.length_append] at hf
      omega
  · rw [if_neg ha]
    refine h.follow_eq ?_ (by simp) hf
    intro b hb
    exact hpass b hb fun e => ha (e ▸ hb)

theorem Tasks.findTask_eq (h : Seg t.next head l 0) (h0 : 0 ∉ l)
    (hid : ∀ b ∈ l, (t.tcb b).id = pid ↔ b = a) {node : Nat}
    (hf : t.findTask pid fuel head = some node) : node = if a ∈ l then a else 0 := by
  have h₁ : t.findTask pid (l.length + 1 + fuel) head = some (if a ∈ l then a else 0) :=
    findTask_seg h h0 hid (by omega)
  have h₂ : t.findTask pid (fuel + (l.length + 1)) head = some node := follow_mono _ _ _ _ hf
  rw [Nat.add_comm] at h₂
  exact Option.some.inj (h₂.symm.trans h₁)

/-- The tasks are in their places, and `pid` is the number of `a` only. -/
structure Lookup.Ok (m : Lookup) (pid a : Nat) (r sl d : List Nat) : Prop where
  quiet : m.sched.locks.Quiet
  placed : m.sched.tasks.Placed r sl d
  mem : a ∈ m.sched.tasks.created
  only : ∀ b ∈ m.sched.tasks.created, (m.sched.tasks.tcb b).id = pid ↔ b = a

/-- The tasks that are looked at next. -/
def LookupPc.place (t : Tasks) (r sl d : List Nat) : LookupPc → List Nat
  | .current => [t.currentTaskPCB]
  | .ready => r
  | .sleeping => sl
  | .dead => d
  | .done _ => []

/-- What comes behind a place without the task. -/
def LookupPc.next : LookupPc → LookupPc
  | .current => .ready
  | .ready => .sleeping
  | .sleeping => .dead
  | .dead => .done taskStateNotFound
  | .done res => .done res

/-- The tasks that are still to be looked at. -/
def LookupPc.rest (t : Tasks) (r sl d : List Nat) : LookupPc → List Nat
  | .current => [t.currentTaskPCB] ++ (r ++ (sl ++ d))
  | .ready => r ++ (sl ++ d)
  | .sleeping => sl ++ d
  | .dead => d
  | .done _ => []

theorem LookupPc.rest_eq {pc : LookupPc} (hpc : ∀ res, pc ≠ .done res) :
    pc.rest t r sl d = pc.place t r sl d ++ pc.next.rest t r sl d := by
  cases pc with
  | current => rfl
  | ready => rfl
  | sleeping => rfl
  | dead => exact (List.append_nil d).symm
  | done res => exact absurd rfl (hpc res)

namespace Lookup.Ok

variable (hO : m.Ok pid a r sl d)
include hO

theorem scan {next : LookupPc} (h : Seg m.sched.tasks.next head l 0) (hl : l ⊆ r ++ sl ++ d) :
    (∃ fuel m', m.scan pid fuel head next = some m') ∧
    ∀ fuel m', m.scan pid fuel head next = some m' → m'.sched = m.sched ∧
      (a ∈ l → m'.pc = .done (m.sched.tasks.state a)) ∧ (a ∉ l → m'.pc = next) := by
  have h0 : 0 ∉ l := fun h0 => hO.placed.lists.nonnull (hl h0)
  have hid : ∀ b ∈ l, (m.sched.tasks.tcb b).id = pid ↔ b = a := by
    intro b hb
    exact hO.only b ((hO.placed.created b).mpr (.inr (hl hb)))
  constructor
  · have hf := Tasks.findTask_seg h h0 hid (Nat.lt_succ_self l.length)
    exact ⟨l.length + 1, _, by rw [Lookup.scan, hf, Option.map_some]⟩
  · intro fuel m' hm
    rw [Lookup.scan] at hm
    obtain ⟨node, hnode, rfl⟩ := Option.map_eq_some_iff.mp hm
    obtain rfl := Tasks.findTask_eq h h0 hid hnode
    refine ⟨rfl, ?_, ?_⟩
    · intro ha
      have ha0 : a ≠ 0 := fun e => h0 (e ▸ ha)
      rw [if_pos ha, if_neg ha0]
    · intro ha
      rw [if_neg ha, if_pos rfl]

/-- **One look**: it ends, and finds the task exactly when it is there. -/
theorem look (hpc : ∀ res, m.pc ≠ .done res) :
    (∃ fuel m', m.advance pid fuel = some m') ∧
    ∀ fuel m', m.advance pid fuel = some m' → m'.sched = m.sched ∧
      (a ∈ m.pc.place m.sched.tasks r sl d → m'.pc = .done (m.sched.tasks.state a)) ∧
      (a ∉ m.pc.place m.sched.tasks r sl d → m'.pc = m.pc.next) := by
  have hl := hO.placed.lists
  cases hc : m.pc with
  | current =>
    have hcur := hO.only _ ((hO.placed.created _).mpr (.inl rfl))
    simp only [Lookup.advance, hc]
    by_cases ha : a = m.sched.tasks.currentTaskPCB
    · rw [if_pos ⟨hO.placed.current_ne, hcur.mpr ha.symm⟩]
      refine ⟨⟨0, _, rfl⟩, ?_⟩
      intro fuel m' hm
      obtain rfl := Option.some.inj hm
      exact ⟨rfl, fun _ => by rw [ha], fun hn => absurd (List.mem_singleton.mpr ha) hn⟩
    · rw [if_neg fun h => ha (hcur.mp h.2).symm]
      refine ⟨⟨0, _, rfl⟩, ?_⟩
      intro fuel m' hm
      obtain rfl := Option.some.inj hm
      exact ⟨rfl, fun hin => absurd (List.mem_singleton.mp hin) ha, fun _ => rfl⟩
  | ready =>
    simp only [Lookup.advance, hc]
    exact hO.scan hl.ready (fun b (hb : b ∈ r) => by simp [hb])
  | sleeping =>
    simp only [Lookup.advance, hc]
    exact hO.scan hl.sleeping (fun b (hb : b ∈ sl) => by simp [hb])
  | dead =>
    simp only [Lookup.advance, hc]
    exact hO.scan hl.dead (fun b (hb : b ∈ d) => by simp [hb])
  | done res => exact absurd hc (hpc res)

end Lookup.Ok

/-! ### The steps of a call -/

theorem Tasks.Placed.state_ne_notFound (h : t.Placed r sl d) (ha : a ∈ t.created) :
    t.state a ≠ taskStateNotFound := by
  rcases (h.created a).mp ha with rfl | ha
  · rw [h.running]
    decide
  · simp only [List.mem_append] at ha
    rcases ha with (ha | ha) | ha
    · rw [h.matched.ready a ha]
      decide
    · rw [h.matched.sleeping a ha]
      decide
    · rcases h.matched.dead a ha with hd | hd <;> rw [hd] <;> decide

theorem Tasks.Placed.asleep_iff (h : t.Placed r sl d) (ha : a ∈ t.created) :
    t.state a = taskStateSleeping ↔ a ∈ sl := by
  refine ⟨fun hs => ?_, h.matched.sleeping a⟩
  rcases (h.created a).mp ha with rfl | ha
  · rw [h.running] at hs
    cases hs
  · simp only [List.mem_append] at ha
    rcases ha with (ha | ha) | ha
    · rw [h.matched.ready a ha] at hs
      cases hs
    · exact ha
    · rcases h.matched.dead a ha with hd | hd <;> rw [hd] at hs <;> cases hs

/-- **The timer interrupt** during a call. -/
theorem Lookup.Ok.tick (hO : m.Ok pid a r sl d) {s : Scheduler}
    (h : m.sched.irq0Handler = some s) :
    Lookup.Ok { m with sched := s } pid a (r ++ sl.filter m.sched.tasks.due)
        (sl.filter fun z => !m.sched.tasks.due z) d ∧
      s.tasks.currentTaskPCB = m.sched.tasks.currentTaskPCB := by
  rw [Scheduler.irq0Handler_eq hO.quiet.steady] at h
  obtain ⟨t, ht, rfl⟩ := Option.map_eq_some_iff.mp h
  obtain ⟨-, -, hcur, hcr⟩ := hO.placed.lists.tick ht
  have hid : ∀ z, (t.tcb z).id = (m.sched.tasks.tcb z).id := by
    intro z
    obtain ⟨n, v, hz⟩ := ((Tasks.Relinked.refl _).wakeLoop ht).tcb z
    rw [hz]
    rfl
  refine ⟨⟨hO.quiet, hO.placed.tick ht, ?_, ?_⟩, hcur⟩
  · dsimp only
    rw [hcr]
    exact hO.mem
  · intro b hb
    dsimp only at hb ⊢
    rw [hcr] at hb
    rw [hid]
    exact hO.only b hb

theorem LookupStep.not_done {e : LookupEvent} (hs : LookupStep pid m e m') :
    ∀ res, m.pc ≠ .done res := by
  intro res hpc
  cases hs with
  | advance fuel h =>
    rw [Lookup.advance, hpc] at h
    cases h
  | irq0Handler hnd _ _ => exact hnd res hpc

/-- The timer interrupt takes no task into a place that is still to be searched, and
takes only sleepers out of one. -/
theorem Lookup.Ok.rest_tick (hO : m.Ok pid a r sl d) {s : Scheduler}
    (h : m.sched.irq0Handler = some s) :
    (a ∈ m.pc.rest s.tasks (r ++ sl.filter m.sched.tasks.due)
        (sl.filter fun z => !m.sched.tasks.due z) d → a ∈ m.pc.rest m.sched.tasks r sl d) ∧
    (¬ WakesUnseen a m → a ∈ m.pc.rest m.sched.tasks r sl d →
      a ∈ m.pc.rest s.tasks (r ++ sl.filter m.sched.tasks.due)
        (sl.filter fun z => !m.sched.tasks.due z) d) := by
  obtain ⟨-, hcur⟩ := hO.tick h
  cases hpc : m.pc with
  | current =>
    simp only [LookupPc.rest, List.mem_append, List.mem_filter, hcur]
    cases m.sched.tasks.due a <;> simp [or_assoc]
  | ready =>
    simp only [LookupPc.rest, List.mem_append, List.mem_filter]
    cases m.sched.tasks.due a <;> simp [or_assoc]
  | sleeping =>
    simp only [LookupPc.rest, List.mem_append, List.mem_filter]
    constructor
    · tauto
    · rintro hw (ha | ha)
      · have hnot : m.sched.tasks.due a = false := by
          rw [Tasks.due, decide_eq_false_iff_not]
          intro hdue
          exact hw ⟨hpc, hO.placed.matched.sleeping a ha, hdue⟩
        exact .inl ⟨ha, by rw [hnot]; rfl⟩
      · exact .inr ha
  | dead => exact ⟨id, fun _ => id⟩
  | done res => exact ⟨id, fun _ => id⟩

/-- **One step of a call.**  What was found is a state of the task, what was missed
stays missed, and nothing is missed but by `WakesUnseen`. -/
theorem LookupStep.spec {e : LookupEvent} (hO : m.Ok pid a r sl d) (hs : LookupStep pid m e m') :
    ∃ r' sl' d', m'.Ok pid a r' sl' d' ∧
      (a ∉ m.pc.rest m.sched.tasks r sl d →
        a ∉ m'.pc.rest m'.sched.tasks r' sl' d' ∧ ∀ res, m'.pc = .done res →
          res = taskStateNotFound) ∧
      (a ∈ m.pc.rest m.sched.tasks r sl d → (e = .irq0Handler → ¬ WakesUnseen a m) →
        a ∈ m'.pc.rest m'.sched.tasks r' sl' d' ∨ m'.pc = .done (m.sched.tasks.state a)) := by
  have hnd := hs.not_done
  cases hs with
  | advance fuel h =>
    obtain ⟨hsched, hin, hout⟩ := (hO.look hnd).2 fuel m' h
    have hrest : m.pc.rest m.sched.tasks r sl d
        = m.pc.place m.sched.tasks r sl d ++ m.pc.next.rest m.sched.tasks r sl d :=
      LookupPc.rest_eq hnd
    refine ⟨r, sl, d, ?_, ?_, ?_⟩
    · exact ⟨hsched ▸ hO.quiet, hsched ▸ hO.placed, hsched ▸ hO.mem, hsched ▸ hO.only⟩
    · intro hmiss
      rw [hrest, List.mem_append, not_or] at hmiss
      rw [hsched, hout hmiss.1]
      refine ⟨hmiss.2, ?_⟩
      intro res hres
      cases hpc : m.pc <;> rw [hpc] at hres hnd <;> cases hres
      · rfl
      · exact absurd rfl (hnd res)
    · intro hsearch _
      rw [hrest, List.mem_append] at hsearch
      by_cases ha : a ∈ m.pc.place m.sched.tasks r sl d
      · exact .inr (hin ha)
      · rw [hsched, hout ha]
        exact .inl (hsearch.resolve_left ha)
  | irq0Handler _ _ h =>
    obtain ⟨hsub, hkeep⟩ := hO.rest_tick h
    refine ⟨_, _, _, (hO.tick h).1, ?_, ?_⟩
    · intro hmiss
      exact ⟨fun ha => hmiss (hsub ha), fun res hres => absurd hres (hnd res)⟩
    · intro hsearch hw
      exact .inl (hkeep (hw rfl) hsearch)

end Look

/-! ### Whole calls -/

section Call

variable {m₀ m m₁ m' : Lookup} {r sl d : List Nat} {a pid : Nat} {ls ls' : List LookupEvent}

theorem Lookup.Ok.run (hO : m₀.Ok pid a r sl d) (hcall : Trace (LookupStep pid) m₀ ls m) :
    ∃ r sl d, m.Ok pid a r sl d := by
  refine hcall.invariant (I := fun m => ∃ r sl d, m.Ok pid a r sl d) ⟨r, sl, d, hO⟩ ?_
  rintro m e m' ⟨r, sl, d, hO⟩ hs
  obtain ⟨r', sl', d', hO', -⟩ := hs.spec hO
  exact ⟨r', sl', d', hO'⟩

/-- **A call that does not lose the task** goes on until it has found it. -/
theorem Lookup.Ok.seen_run (hO : m₀.Ok pid a r sl d) (hrest : a ∈ m₀.pc.rest m₀.sched.tasks r sl d)
    (hcall : Trace (SeenStep pid a) m₀ ls m) :
    (∃ m', LookupStep pid m .advance m') ∨
      ∃ res, m.pc = .done res ∧ res ≠ taskStateNotFound ∧ HadState pid a m₀ ls m res := by
  -- either the task is still to be found, or the call is done
  have hinv : ∃ r sl d, m.Ok pid a r sl d ∧ (a ∈ m.pc.rest m.sched.tasks r sl d ∨
      ∃ res, m.pc = .done res ∧ res ≠ taskStateNotFound ∧ HadState pid a m₀ ls m res) := by
    induction hcall with
    | nil => exact ⟨r, sl, d, hO, .inl hrest⟩
    | @snoc ls m m' e h hs ih =>
      obtain ⟨r, sl, d, hO, hsearch | ⟨res, hpc, -⟩⟩ := ih
      · obtain ⟨r', sl', d', hO', -, hfound⟩ := hs.1.spec hO
        have hcall' := h.mono fun _ _ _ hs => hs.1
        refine ⟨r', sl', d', hO', (hfound hsearch hs.2).imp id ?_⟩
        intro hdone
        exact ⟨_, hdone, hO.placed.state_ne_notFound hO.mem, ls, [e], m, rfl, hcall',
          .single hs.1, rfl⟩
      · exact absurd hpc (hs.1.not_done res)
  obtain ⟨r, sl, d, hO, hsearch | hdone⟩ := hinv
  · have hnd : ∀ res, m.pc ≠ .done res := by
      intro res hpc
      rw [hpc] at hsearch
      exact absurd hsearch List.not_mem_nil
    obtain ⟨fuel, m', hm⟩ := (hO.look hnd).1
    exact .inl ⟨m', .advance fuel hm⟩
  · exact .inr hdone

/-- **A call that loses the task** never finds it again. -/
theorem Lookup.Ok.missed_run (hO : m.Ok pid a r sl d) (hw : WakesUnseen a m)
    (hs : LookupStep pid m .irq0Handler m₁) (hcall : Trace (LookupStep pid) m₁ ls' m') :
    ∀ res, m'.pc = .done res → res = taskStateNotFound := by
  -- behind the interrupt the task is ready, and the ready queue was searched before
  have hmissed : ∃ r sl d, m₁.Ok pid a r sl d ∧ a ∉ m₁.pc.rest m₁.sched.tasks r sl d ∧
      ∀ res, m₁.pc = .done res → res = taskStateNotFound := by
    cases hs with
    | irq0Handler hnd _ h =>
      have hasleep := (hO.placed.asleep_iff hO.mem).mp hw.asleep
      have hdue : m.sched.tasks.due a = true := decide_eq_true hw.due
      have hnodup := hO.placed.lists.nodup
      have hdead : a ∉ d := by
        simp only [List.nodup_append, List.mem_append] at hnodup
        grind
      refine ⟨_, _, _, (hO.tick h).1, ?_, fun res hres => absurd hres (hnd res)⟩
      simp [hw.pc, LookupPc.rest, hdue, hdead]
  have hinv := hcall.invariant (I := fun m => ∃ r sl d, m.Ok pid a r sl d ∧
    a ∉ m.pc.rest m.sched.tasks r sl d ∧ ∀ res, m.pc = .done res → res = taskStateNotFound)
    hmissed (by
      rintro m e m' ⟨r, sl, d, hO, hmiss, -⟩ hs
      obtain ⟨r', sl', d', hO', hstay, -⟩ := hs.spec hO
      exact ⟨r', sl', d', hO', hstay hmiss⟩)
  obtain ⟨-, -, -, -, -, hres⟩ := hinv
  exact hres

end Call

/-! ### Process numbers -/

namespace Tasks

/-- The tasks, their numbers and the last number given out. -/
def identity (t : Tasks) : Finset Nat × Nat × (Nat → Nat) :=
  (t.created, t.currentPid, fun z => (t.tcb z).id)

variable {t t' : Tasks} {a n us p : Nat} {v : Int} {b : TaskControlBlock} {site : Resume}

theorem identity_setTcb (h : b.id = (t.tcb a).id) : (t.setTcb a b).identity = t.identity := by
  refine Prod.ext rfl (Prod.ext rfl (funext fun z => ?_))
  by_cases hz : z = a
  · simp [identity, setTcb, hz, h]
  · simp [identity, setTcb, hz]

@[simp] theorem identity_setNext : (t.setNext a n).identity = t.identity := identity_setTcb rfl

@[simp] theorem identity_setState : (t.setState a v).identity = t.identity := identity_setTcb rfl

@[simp] theorem identity_setFirst : (t.setFirst a).identity = t.identity := rfl

@[simp] theorem identity_setLast : (t.setLast a).identity = t.identity := rfl

@[simp] theorem identity_setSleeping : (t.setSleeping a).identity = t.identity := rfl

@[simp] theorem identity_setDead : (t.setDead a).identity = t.identity := rfl

@[simp] theorem identity_setCurrent : (t.setCurrent a).identity = t.identity := rfl

@[simp] theorem identity_enqueue : (t.enqueue a).identity = t.identity := by
  rw [enqueue]
  split <;> simp

@[simp] theorem identity_unblockTask : (t.unblockTask a).identity = t.identity := by
  simp [unblockTask]

@[simp] theorem identity_unlinkSleeping : (t.unlinkSleeping p a).identity = t.identity := by
  rw [unlinkSleeping]
  split <;> simp

theorem identity_wakeLoop {ticks : Nat} : ∀ (fuel p a : Nat) (t : Tasks),
    t.wakeLoop ticks fuel p a = some t' → t'.identity = t.identity := by
  intro fuel
  induction fuel with
  | zero =>
    intro p a t h
    cases h
  | succ fuel ih =>
    intro p a t h
    rw [wakeLoop] at h
    split at h
    · rw [Option.some.inj h]
    · split at h
      · rw [ih _ _ _ h]
        simp
      · exact ih _ _ _ h

theorem identity_tick (h : t.tick = some t') : t'.identity = t.identity := by
  have hadd : t.addTick.identity = t.identity := rfl
  rw [identity_wakeLoop walkFuel 0 t.addTick.sleepingTaskes t.addTick h, hadd]

@[simp] theorem identity_requeueCurrent : t.requeueCurrent.identity = t.identity := by
  rw [requeueCurrent]
  dsimp only
  split
  · split <;> simp
  · rfl

theorem identity_updateTimeUsed : t.updateTimeUsed.identity = t.identity :=
  identity_setTcb (t := t) (a := t.currentTaskPCB)
    (b := { t.tcb t.currentTaskPCB with timeUsed := _ }) rfl

@[simp] theorem identity_reschedule : (t.reschedule site).identity = t.identity := by
  have hfirst : t.takeFirst.identity = t.identity := rfl
  have hesp : ∀ t : Tasks, (t.setEsp t.currentTaskPCB site).identity = t.identity :=
    fun t => identity_setTcb rfl
  rw [reschedule, switchTo, identity_setState, identity_setCurrent, hesp, identity_requeueCurrent,
    identity_updateTimeUsed, hfirst]

@[simp] theorem identity_blockTask : (t.blockTask v).identity = t.identity := identity_setState

@[simp] theorem identity_microSleepUntil : (t.microSleepUntil us).identity = t.identity := by
  have htarget : (t.setTarget t.currentTaskPCB (u32 us)).identity = t.identity :=
    identity_setTcb rfl
  rw [microSleepUntil, identity_setSleeping, identity_setNext, htarget]

@[simp] theorem identity_terminateTask : t.terminateTask.identity = t.identity := by
  simp [terminateTask]

@[simp] theorem identity_markTaskForDeath : t.markTaskForDeath.identity = t.identity := by
  simp [markTaskForDeath]

/-- The numbers up to `n` are given out, each to one task. -/
structure Numbered (t : Tasks) (n : Nat) : Prop where
  pid : t.currentPid = n
  le : ∀ a ∈ t.created, (t.tcb a).id ≤ n
  distinct : ∀ a ∈ t.created, ∀ b ∈ t.created, (t.tcb a).id = (t.tcb b).id → a = b

theorem Numbered.congr (h : t.Numbered n) (hi : t'.identity = t.identity) : t'.Numbered n := by
  obtain ⟨hc, hi⟩ := Prod.mk.inj hi
  obtain ⟨hp, hid⟩ := Prod.mk.inj hi
  have hid : ∀ z, (t'.tcb z).id = (t.tcb z).id := congrFun hid
  refine ⟨hp.trans h.pid, ?_, ?_⟩
  · intro a ha
    rw [hid]
    exact h.le a (hc ▸ ha)
  · intro a ha b hb he
    rw [hid, hid] at he
    exact h.distinct a (hc ▸ ha) b (hc ▸ hb) he

/-- **A new task gets a new number**, before the numbers wrap. -/
theorem Numbered.createKernelTask {newTask stackBase : Nat} (h : t.Numbered n)
    (hnew : newTask ∉ t.created) (hn : n + 1 < 4294967296) :
    (t.createKernelTask newTask stackBase).Numbered (n + 1) := by
  have hpid : u64 (t.currentPid + 1) = n + 1 := by
    rw [h.pid, u64, Nat.mod_eq_of_lt (by omega)]
  have hself : ((t.fillTask newTask stackBase).tcb newTask).id = n + 1 := by
    simp only [fillTask, setTcb, Function.update_self, hpid]
    exact u32_of_lt hn
  have hother : ∀ z, z ≠ newTask → ((t.fillTask newTask stackBase).tcb z).id = (t.tcb z).id := by
    intro z hz
    simp only [fillTask, setTcb, Function.update_of_ne hz]
  have hmem : ∀ z, z ∈ (t.fillTask newTask stackBase).created → z = newTask ∨ z ≠ newTask ∧
      z ∈ t.created := by
    intro z hz
    by_cases he : z = newTask
    · exact .inl he
    · exact .inr ⟨he, (Finset.mem_insert.mp hz).resolve_left he⟩
  have hfill : (t.fillTask newTask stackBase).Numbered (n + 1) := by
    refine ⟨hpid, ?_, ?_⟩
    · intro z hz
      rcases hmem z hz with rfl | ⟨hne, hz⟩
      · exact hself.le
      · rw [hother z hne]
        exact (h.le z hz).trans (Nat.le_succ n)
    · intro z hz y hy he
      rcases hmem z hz with rfl | ⟨hne, hz₁⟩
      · rcases hmem y hy with rfl | ⟨hne', hy₁⟩
        · rfl
        · rw [hself, hother y hne'] at he
          have := h.le y hy₁
          omega
      · rcases hmem y hy with rfl | ⟨hne', hy₁⟩
        · rw [hself, hother z hne] at he
          have := h.le z hz₁
          omega
        · rw [hother z hne, hother y hne'] at he
          exact h.distinct z hz₁ y hy₁ he
  exact hfill.congr identity_enqueue

end Tasks

/-- The calls that give out a number. -/
def SchedCall.creates : SchedCall → Bool
  | .createKernelTask _ _ => true
  | _ => false

theorem SchedEffect.numbered {t t' : Tasks} {e : SchedCall} {n : Nat} (h : SchedEffect t e t')
    (hb : t.Blocks) (hp : ∃ r sl d, t.Lists r sl d) (hn : t.Numbered n)
    (hlt : n + [e].countP SchedCall.creates < 4294967296) :
    t'.Numbered (n + [e].countP SchedCall.creates) := by
  cases h with
  | createKernelTask hf => exact hn.createKernelTask (hf.notMem hb) hlt
  | alone => exact hn
  | schedule _ => exact hn.congr (by simp)
  | microSleepUntil _ => exact hn.congr (by simp)
  | irq0Handler ht => exact hn.congr (Tasks.identity_tick ht)
  | terminateTask _ => exact hn.congr (by simp)
  | markTaskForDeath _ => exact hn.congr (by simp)
  | deadTasksCleanup ht =>
    obtain ⟨r, sl, d, hl⟩ := hp
    obtain ⟨-, hcr, live, created, rfl⟩ := hl.deadTasksCleanup ht
    refine ⟨hn.pid, ?_, ?_⟩
    · intro a ha
      exact hn.le a ((hcr a).mp ha).1
    · intro a ha b hb he
      exact hn.distinct a ((hcr a).mp ha).1 b ((hcr b).mp hb).1 he

section Run

variable {kernelTask ticks : Nat} {tcb : Nat → TaskControlBlock} {live : Nat → Bool}
variable {es : List SchedCall} {s : Scheduler}

/-- **A number is good for one task** until `2 ^ 32` tasks were created. -/
theorem distinct_ids (hk : kernelTask ≠ 0) (h0 : live 0 = false)
    (hrun : Trace SchedStep (Scheduler.multitaskingInitialize kernelTask ticks tcb live) es s)
    (hfew : es.countP SchedCall.creates < 4294967296) :
    s.tasks.Numbered (es.countP SchedCall.creates) := by
  induction hrun with
  | nil =>
    refine ⟨rfl, ?_, ?_⟩
    · intro a ha
      rw [mem_created_multitaskingInitialize.mp ha, tcb_multitaskingInitialize]
      exact Nat.le_refl 0
    · intro a ha b hb _
      rw [mem_created_multitaskingInitialize.mp ha, mem_created_multitaskingInitialize.mp hb]
  | snoc h hs ih =>
    rw [List.countP_append] at hfew ⊢
    have hset := sched_run_settled hk h0 h
    obtain ⟨r, sl, d, hp⟩ := hset.placed
    exact (hs.effect hset.quiet).2.numbered hset.blocks ⟨r, sl, d, hp.lists⟩ (ih (by omega)) hfew

variable {a : Nat}

theorem lookup_start_ok (hk : kernelTask ≠ 0) (h0 : live 0 = false)
    (hrun : Trace SchedStep (Scheduler.multitaskingInitialize kernelTask ticks tcb live) es s)
    (hfew : es.countP SchedCall.creates < 4294967296) (ha : a ∈ s.tasks.created) :
    ∃ r sl d, (Lookup.start s).Ok (s.tasks.tcb a).id a r sl d ∧
      a ∈ (Lookup.start s).pc.rest s.tasks r sl d := by
  have hset := sched_run_settled hk h0 hrun
  have hnum := distinct_ids hk h0 hrun hfew
  obtain ⟨r, sl, d, hp⟩ := hset.placed
  refine ⟨r, sl, d, ⟨hset.quiet, hp, ha, ?_⟩, ?_⟩
  · intro b hb
    exact ⟨hnum.distinct b hb a ha, fun he => by rw [he]; rfl⟩
  · simpa [Lookup.start, LookupPc.rest] using (hp.created a).mp ha

/-- **`get_task_state` finds the task**, unless the timer wakes it between the
search of the ready queue and the search of the sleeping list.  In the first part
every call ends, with a state that the task had during the call; in the second
part the call has answered `TASK_STATE_NOT_FOUND` when it is done. -/
theorem task_state_found (hk : kernelTask ≠ 0) (h0 : live 0 = false)
    (hrun : Trace SchedStep (Scheduler.multitaskingInitialize kernelTask ticks tcb live) es s)
    (hfew : es.countP SchedCall.creates < 4294967296) (ha : a ∈ s.tasks.created) :
    (∀ ls m, Trace (SeenStep (s.tasks.tcb a).id a) (Lookup.start s) ls m →
      (∃ m', LookupStep (s.tasks.tcb a).id m .advance m') ∨
      ∃ res, m.pc = .done res ∧ res ≠ taskStateNotFound ∧
        HadState (s.tasks.tcb a).id a (Lookup.start s) ls m res) ∧
    (∀ ls m m₁ ls' m', Trace (LookupStep (s.tasks.tcb a).id) (Lookup.start s) ls m →
      WakesUnseen a m → LookupStep (s.tasks.tcb a).id m .irq0Handler m₁ →
      Trace (LookupStep (s.tasks.tcb a).id) m₁ ls' m' →
      ∀ res, m'.pc = .done res → res = taskStateNotFound) := by
  obtain ⟨r, sl, d, hO, hrest⟩ := lookup_start_ok hk h0 hrun hfew ha
  refine ⟨fun ls m hcall => hO.seen_run hrest hcall, ?_⟩
  intro ls m m₁ ls' m' hcall hw hs hcall'
  obtain ⟨r', sl', d', hO'⟩ := hO.run hcall
  exact hO'.missed_run hw hs hcall'

/-- The next look, or the timer interrupt. -/
def LookupEvent.run (pid fuel : Nat) : LookupEvent → Lookup → Option Lookup
  | .advance, m => m.advance pid fuel
  | .irq0Handler, m =>
    match m.pc with
    | .done _ => none
    | _ =>
      if m.sched.locks.interruptFlag then m.sched.irq0Handler.map fun s => { m with sched := s }
      else none

theorem LookupEvent.run_spec {pid fuel : Nat} {e : LookupEvent} {m m' : Lookup}
    (h : e.run pid fuel m = some m') : LookupStep pid m e m' := by
  cases e with
  | advance => exact .advance fuel h
  | irq0Handler =>
    rw [LookupEvent.run] at h
    split at h
    · cases h
    · rename_i hnd
      split at h
      · obtain ⟨s, hs, rfl⟩ := Option.map_eq_some_iff.mp h
        exact .irq0Handler hnd ‹_› hs
      · cases h

/-- The step, when the timer does not interrupt the call where it can lose a task. -/
def LookupEvent.runSeen (pid fuel : Nat) (e : LookupEvent) (m : Lookup) : Option Lookup :=
  if m.pc = .sleeping ∧ e = .irq0Handler then none else e.run pid fuel m

theorem LookupEvent.runSeen_spec {pid fuel a : Nat} {e : LookupEvent} {m m' : Lookup}
    (h : e.runSeen pid fuel m = some m') : SeenStep pid a m e m' := by
  rw [LookupEvent.runSeen] at h
  split at h
  · cases h
  · rename_i hn
    exact ⟨run_spec h, fun he hw => hn ⟨hw.pc, he⟩⟩

/-- A task at `8192` sleeps until tick 2, and the kernel task runs. -/
def sleeperCalls : List SchedCall :=
  [.createKernelTask 8192 8448, .schedule, .microSleepUntil 2, .irq0Handler]

/-- The call finds the task in the ready queue, where the timer has just put it. -/
theorem task_state_found_sleeper : ∃ s m, Trace SchedStep bootedTask sleeperCalls s ∧
    Trace (SeenStep 1 8192) (Lookup.start s) [.advance, .irq0Handler, .advance] m ∧
    HadState 1 8192 (Lookup.start s) [.advance, .irq0Handler, .advance] m taskStateReadyToRun := by
  obtain ⟨s, hs, h⟩ := (Option.any_eq_true _ _).mp (show
    (execute SchedCall.step sleeperCalls bootedTask).any (fun s =>
      decide (8192 ∈ s.tasks.created) && (s.tasks.tcb 8192).id == 1 &&
      (execute (LookupEvent.runSeen 1 4) [.advance, .irq0Handler, .advance] (Lookup.start s)).any
        (fun m => m.pc == .done taskStateReadyToRun)) = true by decide +kernel)
  simp only [Bool.and_eq_true, decide_eq_true_eq, beq_iff_eq, Option.any_eq_true] at h
  obtain ⟨⟨hmem, hid⟩, m, hm, hpc⟩ := h
  have hrun : Trace SchedStep bootedTask sleeperCalls s :=
    Trace.of_execute (fun _ _ _ => SchedCall.step_spec) hs
  have hcall : Trace (SeenStep 1 8192) (Lookup.start s) [.advance, .irq0Handler, .advance] m :=
    Trace.of_execute (fun _ _ _ => LookupEvent.runSeen_spec) hm
  have hfound := (task_state_found (by decide) rfl hrun (by decide) hmem).1
  rw [hid] at hfound
  refine ⟨s, m, hrun, hcall, ?_⟩
  rcases hfound _ m hcall with ⟨m', hs⟩ | ⟨res, hdone, -, hhad⟩
  · exact absurd hpc (hs.not_done _)
  · rw [hpc] at hdone
    cases hdone
    exact hhad

/-- The timer wakes the task between the two searches, and nobody finds it. -/
theorem task_state_lost : ∃ s m, Trace SchedStep bootedTask sleeperCalls s ∧
    8192 ∈ s.tasks.created ∧ (s.tasks.tcb 8192).id = 1 ∧
    Trace (LookupStep 1) (Lookup.start s)
      [.advance, .advance, .irq0Handler, .advance, .advance] m ∧
    m.pc = .done taskStateNotFound ∧ m.sched.tasks.state 8192 = taskStateReadyToRun := by
  obtain ⟨s, hs, h⟩ := (Option.any_eq_true _ _).mp (show
    (execute SchedCall.step sleeperCalls bootedTask).any (fun s =>
      decide (8192 ∈ s.tasks.created) && (s.tasks.tcb 8192).id == 1 &&
      (execute (LookupEvent.run 1 4) [.advance, .advance, .irq0Handler, .advance, .advance]
        (Lookup.start s)).any (fun m => m.pc == .done taskStateNotFound &&
          m.sched.tasks.state 8192 == taskStateReadyToRun)) = true by decide +kernel)
  simp only [Bool.and_eq_true, decide_eq_true_eq, beq_iff_eq, Option.any_eq_true] at h
  obtain ⟨⟨hmem, hid⟩, m, hm, hpc, hstate⟩ := h
  exact ⟨s, m, Trace.of_execute (fun _ _ _ => SchedCall.step_spec) hs, hmem, hid,
    Trace.of_execute (fun _ _ _ => LookupEvent.run_spec) hm, hpc, hstate⟩

end Run

end ChoOS
