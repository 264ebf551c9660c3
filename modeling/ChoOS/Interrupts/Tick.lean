import ChoOS.Interrupts.Timer
import ChoOS.Sched.Scheduler

/-!
# One tick of the timer

`irq_0_handler` calls the events of the list one after the other, and reads `next` of
an event after its callback has returned.  A callback may install and uninstall events,
its own as well.  A tick is a run of the handler and the callbacks, `TickStep`.

An event that uninstalls itself is freed, and the handler reads `next` from free
memory.  `kfree` writes to headers only, so the word is still there; but the next
`kmalloc` may give the memory to a new event, whose `next` is the head of the list, and
then the tick starts again.  And when the event behind it is uninstalled as well, the
word is the pointer of a freed event.

`Tick.Allows` excludes these two.  `TickInv` is what holds then between any two steps
(`GoodStep.inv`), and `events_once` what follows for the tick.
-/

namespace ChoOS

/-! ### The handler -/

/-- The handler stands at `node`, in front of the test of its loop or in the callback. -/
structure Tick where
  timer : Timer
  ticksSinceBoot : Nat
  node : Nat
  running : Bool

inductive TickEvent
  | invoke (event func : Nat)
  | call (c : TimerCall)
  | ret
  deriving DecidableEq

/-- One step of `irq_0_handler` or of the callback that it has called. -/
inductive TickStep : Tick → TickEvent → Tick → Prop
  | invoke {s : Timer} {ticks node func : Nat} : node ≠ 0 → eventFunc s.mem node = func →
      TickStep ⟨s, ticks, node, false⟩ (.invoke node func) ⟨s, ticks, node, true⟩
  | call {s s' : Timer} {ticks node : Nat} {c : TimerCall} : TimerStep s c s' →
      TickStep ⟨s, ticks, node, true⟩ (.call c) ⟨s', ticks, node, true⟩
  | ret {s : Timer} {ticks node next : Nat} : eventNext s.mem node = next →
      TickStep ⟨s, ticks, node, true⟩ .ret ⟨s, ticks, next, false⟩

/-- The handler starts, with one tick more. -/
def Tick.start (ticks : Nat) (s : Timer) : Tick := ⟨s, u64 (ticks + 1), s.timerEvents, false⟩

/-- The handler has returned. -/
def Tick.Done (t : Tick) : Prop := t.running = false ∧ t.node = 0

/-- The callback leaves the memory of a freed event and the event `next` alone: `kmalloc`
finds its block elsewhere, and `next` is not uninstalled. -/
def TimerCall.Spares (h : Heap Machine) (node next : Nat) : TimerCall → Prop
  | .install _ _ => ∀ b, SearchEnds h sizeofTimerEvent b → node + 8 ≤ b ∨ b + 24 ≤ node
  | .uninstall event => event = 0 ∨ event ≠ next

/-- What a callback must spare, once it has uninstalled its own event. -/
def Tick.Allows (t : Tick) : TickEvent → Prop
  | .call c => t.node ∈ t.timer.events ∨
      c.Spares t.timer.heap t.node (eventNext t.timer.mem t.node)
  | _ => True

def GoodStep (t : Tick) (ev : TickEvent) (t' : Tick) : Prop := t.Allows ev ∧ TickStep t ev t'

/-! ### What is done and what is left -/

/-- The events that were called, with the function of each. -/
def invoked (es : List TickEvent) : List (Nat × Nat) :=
  es.filterMap fun
    | .invoke event func => some (event, func)
    | _ => none

/-- The events that were not uninstalled. -/
def remaining (es : List TickEvent) (l : List (Nat × Nat)) : List (Nat × Nat) :=
  l.filter fun p => TickEvent.call (.uninstall p.1) ∉ es

/-- The pointer that a walk of the list starts with. -/
def firstOf (l : List (Nat × Nat)) : Nat := (l.map Prod.fst).headD 0

section History

variable {es : List TickEvent} {l : List (Nat × Nat)} {ev : TickEvent} {event func : Nat}

theorem remaining_concat (h : ∀ event, ev ≠ .call (.uninstall event)) :
    remaining (es ++ [ev]) l = remaining es l := by
  refine List.filter_congr fun p _ => ?_
  have := h p.1
  simp [this.symm]

theorem remaining_uninstall :
    remaining (es ++ [.call (.uninstall event)]) l
      = Timer.installedWithout (remaining es l) event := by
  rw [Timer.installedWithout, remaining, remaining, List.filter_filter]
  refine List.filter_congr fun p _ => ?_
  simp [and_comm]

theorem count_invoke (es : List TickEvent) (event func : Nat) :
    es.count (.invoke event func) = (invoked es).count (event, func) := by
  induction es with
  | nil => rfl
  | cons ev es ih =>
    cases ev with
    | invoke event' func' =>
      change _ = List.count (event, func) ((event', func') :: invoked es)
      rw [List.count_cons, List.count_cons, ih]
      simp
    | call c => rw [List.count_cons_of_ne (by simp), ih]; rfl
    | ret => rw [List.count_cons_of_ne (by simp), ih]; rfl

theorem mem_remaining {p : Nat × Nat} :
    p ∈ remaining es l ↔ p ∈ l ∧ TickEvent.call (.uninstall p.1) ∉ es := by
  rw [remaining, List.mem_filter, decide_eq_true_eq]

theorem installedWithout_append (l l' : List (Nat × Nat)) :
    Timer.installedWithout (l ++ l') event
      = Timer.installedWithout l event ++ Timer.installedWithout l' event := List.filter_append ..

theorem installedWithout_cons_self :
    Timer.installedWithout ((event, func) :: l) event = Timer.installedWithout l event :=
  List.filter_cons_of_neg (by simp)

theorem installedWithout_cons_of_ne {p : Nat × Nat} (h : p.1 ≠ event) :
    Timer.installedWithout (p :: l) event = p :: Timer.installedWithout l event :=
  List.filter_cons_of_pos (by simpa using h)

theorem firstOf_installedWithout (h : event = 0 ∨ event ≠ firstOf l) (h0 : ∀ p ∈ l, p.1 ≠ 0) :
    firstOf (Timer.installedWithout l event) = firstOf l := by
  cases l with
  | nil => rfl
  | cons p l =>
    have hne : p.1 ≠ event := by
      rcases h with rfl | h
      · exact h0 p (by simp)
      · exact Ne.symm h
    rw [installedWithout_cons_of_ne hne]
    rfl

end History

/-! ### The invariant -/

/-- The memory of an event, freed or not: neither a header nor another event is there. -/
structure Apart (s : Timer) (bs : List Nat) (node : Nat) : Prop where
  below : node + 16 ≤ s.heap.programBreakPoint
  header : ∀ b ∈ bs, node + 8 ≤ b ∨ b + 8 ≤ node
  event : ∀ e ∈ s.events, e ≠ node → node + 8 ≤ e ∨ e + 8 ≤ node

/-- Where the handler stands; `rest` are the events that it has still to call. -/
inductive Position (s : Timer) (bs : List Nat) (node : Nat) (rest : List (Nat × Nat)) :
    Bool → Prop
  | between {l : List (Nat × Nat)} : s.installed = l ++ rest → node = firstOf rest →
      Position s bs node rest false
  | within {l : List (Nat × Nat)} {func : Nat} :
      s.installed = l ++ (node, func) :: rest → Position s bs node rest true
  | gone {l : List (Nat × Nat)} : s.installed = l ++ rest → node ∉ s.events →
      Apart s bs node → eventNext s.mem node = firstOf rest → Position s bs node rest true

/-- Of the events `inst` that were there before the tick, `called` are behind the handler
and `rest` in front of it. -/
structure TickInv (inst : List (Nat × Nat)) (es : List TickEvent) (t : Tick) (bs : List Nat)
    (called rest : List (Nat × Nat)) : Prop where
  timer : t.timer.Inv bs
  split : inst = called ++ rest
  once : (invoked es).Sublist called
  all : ∀ p ∈ called, TickEvent.call (.uninstall p.1) ∈ es ∨ p ∈ invoked es
  position : Position t.timer bs t.node (remaining es rest) t.running

section Steps

variable {s s' : Timer} {bs bs' : List Nat} {node func : Nat} {front rest : List (Nat × Nat)}
  {es : List TickEvent} {c : TimerCall}

theorem Timer.Inv.next_eq (hI : s.Inv bs) (hi : s.installed = front ++ (node, func) :: rest) :
    eventNext s.mem node = firstOf rest := by
  have hlist := hI.list
  rw [Timer.events, hi, List.map_append, List.map_cons] at hlist
  exact (seg_append_cons.mp hlist).2.start_eq

theorem Timer.Inv.apart_of_mem (hI : s.Inv bs) (h : node ∈ s.events) : Apart s bs node :=
  ⟨HeapInv.live_below hI.blocks (hI.live node h), fun _ hb => hI.header_apart h hb,
    fun _ he hne => hI.apart h he hne⟩

theorem Timer.Inv.rest_eq (hI : s.Inv bs) (hi : s.installed = front ++ (node, func) :: rest) :
    Timer.installedWithout rest node = rest := by
  have hnodup := hI.nodup
  rw [Timer.events, hi, List.map_append, List.map_cons, List.nodup_middle] at hnodup
  refine List.filter_eq_self.mpr fun p hp => ?_
  have hne : p.1 ≠ node := fun he =>
    (List.nodup_cons.mp hnodup).1 (List.mem_append_right _ (List.mem_map.mpr ⟨p, hp, he⟩))
  simpa using hne

theorem Apart.next_eq {m : ByteMem} (hA : Apart s bs node) (hI : s.Inv bs)
    (hm : ∀ x, node ≤ x → x < node + 8 → m x = s.mem x) :
    eventNext m node = eventNext s.mem node := by
  have hbrk := HeapInv.brk_le hI.blocks
  have hbelow := hA.below
  have hsize : sizeofTimerEvent = 8 := rfl
  exact (event_congr (by omega) fun i hi => hm _ (by omega) (by omega)).2

theorem Position.invoke (hI : s.Inv bs) (h : Position s bs node rest false) (h0 : node ≠ 0) :
    ∃ front rest', rest = (node, eventFunc s.mem node) :: rest' ∧
      s.installed = front ++ (node, eventFunc s.mem node) :: rest' := by
  cases h with
  | @between front hi hfirst =>
    cases rest with
    | nil => exact absurd hfirst h0
    | cons p rest =>
      obtain rfl : node = p.1 := hfirst
      have hfunc := hI.func p (by simp [hi])
      exact ⟨front, rest, by rw [hfunc], by rw [hi, hfunc]⟩

theorem Position.ret (hI : s.Inv bs) (h : Position s bs node rest true) :
    Position s bs (eventNext s.mem node) rest false := by
  cases h with
  | @within front func hi =>
    exact .between (l := front ++ [(node, func)]) (by rw [hi]; simp) (hI.next_eq hi)
  | gone hi _ _ hnext => exact .between hi hnext

theorem Position.install {r ev : Nat} {h' : Heap Machine} (hI : s.Inv bs)
    (hh : HonestRequest s.heap sizeofTimerEvent) (h : Position s bs node rest true)
    (hok : node ∈ s.events ∨
      ∀ b, SearchEnds s.heap sizeofTimerEvent b → node + 8 ≤ b ∨ b + 24 ≤ node)
    (hcall : installTimerEvent func s.timerEvents s.heap = some (r, ev, h')) :
    ∃ bs', (s.afterInstall func r ev h').Inv bs' ∧
      Position (s.afterInstall func r ev h') bs' node rest true := by
  obtain ⟨r', ev', h'', bs', hcall', hframe, hI'⟩ := installTimerEvent_spec hI hh func
  obtain ⟨rfl, he⟩ := Prod.mk.inj (Option.some.inj (hcall.symm.trans hcall'))
  obtain ⟨rfl, rfl⟩ := Prod.mk.inj he
  refine ⟨bs', hI', ?_⟩
  obtain ⟨l, hl, hev⟩ := s.afterInstall_installed func r ev h'
  cases h with
  | @within front f hi =>
    have hinst : (s.afterInstall func r ev h').installed = (l ++ front) ++ (node, f) :: rest := by
      rw [hl, hi, List.append_assoc]
    exact .within hinst
  | @gone front hi hout hA hnext =>
    have hclear := hok.resolve_left hout
    have hbelow := hA.below
    have hinst : (s.afterInstall func r ev h').installed = (l ++ front) ++ rest := by
      rw [hl, hi, List.append_assoc]
    rcases hframe with ⟨rfl, hsame, rfl⟩ | ⟨hr, b, hb, rfl, hbrk, hbs, hm⟩
    · have hev : ∀ e ∈ (s.afterInstall func 0 ev h').events, e ∈ s.events := fun e he =>
        (hev e he).resolve_left fun h => h.1 rfl
      refine .gone hinst (fun h => hout (hev _ h)) ⟨?_, hA.header, fun e he => ?_⟩ ?_
      · exact hsame.brk.symm ▸ hbelow
      · exact hA.event e (hev e he)
      · exact (hA.next_eq hI fun x _ hx => hsame.below x (by omega)).trans hnext
    · have hfree := hclear b hb
      refine .gone hinst (fun h => ?_) ⟨le_trans hbelow hbrk, fun c hc => ?_, fun e he => ?_⟩ ?_
      · rcases hev _ h with ⟨-, rfl⟩ | h
        · omega
        · exact hout h
      · rcases hbs c hc with hc | rfl | rfl
        · exact hA.header c hc
        · omega
        · omega
      · rcases hev e he with ⟨-, rfl⟩ | he
        · omega
        · exact hA.event e he
      · exact (hA.next_eq hI fun x _ hx => hm x (by omega) (by omega)).trans hnext

/-- What the handler reads after its event was freed. -/
theorem Apart.gone {event ev : Nat} {m' : ByteMem} (hI : s.Inv bs) (hA : Apart s bs node)
    (hbs : bs' ⊆ bs) (hout : node ∈ s.events → event = node)
    (hbytes : ∀ x, (∀ b ∈ bs, x < b ∨ b + 8 ≤ x) →
      (∀ e ∈ s.events, e ≠ event → x < e ∨ e + 8 ≤ x) → m' x = s.mem x)
    (hi : (Timer.installedWithout s.installed event) = front ++ rest)
    (hnext : eventNext s.mem node = firstOf rest) :
    Position (s.afterUninstall event ev { s.heap with mem := m' }) bs' node rest true := by
  refine .gone hi (fun h => ?_) ⟨hA.below, fun b hb => hA.header b (hbs hb), fun e he => ?_⟩ ?_
  · obtain ⟨hmem, hne⟩ := Timer.events_afterUninstall h
    exact hne (hout hmem).symm
  · exact hA.event e (Timer.events_afterUninstall he).1
  · refine (hA.next_eq hI fun x _ hx => hbytes x (fun b hb => ?_) fun e he hne => ?_).trans hnext
    · have := hA.header b hb
      omega
    · have hnode : e ≠ node := by
        rintro rfl
        exact hne (hout he).symm
      have := hA.event e he hnode
      omega

theorem Position.uninstall {event ev : Nat} {h' : Heap Machine} (hI : s.Inv bs)
    (h : Position s bs node rest true)
    (hok : node ∈ s.events ∨ event = 0 ∨ event ≠ eventNext s.mem node)
    (hcall : uninstallTimerEvent event s.timerEvents s.heap = some (ev, h')) :
    ∃ bs', (s.afterUninstall event ev h').Inv bs' ∧
      Position (s.afterUninstall event ev h') bs' node (Timer.installedWithout rest event) true := by
  obtain ⟨ev', m', bs', hcall', hbs, hI', hbytes⟩ := uninstallTimerEvent_spec hI event
  obtain ⟨rfl, rfl⟩ := Prod.mk.inj (Option.some.inj (hcall.symm.trans hcall'))
  refine ⟨bs', hI', ?_⟩
  cases h with
  | @within front f hi =>
    have hinst : Timer.installedWithout s.installed event = Timer.installedWithout front event ++
        Timer.installedWithout ((node, f) :: rest) event := by
      rw [hi, installedWithout_append]
    by_cases he : event = node
    · -- its own event: the memory is free, and the word still there
      subst he
      have hmem : event ∈ s.events := Timer.Inv.mem_events (p := (event, f)) (by simp [hi])
      have hrest := hI.rest_eq hi
      rw [installedWithout_cons_self, hrest] at hinst
      rw [hrest]
      exact (hI.apart_of_mem hmem).gone hI hbs (fun _ => rfl) hbytes hinst (hI.next_eq hi)
    · rw [installedWithout_cons_of_ne (Ne.symm he)] at hinst
      exact .within hinst
  | @gone front hi hout hA hnext =>
    have hinst : Timer.installedWithout s.installed event
        = Timer.installedWithout front event ++ Timer.installedWithout rest event := by
      rw [hi, installedWithout_append]
    have h0 : ∀ p ∈ rest, p.1 ≠ 0 := fun p hp =>
      (hI.bounds (Timer.Inv.mem_events (by rw [hi]; exact List.mem_append_right _ hp))).1
    have hfirst := hok.resolve_left hout
    rw [hnext] at hfirst
    exact hA.gone hI hbs (fun h => absurd h hout) hbytes hinst
      (hnext.trans (firstOf_installedWithout hfirst h0).symm)

variable {inst called : List (Nat × Nat)} {t t' : Tick} {ev : TickEvent}

theorem TickInv.step (h : TickInv inst es t bs called rest) (hinv : invoked [ev] = [])
    (hI : t'.timer.Inv bs')
    (hpos : Position t'.timer bs' t'.node (remaining (es ++ [ev]) rest) t'.running) :
    TickInv inst (es ++ [ev]) t' bs' called rest := by
  have hinv : invoked (es ++ [ev]) = invoked es := by
    rw [invoked, List.filterMap_append, ← invoked, ← invoked, hinv, List.append_nil]
  refine ⟨hI, h.split, hinv ▸ h.once, fun p hp => ?_, hpos⟩
  rw [hinv]
  exact (h.all p hp).imp_left fun h => List.mem_append_left _ h

theorem TickInv.invoke {s : Timer} {ticks : Nat} (h : TickInv inst es ⟨s, ticks, node, false⟩ bs called rest)
    (h0 : node ≠ 0) :
    ∃ gone rest', rest = gone ++ (node, eventFunc s.mem node) :: rest' ∧
      TickInv inst (es ++ [.invoke node (eventFunc s.mem node)]) ⟨s, ticks, node, true⟩ bs
        (called ++ gone ++ [(node, eventFunc s.mem node)]) rest' := by
  obtain ⟨front, rest₁, hrest, hi⟩ := h.position.invoke h.timer h0
  obtain ⟨gone, rest', hsplit, hgone, -, hrest'⟩ := List.filter_eq_cons_iff.mp hrest
  refine ⟨gone, rest', hsplit, h.timer, ?_, ?_, ?_, ?_⟩
  · rw [h.split, hsplit]
    simp
  · rw [invoked, List.filterMap_append, ← invoked]
    exact (h.once.trans (List.sublist_append_left _ _)).append (List.Sublist.refl _)
  · intro p hp
    rw [invoked, List.filterMap_append, ← invoked]
    rcases List.mem_append.mp hp with hp | hp
    · rcases List.mem_append.mp hp with hp | hp
      · exact (h.all p hp).imp (List.mem_append_left _) (List.mem_append_left _)
      · exact .inl (List.mem_append_left _ (by simpa using hgone p hp))
    · exact .inr (List.mem_append_right _ hp)
  · rw [remaining_concat (by simp), remaining, hrest']
    exact .within hi

theorem GoodStep.inv (h : TickInv inst es t bs called rest) (hs : GoodStep t ev t') :
    ∃ bs' called' rest', TickInv inst (es ++ [ev]) t' bs' called' rest' := by
  obtain ⟨hok, hs⟩ := hs
  cases hs with
  | @invoke s ticks node func h0 hfunc =>
    subst hfunc
    obtain ⟨gone, rest', -, h'⟩ := h.invoke h0
    exact ⟨bs, _, rest', h'⟩
  | @call s s' ticks node c hc =>
    cases hc with
    | install hh hcall =>
      obtain ⟨bs', hI', hpos⟩ := h.position.install h.timer hh hok hcall
      exact ⟨bs', called, rest, h.step rfl hI' (by rwa [remaining_concat (by simp)])⟩
    | uninstall hcall =>
      obtain ⟨bs', hI', hpos⟩ := h.position.uninstall h.timer hok hcall
      exact ⟨bs', called, rest, h.step rfl hI' (by rwa [remaining_uninstall])⟩
  | ret hnext =>
    subst hnext
    have hpos := h.position.ret h.timer
    exact ⟨bs, called, rest, h.step rfl h.timer (by rwa [remaining_concat (by simp)])⟩

end Steps

/-! ### Whole ticks -/

section Run

variable {s : Timer} {ticks : Nat} {bs : List Nat} {es : List TickEvent} {t : Tick}

theorem tick_inv (hI : s.Inv bs) (h : Trace GoodStep (Tick.start ticks s) es t) :
    ∃ bs called rest, TickInv s.installed es t bs called rest := by
  have hstart : TickInv s.installed [] (Tick.start ticks s) bs [] s.installed := by
    refine ⟨hI, rfl, List.Sublist.refl _, by simp, ?_⟩
    have hrem : remaining [] s.installed = s.installed := List.filter_eq_self.mpr (by simp)
    rw [hrem]
    exact .between (l := []) rfl hI.list.start_eq
  refine h.history (I := fun es t => ∃ bs called rest, TickInv s.installed es t bs called rest)
    ⟨_, _, _, hstart⟩ ?_
  rintro es t ev t' ⟨bs, called, rest, hI⟩ hs
  exact GoodStep.inv hI hs

theorem TickInv.nodup {bs' : List Nat} {called rest : List (Nat × Nat)} (hI : s.Inv bs)
    (h : TickInv s.installed es t bs' called rest) : (called ++ rest).Nodup := by
  rw [← h.split]
  exact hI.nodup.of_map

theorem TickInv.count_le {bs' : List Nat} {called rest : List (Nat × Nat)} (hI : s.Inv bs)
    (h : TickInv s.installed es t bs' called rest) (event func : Nat) :
    es.count (.invoke event func) ≤ 1 := by
  rw [count_invoke]
  exact List.nodup_iff_count_le_one.mp ((h.nodup hI).of_append_left.sublist h.once) _

theorem TickInv.done {called rest : List (Nat × Nat)} {p : Nat × Nat}
    (h : TickInv s.installed es t bs called rest) (hd : t.Done) (hp : p ∈ s.installed)
    (hkept : TickEvent.call (.uninstall p.1) ∉ es) : p ∈ invoked es := by
  obtain ⟨hr, h0⟩ := hd
  have hpos := h.position
  rw [hr, h0] at hpos
  rcases List.mem_append.mp (h.split ▸ hp) with hp | hp
  · exact (h.all p hp).resolve_left hkept
  · have hmem : p ∈ remaining es rest := mem_remaining.mpr ⟨hp, hkept⟩
    cases hpos with
    | @between l hi hfirst =>
      cases hrest : remaining es rest with
      | nil =>
        rw [hrest] at hmem
        cases hmem
      | cons q l' =>
        rw [hrest] at hi hfirst
        have hq := (h.timer.bounds (Timer.Inv.mem_events (p := q) (by simp [hi]))).1
        exact absurd hfirst.symm hq

/-- **An event that is called** was there before the tick, was not uninstalled since, and
is called for the first time. -/
theorem tick_invoke {es₁ es₂ : List TickEvent} {event func : Nat} (hI : s.Inv bs)
    (h : Trace GoodStep (Tick.start ticks s) (es₁ ++ .invoke event func :: es₂) t) :
    (event, func) ∈ s.installed ∧ TickEvent.call (.uninstall event) ∉ es₁ := by
  rw [List.append_cons] at h
  obtain ⟨t₂, h₂, -⟩ := h.split
  obtain ⟨t₁, h₁, -, hs⟩ := h₂.unsnoc
  obtain ⟨bs', called, rest, hinv⟩ := tick_inv hI h₁
  cases hs with
  | invoke h0 hfunc =>
    subst hfunc
    obtain ⟨front, rest', hrest, -⟩ := hinv.position.invoke hinv.timer h0
    obtain ⟨hmem, hkept⟩ := mem_remaining.mp (hrest ▸ List.mem_cons_self)
    refine ⟨?_, hkept⟩
    rw [hinv.split]
    exact List.mem_append_right _ hmem

variable {magic kernelEnd : Nat} {mbd : Multiboot} {mem : Nat → Page} {m : ByteMem} {f : Frames}
  {d : Tables} {ram : Nat → UInt8} {h₀ : Heap Machine} {ks : List TimerHeapEvent}

/-- **Every event is called once.**  From boot on, in any tick whose callbacks spare what
they have freed: when the handler returns it has called each event once that was
installed before and not uninstalled; at no time has it called an event twice, or one that
was uninstalled or new; and no call in a callback hangs. -/
theorem events_once (hdir : pmmDirectoryInit magic kernelEnd mbd mem = some (f, d))
    (hinit : heapInit kernelEnd m (Machine.start f d ram) = some h₀)
    (hrun : Trace TimerHeapStep (Timer.start h₀) ks s)
    (htick : Trace GoodStep (Tick.start ticks s) es t) :
    (t.Done → ∀ p ∈ s.installed, .call (.uninstall p.1) ∉ es → es.count (.invoke p.1 p.2) = 1) ∧
    (∀ event func, es.count (.invoke event func) ≤ 1) ∧
    (∀ es₁ event func es₂, es = es₁ ++ .invoke event func :: es₂ →
      (event, func) ∈ s.installed ∧ .call (.uninstall event) ∉ es₁) ∧
    (∀ event, (uninstallTimerEvent event t.timer.timerEvents t.timer.heap).isSome) ∧
    (HonestRequest t.timer.heap sizeofTimerEvent →
      ∀ func, (installTimerEvent func t.timer.timerEvents t.timer.heap).isSome) := by
  obtain ⟨bs, hI⟩ := timer_run_inv hdir hinit hrun
  obtain ⟨bs', called, rest, hinv⟩ := tick_inv hI htick
  have hle := hinv.count_le hI
  refine ⟨fun hd p hp hkept => ?_, hle, ?_, fun event => ?_, fun hh func => ?_⟩
  · have hmem := hinv.done hd hp hkept
    have hpos : 0 < es.count (.invoke p.1 p.2) := by
      rw [count_invoke]
      exact List.count_pos_iff.mpr hmem
    exact le_antisymm (hle _ _) hpos
  · rintro es₁ event func es₂ rfl
    exact tick_invoke hI htick
  · obtain ⟨ev, m', -, hcall, -⟩ := uninstallTimerEvent_spec hinv.timer event
    rw [hcall]
    rfl
  · obtain ⟨r, ev, h', -, hcall, -⟩ := installTimerEvent_spec hinv.timer hh func
    rw [hcall]
    rfl

/-- Two events are installed, the second at `0xC0120018` in front of the first.  Then the
second uninstalls itself; or the first does, and installs a third, which gets its memory. -/
theorem two_events : ∃ h₀ h₁ h₂ : Heap Machine,
    heapInit 0xC0120000 (fun _ => 0) (Machine.start oneEntryInit.1 oneEntryInit.2 fun _ => 0)
      = some h₀ ∧ h₀.programBreakPoint = 0xC0400000 ∧
    installTimerEvent 0xC0101000 0 h₀ = some (0xC0120008, 0xC0120008, h₁) ∧
    h₁.programBreakPoint = 0xC0400000 ∧
    installTimerEvent 0xC0102000 0xC0120008 h₁ = some (0xC0120018, 0xC0120018, h₂) ∧
    eventFunc h₂.mem 0xC0120018 = 0xC0102000 ∧ eventNext h₂.mem 0xC0120018 = 0xC0120008 ∧
    eventFunc h₂.mem 0xC0120008 = 0xC0101000 ∧
    (∃ h₃, uninstallTimerEvent 0xC0120018 0xC0120018 h₂ = some (0xC0120008, h₃) ∧
      eventNext h₃.mem 0xC0120018 = 0xC0120008 ∧ eventFunc h₃.mem 0xC0120008 = 0xC0101000 ∧
      eventNext h₃.mem 0xC0120008 = 0) ∧
    ∃ h₃, uninstallTimerEvent 0xC0120008 0xC0120018 h₂ = some (0xC0120018, h₃) ∧
      h₃.programBreakPoint = 0xC0400000 ∧
      ∃ h₄, installTimerEvent 0xC0103000 0xC0120018 h₃ = some (0xC0120008, 0xC0120008, h₄) ∧
        eventNext h₄.mem 0xC0120008 = 0xC0120018 ∧ eventFunc h₄.mem 0xC0120018 = 0xC0102000 ∧
        eventNext h₄.mem 0xC0120018 = 0 :=
  ⟨_, _, _, rfl, rfl, rfl, rfl, rfl, rfl, rfl, rfl, ⟨_, rfl, rfl, rfl, rfl⟩,
    _, rfl, rfl, _, rfl, rfl, rfl, rfl⟩

theorem honest_event {h : Heap Machine} (hbrk : h.programBreakPoint = 0xC0400000) :
    HonestRequest h sizeofTimerEvent :=
  ⟨by decide, fun _ => .inl (by rw [hbrk]; decide)⟩

theorem two_events_run {h₀ h₁ h₂ : Heap Machine} (hbrk₀ : h₀.programBreakPoint = 0xC0400000)
    (hcall₁ : installTimerEvent 0xC0101000 0 h₀ = some (0xC0120008, 0xC0120008, h₁))
    (hbrk₁ : h₁.programBreakPoint = 0xC0400000)
    (hcall₂ : installTimerEvent 0xC0102000 0xC0120008 h₁ = some (0xC0120018, 0xC0120018, h₂)) :
    ∃ s : Timer, s.heap = h₂ ∧ s.timerEvents = 0xC0120018 ∧
      s.installed = [(0xC0120018, 0xC0102000), (0xC0120008, 0xC0101000)] ∧
      Trace TimerHeapStep (Timer.start h₀) [.timer (.install 0xC0101000 0xC0120008),
        .timer (.install 0xC0102000 0xC0120018)] s := by
  have hstep₁ : TimerHeapStep (Timer.start h₀) (.timer (.install 0xC0101000 0xC0120008))
      ((Timer.start h₀).afterInstall 0xC0101000 0xC0120008 0xC0120008 h₁) :=
    .timer (.install (honest_event hbrk₀) hcall₁)
  have hstep₂ := TimerHeapStep.timer (.install
    (s := (Timer.start h₀).afterInstall 0xC0101000 0xC0120008 0xC0120008 h₁)
    (honest_event hbrk₁) hcall₂)
  exact ⟨_, rfl, rfl, rfl, (Trace.single hstep₁).snoc hstep₂⟩

/-- The second event uninstalls itself. -/
def tickUninstalled : List TickEvent :=
  [.invoke 0xC0120018 0xC0102000, .call (.uninstall 0xC0120018), .ret,
    .invoke 0xC0120008 0xC0101000, .ret]

theorem events_once_oneEntry : ∃ h₀ s t,
    heapInit 0xC0120000 (fun _ => 0) (Machine.start oneEntryInit.1 oneEntryInit.2 fun _ => 0)
      = some h₀ ∧
    Trace TimerHeapStep (Timer.start h₀) [.timer (.install 0xC0101000 0xC0120008),
      .timer (.install 0xC0102000 0xC0120018)] s ∧
    Trace GoodStep (Tick.start 0 s) tickUninstalled t ∧ t.Done ∧
    tickUninstalled.count (.invoke 0xC0120008 0xC0101000) = 1 := by
  obtain ⟨h₀, h₁, h₂, hinit, hbrk₀, hcall₁, hbrk₁, hcall₂, hfunc₂, -, -,
    ⟨h₃, hcall₃, hnext₂, hfunc₁, hnext₁⟩, -⟩ := two_events
  obtain ⟨s, rfl, hhead, hinst, hrun⟩ := two_events_run hbrk₀ hcall₁ hbrk₁ hcall₂
  have hmem : 0xC0120018 ∈ s.events := by simp [Timer.events, hinst]
  have hstart : Tick.start 0 s = ⟨s, 1, 0xC0120018, false⟩ := by rw [Tick.start, hhead]; rfl
  have hstep₁ : GoodStep ⟨s, 1, 0xC0120018, false⟩ (.invoke 0xC0120018 0xC0102000)
      ⟨s, 1, 0xC0120018, true⟩ := ⟨trivial, .invoke (by decide) hfunc₂⟩
  have hstep₂ : GoodStep ⟨s, 1, 0xC0120018, true⟩ (.call (.uninstall 0xC0120018))
      ⟨s.afterUninstall 0xC0120018 0xC0120008 h₃, 1, 0xC0120018, true⟩ :=
    ⟨.inl hmem, .call (.uninstall (by rw [hhead]; exact hcall₃))⟩
  have hstep₃ : GoodStep ⟨s.afterUninstall 0xC0120018 0xC0120008 h₃, 1, 0xC0120018, true⟩ .ret
      ⟨s.afterUninstall 0xC0120018 0xC0120008 h₃, 1, 0xC0120008, false⟩ := ⟨trivial, .ret hnext₂⟩
  have hstep₄ : GoodStep ⟨s.afterUninstall 0xC0120018 0xC0120008 h₃, 1, 0xC0120008, false⟩
      (.invoke 0xC0120008 0xC0101000)
      ⟨s.afterUninstall 0xC0120018 0xC0120008 h₃, 1, 0xC0120008, true⟩ :=
    ⟨trivial, .invoke (by decide) hfunc₁⟩
  have hstep₅ : GoodStep ⟨s.afterUninstall 0xC0120018 0xC0120008 h₃, 1, 0xC0120008, true⟩ .ret
      ⟨s.afterUninstall 0xC0120018 0xC0120008 h₃, 1, 0, false⟩ := ⟨trivial, .ret hnext₁⟩
  have htick := ((((Trace.single hstep₁).snoc hstep₂).snoc hstep₃).snoc hstep₄).snoc hstep₅
  rw [← hstart] at htick
  exact ⟨h₀, s, _, hinit, hrun, htick, ⟨rfl, rfl⟩,
    (events_once oneEntryInit_eq hinit hrun htick).1 ⟨rfl, rfl⟩ (0xC0120008, 0xC0101000)
      (by simp [hinst]) (by decide)⟩

/-- The first event uninstalls itself and installs a third one. -/
def tickRestarted : List TickEvent :=
  [.invoke 0xC0120018 0xC0102000, .ret, .invoke 0xC0120008 0xC0101000,
    .call (.uninstall 0xC0120008), .call (.install 0xC0103000 0xC0120008), .ret,
    .invoke 0xC0120018 0xC0102000, .ret]

/-- The second event is called twice. -/
theorem event_twice : ∃ h₀ s t,
    heapInit 0xC0120000 (fun _ => 0) (Machine.start oneEntryInit.1 oneEntryInit.2 fun _ => 0)
      = some h₀ ∧
    Trace TimerHeapStep (Timer.start h₀) [.timer (.install 0xC0101000 0xC0120008),
      .timer (.install 0xC0102000 0xC0120018)] s ∧
    Trace TickStep (Tick.start 0 s) tickRestarted t ∧ t.Done ∧
    (0xC0120018, 0xC0102000) ∈ s.installed ∧ .call (.uninstall 0xC0120018) ∉ tickRestarted ∧
    tickRestarted.count (.invoke 0xC0120018 0xC0102000) = 2 := by
  obtain ⟨h₀, h₁, h₂, hinit, hbrk₀, hcall₁, hbrk₁, hcall₂, hfunc₂, hnext₂, hfunc₁, -,
    h₃, hcall₃, hbrk₃, h₄, hcall₄, hnext₄, hfunc₄, hlast⟩ := two_events
  obtain ⟨s, rfl, hhead, hinst, hrun⟩ := two_events_run hbrk₀ hcall₁ hbrk₁ hcall₂
  have hstart : Tick.start 0 s = ⟨s, 1, 0xC0120018, false⟩ := by rw [Tick.start, hhead]; rfl
  obtain ⟨s₃, hs₃⟩ : ∃ s₃, s₃ = s.afterUninstall 0xC0120008 0xC0120018 h₃ := ⟨_, rfl⟩
  obtain ⟨s₄, hs₄⟩ : ∃ s₄, s₄ = s₃.afterInstall 0xC0103000 0xC0120008 0xC0120008 h₄ := ⟨_, rfl⟩
  have hstep₁ : TickStep ⟨s, 1, 0xC0120018, false⟩ (.invoke 0xC0120018 0xC0102000)
      ⟨s, 1, 0xC0120018, true⟩ := .invoke (by decide) hfunc₂
  have hstep₂ : TickStep ⟨s, 1, 0xC0120018, true⟩ .ret ⟨s, 1, 0xC0120008, false⟩ := .ret hnext₂
  have hstep₃ : TickStep ⟨s, 1, 0xC0120008, false⟩ (.invoke 0xC0120008 0xC0101000)
      ⟨s, 1, 0xC0120008, true⟩ := .invoke (by decide) hfunc₁
  have hstep₄ : TickStep ⟨s, 1, 0xC0120008, true⟩ (.call (.uninstall 0xC0120008))
      ⟨s₃, 1, 0xC0120008, true⟩ := hs₃ ▸ .call (.uninstall (by rw [hhead]; exact hcall₃))
  have hstep₅ : TickStep ⟨s₃, 1, 0xC0120008, true⟩ (.call (.install 0xC0103000 0xC0120008))
      ⟨s₄, 1, 0xC0120008, true⟩ := by
    subst hs₃ hs₄
    exact .call (.install (honest_event hbrk₃) hcall₄)
  have hmem₄ : s₄.mem = h₄.mem := by rw [hs₄]; rfl
  have hstep₆ : TickStep ⟨s₄, 1, 0xC0120008, true⟩ .ret ⟨s₄, 1, 0xC0120018, false⟩ :=
    .ret (hmem₄ ▸ hnext₄)
  have hstep₇ : TickStep ⟨s₄, 1, 0xC0120018, false⟩ (.invoke 0xC0120018 0xC0102000)
      ⟨s₄, 1, 0xC0120018, true⟩ := .invoke (by decide) (hmem₄ ▸ hfunc₄)
  have hstep₈ : TickStep ⟨s₄, 1, 0xC0120018, true⟩ .ret ⟨s₄, 1, 0, false⟩ := .ret (hmem₄ ▸ hlast)
  have htick := (((((((Trace.single hstep₁).snoc hstep₂).snoc hstep₃).snoc hstep₄).snoc
    hstep₅).snoc hstep₆).snoc hstep₇).snoc hstep₈
  rw [← hstart] at htick
  exact ⟨h₀, s, _, hinit, hrun, htick, ⟨rfl, rfl⟩, by simp [hinst], by decide, by decide⟩

end Run

end ChoOS
