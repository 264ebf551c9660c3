import ChoOS.Heap.Honest
import ChoOS.Heap.Store

/-!
# The list of timer events

The list of `timer.c`: an event is an allocation of eight bytes with the words `func`
and `next`, and `timer_events` is the head.  `install_timer_event` puts an event in
front, `uninstall_timer_event` takes one off and frees it.

`installed` is history: the pointers of the events, the newest first, with the
functions that were given.  `Timer.Inv` says that the list in the memory is this
history, and each of its events a live allocation.

`installTimerEvent_spec` and `uninstallTimerEvent_spec` say what the calls do to it,
and `timer_run_inv` that it holds in every run from `heap_init`, whatever the rest of
the kernel does with its own allocations.
-/

namespace ChoOS

/-- `sizeof(struct TimerEvent)` -/
def sizeofTimerEvent : Nat := 8

/-! ### `struct TimerEvent` -/

def eventFunc (m : ByteMem) (event : Nat) : Nat := m.read32 event

def eventNext (m : ByteMem) (event : Nat) : Nat := m.read32 (event + 4)

/-! ### The calls -/

/-- `install_timer_event`: the result, then `timer_events`. -/
def installTimerEvent (func timerEvents : Nat) (h : Heap Machine) :
    Option (Nat × Nat × Heap Machine) := do
  let (newEvent, h) ← kmalloc sbrk sizeofTimerEvent h
  if newEvent = 0 then return (0, timerEvents, h)
  else
    let m := (h.mem.write32 newEvent func).write32 (newEvent + 4) 0
    if timerEvents = 0 then return (newEvent, newEvent, { h with mem := m })
    else return (newEvent, newEvent, { h with mem := m.write32 (newEvent + 4) timerEvents })

/-- `uninstall_timer_event`: `timer_events` after it. -/
def uninstallTimerEvent (event timerEvents : Nat) (h : Heap Machine) :
    Option (Nat × Heap Machine) := do
  if event = 0 ∨ timerEvents = 0 then return (timerEvents, h)
  else if timerEvents = event then
    let next := eventNext h.mem event
    let h ← kfree event h
    return (next, h)
  else
    let current ← follow (eventNext h.mem)
      (fun c => eventNext h.mem c == 0 || eventNext h.mem c == event) walkFuel timerEvents
    if eventNext h.mem current = 0 then return (timerEvents, h)
    else
      let m := h.mem.write32 (current + 4) (eventNext h.mem event)
      let h ← kfree event { h with mem := m }
      return (timerEvents, h)

/-! ### The list -/

/-- The heap with its live pointers, `timer_events`, and the events that are installed. -/
structure Timer where
  client : Client Machine
  timerEvents : Nat
  installed : List (Nat × Nat)

namespace Timer

def mem (s : Timer) : ByteMem := s.client.heap.mem

def heap (s : Timer) : Heap Machine := s.client.heap

/-- The pointers of the installed events. -/
def events (s : Timer) : List Nat := s.installed.map Prod.fst

/-- The list in the memory is the history. -/
structure Inv (s : Timer) (bs : List Nat) : Prop where
  blocks : s.heap.Inv s.client.live bs
  ready : Ready s.heap
  list : Seg (eventNext s.mem) s.timerEvents s.events 0
  live : ∀ e ∈ s.events, s.client.live e = some sizeofTimerEvent
  func : ∀ p ∈ s.installed, eventFunc s.mem p.1 = p.2

end Timer

section Event

variable {m m' : ByteMem} {e : Nat}

theorem event_congr (he : e + 8 ≤ 4294967296) (h : ∀ i < sizeofTimerEvent, m' (e + i) = m (e + i)) :
    eventFunc m' e = eventFunc m e ∧ eventNext m' e = eventNext m e := by
  have hsize : sizeofTimerEvent = 8 := rfl
  refine ⟨ByteMem.read32_congr (by omega) fun i hi => h i (by omega),
    ByteMem.read32_congr (by omega) fun i hi => ?_⟩
  rw [Nat.add_assoc]
  exact h _ (by omega)

end Event

namespace Timer.Inv

variable {s : Timer} {bs : List Nat} {e : Nat} {p : Nat × Nat}

theorem mem_events (hp : p ∈ s.installed) : p.1 ∈ s.events := List.mem_map_of_mem hp

theorem bounds (hI : s.Inv bs) (he : e ∈ s.events) : e ≠ 0 ∧ e + 16 ≤ 4290772992 := by
  have hlive := hI.live e he
  have hb := HeapInv.live_below hI.blocks hlive
  have hbrk := HeapInv.brk_le hI.blocks
  rw [sizeofTimerEvent] at hb
  exact ⟨HeapInv.live_ne_null hI.blocks hlive, by omega⟩

theorem null_notMem (hI : s.Inv bs) : 0 ∉ s.events := fun h => (hI.bounds h).1 rfl

theorem nodup (hI : s.Inv bs) : s.events.Nodup := hI.list.nodup hI.null_notMem

theorem length_lt (hI : s.Inv bs) : s.events.length < walkFuel := by
  have hsub : s.events ⊆ bs.map (· + 8) := by
    intro e he
    obtain ⟨b, hb, rfl⟩ := hI.blocks.mem_of_live _ _ (hI.live e he)
    exact List.mem_map_of_mem hb
  have hle := (hI.nodup.subperm hsub).length_le
  rw [List.length_map] at hle
  have := hI.blocks.blocks.length_lt
  omega

theorem apart {e' : Nat} (hI : s.Inv bs) (he : e ∈ s.events) (he' : e' ∈ s.events)
    (hne : e' ≠ e) : e + 8 ≤ e' ∨ e' + 8 ≤ e := by
  have hlive := hI.live e he
  obtain ⟨b, hb, rfl⟩ := hI.blocks.mem_of_live _ _ hlive
  have hroom := HeapInv.room hI.blocks b hb _ hlive
  have hsize : sizeofTimerEvent = 8 := rfl
  have hfirst := HeapInv.payload_disjoint hI.blocks hb (hI.live e' he') hne
    (show 0 < sizeofTimerEvent by decide)
  have hlast := HeapInv.payload_disjoint hI.blocks hb (hI.live e' he') hne
    (show 7 < sizeofTimerEvent by decide)
  omega

theorem header_apart {b : Nat} (hI : s.Inv bs) (he : e ∈ s.events) (hb : b ∈ bs) :
    e + 8 ≤ b ∨ b + 8 ≤ e := by
  have hfirst := HeapInv.header_disjoint hI.blocks hb (hI.live e he)
    (show 0 < sizeofTimerEvent by decide)
  have hlast := HeapInv.header_disjoint hI.blocks hb (hI.live e he)
    (show 7 < sizeofTimerEvent by decide)
  omega

theorem head_mem (hI : s.Inv bs) (hne : s.events ≠ []) : s.timerEvents ∈ s.events := by
  rw [hI.list.start_eq]
  cases he : s.events with
  | nil => exact absurd he hne
  | cons e es => simp

theorem timerEvents_lt (hI : s.Inv bs) : s.timerEvents < 4294967296 := by
  by_cases he : s.events = []
  · have hhead := hI.list.start_eq
    rw [he] at hhead
    rw [hhead]
    decide
  · have := hI.bounds (hI.head_mem he)
    omega

end Timer.Inv

/-! ### What the calls do -/

section Event

variable {m : ByteMem} {e func next x : Nat}

theorem event_write (he : e + 8 ≤ 4294967296) (hn : next < 4294967296) :
    eventFunc ((m.write32 e func).write32 (e + 4) next) e = u32 func ∧
      eventNext ((m.write32 e func).write32 (e + 4) next) e = next := by
  constructor
  · rw [eventFunc, ByteMem.read32_write32_of_disjoint (by omega) (by omega) (by omega),
      ByteMem.read32_write32_u32]
  · rw [eventNext, ByteMem.read32_write32 hn]

theorem event_write_of_disjoint (he : e + 8 ≤ 4294967296) (hx : x < e ∨ e + 8 ≤ x) :
    (m.write32 e func).write32 (e + 4) next x = m x := by
  rw [ByteMem.write32_of_disjoint (by omega) (by omega),
    ByteMem.write32_of_disjoint (by omega) (by omega)]

end Event

namespace Timer

/-- The events after `install_timer_event` returned `r`. -/
def installedWith (installed : List (Nat × Nat)) (func r : Nat) : List (Nat × Nat) :=
  if r = 0 then installed else (r, u32 func) :: installed

/-- The events after `uninstall_timer_event`. -/
def installedWithout (installed : List (Nat × Nat)) (event : Nat) : List (Nat × Nat) :=
  installed.filter fun p => p.1 ≠ event

/-- The live pointers after `uninstall_timer_event`. -/
def liveWithout (s : Timer) (event : Nat) : Live :=
  if event ∈ s.events then Function.update s.client.live event none else s.client.live

/-- After `install_timer_event` returned `r`. -/
def afterInstall (s : Timer) (func r ev : Nat) (h' : Heap Machine) : Timer :=
  ⟨⟨h', liveAlloc s.client.live sizeofTimerEvent r⟩, ev, installedWith s.installed func r⟩

def afterUninstall (s : Timer) (event ev : Nat) (h' : Heap Machine) : Timer :=
  ⟨⟨h', s.liveWithout event⟩, ev, installedWithout s.installed event⟩

theorem afterInstall_installed (s : Timer) (func r ev : Nat) (h' : Heap Machine) :
    ∃ l, (s.afterInstall func r ev h').installed = l ++ s.installed ∧
      ∀ e ∈ (s.afterInstall func r ev h').events, (r ≠ 0 ∧ e = r) ∨ e ∈ s.events := by
  by_cases hr : r = 0
  · have hi : (s.afterInstall func r ev h').installed = s.installed := if_pos hr
    exact ⟨[], hi, fun e he => .inr (by rwa [events, hi] at he)⟩
  · have hi : (s.afterInstall func r ev h').installed = (r, u32 func) :: s.installed := if_neg hr
    refine ⟨[(r, u32 func)], hi, fun e he => ?_⟩
    rw [events, hi, List.map_cons] at he
    rcases List.mem_cons.mp he with rfl | he
    · exact .inl ⟨hr, rfl⟩
    · exact .inr he

theorem events_afterUninstall {s : Timer} {event ev e : Nat} {h' : Heap Machine}
    (he : e ∈ (s.afterUninstall event ev h').events) : e ∈ s.events ∧ e ≠ event := by
  obtain ⟨p, hp, rfl⟩ := List.mem_map.mp he
  have hp := List.mem_filter.mp hp
  exact ⟨List.mem_map_of_mem hp.1, by simpa using hp.2⟩

end Timer

section Calls

variable {s s' : Timer} {bs bs' : List Nat} {func event e r : Nat} {h' : Heap Machine}

theorem Timer.Inv.transfer (hI : s.Inv bs) (hb : s'.heap.Inv s'.client.live bs')
    (hr : Ready s'.heap) (hhead : s'.timerEvents = s.timerEvents)
    (hinst : s'.installed = s.installed)
    (hlive : ∀ e ∈ s.events, s'.client.live e = some sizeofTimerEvent)
    (hbytes : ∀ e ∈ s.events, ∀ i < sizeofTimerEvent, s'.mem (e + i) = s.mem (e + i)) :
    s'.Inv bs' := by
  have hev : s'.events = s.events := congrArg (List.map Prod.fst) hinst
  have hwords : ∀ e ∈ s.events, eventFunc s'.mem e = eventFunc s.mem e ∧
      eventNext s'.mem e = eventNext s.mem e := fun e he => by
    have := hI.bounds he
    exact event_congr (by omega) (hbytes e he)
  refine ⟨hb, hr, ?_, ?_, ?_⟩
  · rw [hhead, hev]
    exact hI.list.congr fun e he => (hwords e he).2
  · rw [hev]
    exact hlive
  · intro p hp
    rw [hinst] at hp
    rw [(hwords p.1 (Timer.Inv.mem_events hp)).1]
    exact hI.func p hp

/-- What `install_timer_event` leaves alone: everything, when it returns `NULL`, and else all
below the end block but the block where the search of `kmalloc` ends. -/
def InstallFrame (h : Heap Machine) (bs : List Nat) (r : Nat) (h' : Heap Machine)
    (bs' : List Nat) : Prop :=
  (r = 0 ∧ SameHeap h h' ∧ bs' = bs) ∨
  (r ≠ 0 ∧ ∃ b, SearchEnds h sizeofTimerEvent b ∧ r = b + 8 ∧
    h.programBreakPoint ≤ h'.programBreakPoint ∧
    (∀ c ∈ bs', c ∈ bs ∨ c = b + 16 ∨ c = h.programBreakPoint - 8) ∧
    ∀ x, x < b ∨ b + 24 ≤ x → x + 8 < h.programBreakPoint → h'.mem x = h.mem x)

/-- The two branches on `timer_events` write the same. -/
theorem installTimerEvent_eq {h h₁ : Heap Machine} {timerEvents : Nat}
    (hk : kmalloc sbrk sizeofTimerEvent h = some (r, h₁)) (hr : r ≠ 0) (hr8 : r + 8 ≤ 4294967296) :
    installTimerEvent func timerEvents h = some (r, r,
      { h₁ with mem := (h₁.mem.write32 r func).write32 (r + 4) timerEvents }) := by
  rw [installTimerEvent, hk, Option.bind_eq_bind, Option.bind_some]
  dsimp only
  rw [if_neg hr]
  split
  · rename_i h0
    rw [h0]
    rfl
  · rw [ByteMem.write32_write32 (show r + 4 + 4 ≤ 4294967296 by omega)]
    rfl

theorem Timer.Inv.link {h₁ : Heap Machine} {m : ByteMem} (hI : s.Inv bs) (func : Nat) (hr : r ≠ 0)
    (hready : Ready h₁) (hfresh : s.client.live r = none)
    (hI₁ : h₁.Inv (Function.update s.client.live r (some sizeofTimerEvent)) bs')
    (hu : Untouched s.client.live 0 s.heap.mem h₁.mem)
    (hm : m = (h₁.mem.write32 r func).write32 (r + 4) s.timerEvents) :
    r + 8 ≤ 4294967296 ∧ (s.afterInstall func r r { h₁ with mem := m }).Inv bs' ∧
      ∀ x, x < r ∨ r + 8 ≤ x → m x = h₁.mem x := by
  have hlive : Function.update s.client.live r (some sizeofTimerEvent) r
      = some sizeofTimerEvent := Function.update_self _ _ _
  have hr8 : r + 8 ≤ 4294967296 := by
    have hbelow := HeapInv.live_below hI₁ hlive
    have hbrk := HeapInv.brk_le hI₁
    rw [sizeofTimerEvent] at hbelow
    omega
  have hout : ∀ x, x < r ∨ r + 8 ≤ x → m x = h₁.mem x := fun x hx => by
    rw [hm]
    exact event_write_of_disjoint hr8 hx
  obtain ⟨hI₂, hu₂⟩ := HeapInv.client_write hI₁ hlive hout
  have hne : ∀ e ∈ s.events, e ≠ r := by
    rintro e he rfl
    rw [hI.live e he] at hfresh
    cases hfresh
  have hkept : ∀ e ∈ s.events, Function.update s.client.live r (some sizeofTimerEvent) e
      = some sizeofTimerEvent := fun e he =>
    (Function.update_of_ne (hne e he) _ _).trans (hI.live e he)
  -- the words of the other events
  have hwords : ∀ e ∈ s.events, eventFunc m e = eventFunc s.mem e ∧
      eventNext m e = eventNext s.mem e := fun e he => by
    have := hI.bounds he
    refine event_congr (by omega) fun i hi => ?_
    exact (hu₂ e _ (hkept e he) (hne e he) i hi).trans
      (hu e _ (hI.live e he) (hI.bounds he).1 i hi)
  have hnew : eventFunc m r = u32 func ∧ eventNext m r = s.timerEvents := by
    rw [hm]
    exact event_write hr8 hI.timerEvents_lt
  refine ⟨hr8, ?_, hout⟩
  rw [Timer.afterInstall, liveAlloc_of_ne _ _ hr, Timer.installedWith, if_neg hr]
  refine ⟨hI₂, hready, ⟨rfl, ?_⟩, ?_, ?_⟩
  · change Seg (eventNext m) (eventNext m r) s.events 0
    rw [hnew.2]
    exact hI.list.congr fun e he => (hwords e he).2
  · intro e he
    rcases List.mem_cons.mp he with rfl | he
    · exact hlive
    · exact hkept e he
  · intro p hp
    rcases List.mem_cons.mp hp with rfl | hp
    · exact hnew.1
    · exact (hwords p.1 (Timer.Inv.mem_events hp)).1.trans (hI.func p hp)

/-- **`install_timer_event`** returns `NULL` and changes nothing, or puts an event in
front. -/
theorem installTimerEvent_spec (hI : s.Inv bs) (hh : HonestRequest s.heap sizeofTimerEvent)
    (func : Nat) :
    ∃ r ev h' bs', installTimerEvent func s.timerEvents s.heap = some (r, ev, h') ∧
      InstallFrame s.heap bs r h' bs' ∧
      (s.afterInstall func r ev h').Inv bs' := by
  have hcall : honestCalls s.heap sbrk (.kmalloc sizeofTimerEvent) ∧ Ready s.heap :=
    ⟨⟨rfl, .inr hh⟩, hI.ready⟩
  obtain ⟨r, h₁, hk, hres, L, hL, hbrkL, hIL⟩ := legal_kmalloc legalCalls_honest hI.blocks hcall
  have hready := ready_of_break hI.blocks hI.ready hh (kmalloc_break hk)
  rcases hres with ⟨rfl, hsame⟩ | ⟨hr, hfresh, -, -, hu⟩
  · refine ⟨0, s.timerEvents, h₁, bs, ?_, .inl ⟨rfl, hsame, rfl⟩, ?_⟩
    · rw [installTimerEvent, hk]
      rfl
    · rw [Timer.afterInstall, liveAlloc_null]
      have hinst : Timer.installedWith s.installed func 0 = s.installed := if_pos rfl
      refine hI.transfer (hsame.inv hI.blocks) hready rfl hinst hI.live fun e he => ?_
      exact hsame.untouched hI.blocks 0 e _ (hI.live e he) (hI.bounds he).1
  · have hI₁ : h₁.Inv (Function.update s.client.live r (some sizeofTimerEvent)) L.blocks := by
      rw [← hL.live_eq hr]
      exact hIL
    obtain ⟨hr8, hI', hout⟩ := hI.link func hr hready hfresh hI₁ hu rfl
    refine ⟨r, r, _, L.blocks, installTimerEvent_eq hk hr hr8, .inr ⟨hr, ?_⟩, hI'⟩
    obtain ⟨hsize, hsbrk⟩ := legalCalls_honest _ _ _ _ _ hI.blocks hcall
      (by simp [HeapCall.inPlace])
    obtain ⟨b, hb, rfl, hx⟩ := kmalloc_writes hI.blocks hsize hsbrk hk hr
    have ha : align sizeofTimerEvent = 8 := rfl
    change ∀ x, x < b ∨ b + 16 + align sizeofTimerEvent ≤ x → _ at hx
    refine ⟨b, hb, rfl, hbrkL ▸ hL.brk_le, fun c hc => ?_, fun x hxb hxe => ?_⟩
    · rcases hL.mem_blocks hc with hc | hc | hc
      · exact .inl hc
      · exact .inr (.inl (by omega))
      · exact .inr (.inr hc)
    · exact (hout x (by omega)).trans (hx x (by omega) hxe)

theorem Timer.Inv.split (hI : s.Inv bs) (he : event ∈ s.events) : ∃ i₁ f i₂,
    s.installed = i₁ ++ (event, f) :: i₂ ∧
    Timer.installedWithout s.installed event = i₁ ++ i₂ ∧
    ∀ p ∈ i₁ ++ i₂, p.1 ≠ event := by
  obtain ⟨⟨e, f⟩, hp, rfl⟩ := List.mem_map.mp he
  obtain ⟨i₁, i₂, hi⟩ := List.append_of_mem hp
  have hnodup := hI.nodup
  rw [Timer.events, hi, List.map_append, List.map_cons, List.nodup_middle] at hnodup
  have hne : ∀ p ∈ i₁ ++ i₂, p.1 ≠ e := by
    intro p hp he
    refine (List.nodup_cons.mp hnodup).1 ?_
    rw [← List.map_append]
    exact List.mem_map.mpr ⟨p, hp, he⟩
  refine ⟨i₁, f, i₂, hi, ?_, hne⟩
  have hkeep : ∀ l : List (Nat × Nat), (∀ p ∈ l, p.1 ≠ e) → l.filter (fun p => p.1 ≠ e) = l :=
    fun l hl => List.filter_eq_self.mpr fun p hp => by simpa using hl p hp
  rw [Timer.installedWithout, hi, List.filter_append, List.filter_cons_of_neg (by simp),
    hkeep i₁ fun p hp => hne p (by simp [hp]), hkeep i₂ fun p hp => hne p (by simp [hp])]

theorem Timer.Inv.kfree_event {m : ByteMem} {ev : Nat} {inst : List (Nat × Nat)}
    (hI : s.Inv bs) (he : event ∈ s.events)
    (hb : HeapInv m s.heap.heapStart s.heap.programBreakPoint s.client.live bs)
    (hinst : inst ⊆ s.installed) (hne : ∀ p ∈ inst, p.1 ≠ event)
    (hlist : Seg (eventNext m) ev (inst.map Prod.fst) 0)
    (hfunc : ∀ p ∈ inst, eventFunc m p.1 = p.2) :
    ∃ m' bs', kfree event { s.heap with mem := m } = some { s.heap with mem := m' } ∧ bs' ⊆ bs ∧
      HeadersOnly bs m m' ∧
      Timer.Inv ⟨⟨{ s.heap with mem := m' }, s.liveWithout event⟩, ev, inst⟩ bs' := by
  have hlive := hI.live event he
  obtain ⟨m', hk, hm, bs', hd, hb'⟩ := kfree_blocks (h := { s.heap with mem := m }) hb hlive
  have hwithout : s.liveWithout event = Function.update s.client.live event none := if_pos he
  have hmem : ∀ p ∈ inst, p.1 ∈ s.events := fun p hp => Timer.Inv.mem_events (hinst hp)
  have hwords : ∀ p ∈ inst, eventFunc m' p.1 = eventFunc m p.1 ∧
      eventNext m' p.1 = eventNext m p.1 := fun p hp => by
    have := hI.bounds (hmem p hp)
    exact event_congr (by omega) fun i hi =>
      hb.untouched_headers hm event p.1 _ (hI.live _ (hmem p hp)) (hne p hp) i hi
  refine ⟨m', bs', hk, hd.blocks_subset, hm, ?_, hI.ready, ?_, ?_, ?_⟩
  · rw [hwithout]
    exact hb'
  · refine hlist.congr fun e he => ?_
    obtain ⟨p, hp, rfl⟩ := List.mem_map.mp he
    exact (hwords p hp).2
  · intro e he
    obtain ⟨p, hp, rfl⟩ := List.mem_map.mp he
    rw [hwithout]
    exact (Function.update_of_ne (hne p hp) _ _).trans (hI.live _ (hmem p hp))
  · intro p hp
    exact (hwords p hp).1.trans (hfunc p hp)

/-- The walk of `uninstall_timer_event` stops at the first node that is in front of the
event, or the last. -/
theorem Timer.Inv.follow_eq {l₁ l₂ : List Nat} {c : Nat} (hI : s.Inv bs)
    (hev : s.events = l₁ ++ c :: l₂) (hne : ∀ x ∈ l₁ ++ [c], x ≠ event)
    (hc : eventNext s.mem c = 0 ∨ eventNext s.mem c = event) :
    follow (eventNext s.mem) (fun c => eventNext s.mem c == 0 || eventNext s.mem c == event)
      walkFuel s.timerEvents = some c := by
  have hlist := hI.list
  rw [hev] at hlist
  have hseg := (seg_append_cons.mp hlist).1
  have hlen := hI.length_lt
  refine hseg.follow_eq (fun x hx => ?_) (by simpa using hc) ?_
  · have hnext : eventNext s.mem x ∈ l₁ ++ [c] :=
      (hseg.next_mem hx).elim (fun h => by simp [h]) fun h => by simp [h]
    have h0 : eventNext s.mem x ≠ 0 := by
      refine (hI.bounds ?_).1
      rw [hev]
      rcases List.mem_append.mp hnext with h | h
      · exact List.mem_append_left _ h
      · rw [List.mem_singleton.mp h]
        simp
    simp [h0, hne _ hnext]
  · rw [hev, List.length_append] at hlen
    omega

theorem uninstallTimerEvent_absent (hI : s.Inv bs) (he : event ∉ s.events) :
    uninstallTimerEvent event s.timerEvents s.heap = some (s.timerEvents, s.heap) := by
  rw [uninstallTimerEvent]
  by_cases h0 : event = 0 ∨ s.timerEvents = 0
  · rw [if_pos h0]
    rfl
  rw [if_neg h0]
  obtain ⟨-, h0⟩ := not_or.mp h0
  have hne : s.events ≠ [] := by
    intro hnil
    have hhead := hI.list.start_eq
    rw [hnil] at hhead
    exact h0 hhead
  have hhead : s.timerEvents ≠ event := fun h => he (h ▸ hI.head_mem hne)
  rw [if_neg hhead]
  -- the walk ends at the last event
  obtain ⟨l, z, hev⟩ : ∃ l z, s.events = l ++ [z] :=
    ⟨_, _, (List.dropLast_concat_getLast hne).symm⟩
  have hlist := hI.list
  rw [hev] at hlist
  have hz : eventNext s.mem z = 0 := hlist.eq_next_of_concat
  have hlast : ∀ x ∈ l ++ [z], x ≠ event := by
    rw [← hev]
    rintro x hx rfl
    exact he hx
  have hfollow := hI.follow_eq hev hlast (.inl hz)
  change (follow (eventNext s.mem) (fun c => eventNext s.mem c == 0 || eventNext s.mem c == event)
    walkFuel s.timerEvents).bind _ = _
  rw [hfollow, Option.bind_some]
  exact if_pos hz

theorem uninstallTimerEvent_head (hI : s.Inv bs) (he : event ∈ s.events)
    (hstart : s.timerEvents = event) (hk : kfree event s.heap = some h') :
    uninstallTimerEvent event s.timerEvents s.heap = some (eventNext s.mem event, h') := by
  have h0 := (hI.bounds he).1
  rw [uninstallTimerEvent, if_neg (by simp [h0, hstart]), if_pos hstart]
  change (kfree event s.heap).bind _ = _
  rw [hk]
  rfl

theorem uninstallTimerEvent_behind {c : Nat} (hI : s.Inv bs) (he : event ∈ s.events)
    (hhead : s.timerEvents ≠ event) (hnext : eventNext s.mem c = event)
    (hfollow : follow (eventNext s.mem)
      (fun c => eventNext s.mem c == 0 || eventNext s.mem c == event) walkFuel s.timerEvents
        = some c)
    (hk : kfree event { s.heap with mem := s.mem.write32 (c + 4) (eventNext s.mem event) }
      = some h') :
    uninstallTimerEvent event s.timerEvents s.heap = some (s.timerEvents, h') := by
  have h0 := (hI.bounds he).1
  have hfirst : s.timerEvents ≠ 0 := (hI.bounds (hI.head_mem (List.ne_nil_of_mem he))).1
  rw [uninstallTimerEvent, if_neg (by simp [h0, hfirst]), if_neg hhead]
  change (follow (eventNext s.mem) (fun c => eventNext s.mem c == 0 || eventNext s.mem c == event)
    walkFuel s.timerEvents).bind _ = _
  rw [hfollow, Option.bind_some]
  change (if eventNext s.mem c = 0 then _ else _) = _
  rw [hnext, if_neg h0]
  exact Option.bind_eq_some_iff.mpr ⟨h', hk, rfl⟩

theorem Timer.Inv.unlink {j i₂ : List (Nat × Nat)} {c : Nat × Nat} {f : Nat} {m : ByteMem}
    (hI : s.Inv bs) (hi : s.installed = j ++ [c] ++ (event, f) :: i₂)
    (hm : m = s.mem.write32 (c.1 + 4) (eventNext s.mem event)) :
    HeapInv m s.heap.heapStart s.heap.programBreakPoint s.client.live bs ∧
      Seg (eventNext m) s.timerEvents ((j ++ [c] ++ i₂).map Prod.fst) 0 ∧
      (∀ p ∈ j ++ [c] ++ i₂, eventFunc m p.1 = p.2) ∧
      ∀ x, x < c.1 + 4 ∨ c.1 + 8 ≤ x → m x = s.mem x := by
  have hsize : sizeofTimerEvent = 8 := rfl
  have hsub : j ++ [c] ++ i₂ ⊆ s.installed := by
    rw [hi]
    intro p hp
    rcases List.mem_append.mp hp with hp | hp
    · exact List.mem_append_left _ hp
    · exact List.mem_append_right _ (List.mem_cons_of_mem _ hp)
  have hev : s.events = j.map Prod.fst ++ c.1 :: event :: i₂.map Prod.fst := by
    rw [Timer.events, hi]
    simp
  have hc : c.1 ∈ s.events := by simp [hev]
  have hbd := hI.bounds hc
  have hout : ∀ x, x < c.1 + 4 ∨ c.1 + 8 ≤ x → m x = s.mem x := fun x hx => by
    rw [hm]
    exact ByteMem.write32_of_disjoint (by omega) (by omega)
  obtain ⟨hb, hu⟩ := HeapInv.client_write hI.blocks (hI.live c.1 hc) fun x hx => hout x (by omega)
  have hnext : eventNext m c.1 = eventNext s.mem event := by
    rw [hm]
    exact ByteMem.read32_write32 (ByteMem.read32_lt _ _)
  have hfunc : eventFunc m c.1 = eventFunc s.mem c.1 := by
    rw [hm]
    exact ByteMem.read32_write32_of_disjoint (by omega) (by omega) (by omega)
  have hwords : ∀ e ∈ s.events, e ≠ c.1 → eventFunc m e = eventFunc s.mem e ∧
      eventNext m e = eventNext s.mem e := fun e he hne => by
    have := hI.bounds he
    exact event_congr (by omega) (hu e _ (hI.live e he) hne)
  -- no other node is `c`
  have hnodup := hI.nodup
  rw [hev, List.nodup_middle] at hnodup
  have hother : ∀ e ∈ j.map Prod.fst ++ event :: i₂.map Prod.fst, e ≠ c.1 := by
    rintro e he rfl
    exact (List.nodup_cons.mp hnodup).1 he
  have hlist := hI.list
  rw [hev] at hlist
  obtain ⟨hfront, hrest⟩ := seg_append_cons.mp hlist
  obtain ⟨-, hback⟩ := seg_cons.mp hrest
  refine ⟨hb, ?_, ?_, hout⟩
  · rw [List.map_append, List.map_append, List.map_singleton, List.append_assoc,
      List.singleton_append]
    refine seg_append_cons.mpr ⟨hfront.congr fun e he => ?_, ?_⟩
    · exact (hwords e (by rw [hev]; simp [he]) (hother e (by simp [he]))).2
    · rw [hnext]
      exact hback.congr fun e he =>
        (hwords e (by rw [hev]; simp [he]) (hother e (by simp [he]))).2
  · intro p hp
    by_cases hpc : p.1 = c.1
    · rw [hpc, hfunc, ← hpc]
      exact hI.func p (hsub hp)
    · rw [(hwords p.1 (Timer.Inv.mem_events (hsub hp)) hpc).1]
      exact hI.func p (hsub hp)

/-- **`uninstall_timer_event`** takes the event off and frees it, or there is no such event.
It writes to headers of the heap and to another event. -/
theorem uninstallTimerEvent_spec (hI : s.Inv bs) (event : Nat) :
    ∃ ev m' bs', uninstallTimerEvent event s.timerEvents s.heap
        = some (ev, { s.heap with mem := m' }) ∧ bs' ⊆ bs ∧
      (s.afterUninstall event ev { s.heap with mem := m' }).Inv bs' ∧
      ∀ x, (∀ b ∈ bs, x < b ∨ b + 8 ≤ x) →
        (∀ e ∈ s.events, e ≠ event → x < e ∨ e + 8 ≤ x) → m' x = s.mem x := by
  by_cases he : event ∈ s.events
  · obtain ⟨i₁, f, i₂, hi, hwithout, hne⟩ := hI.split he
    have hev : s.events = i₁.map Prod.fst ++ event :: i₂.map Prod.fst := by
      rw [Timer.events, hi, List.map_append, List.map_cons]
    have hsub : i₁ ++ i₂ ⊆ s.installed := by
      rw [hi]
      intro p hp
      rcases List.mem_append.mp hp with hp | hp <;> simp [hp]
    have hlist := hI.list
    rw [hev] at hlist
    obtain ⟨hfront, hback⟩ := seg_append_cons.mp hlist
    simp only [Timer.afterUninstall, hwithout]
    by_cases hnil : i₁ = []
    · subst hnil
      have hfunc : ∀ p ∈ i₂, eventFunc s.mem p.1 = p.2 := fun p hp => hI.func p (hsub hp)
      obtain ⟨m', bs', hk, hbs, hm, hI'⟩ := hI.kfree_event he hI.blocks hsub hne hback hfunc
      exact ⟨_, m', bs', uninstallTimerEvent_head hI he hfront hk, hbs, hI', fun x hx _ => hm x hx⟩
    · obtain ⟨j, c, rfl⟩ : ∃ j c, i₁ = j ++ [c] :=
        ⟨_, _, (List.dropLast_concat_getLast hnil).symm⟩
      rw [List.map_append, List.map_singleton] at hfront hev
      have hc : c.1 ∈ s.events := by simp [hev]
      have hcne : c.1 ≠ event := hne c (by simp)
      have hnext : eventNext s.mem c.1 = event := hfront.eq_next_of_concat
      have hbefore : ∀ x ∈ j.map Prod.fst ++ [c.1], x ≠ event := by
        rw [← List.map_singleton, ← List.map_append]
        intro x hx
        obtain ⟨p, hp, rfl⟩ := List.mem_map.mp hx
        exact hne p (List.mem_append_left _ hp)
      have hhead : s.timerEvents ≠ event := by
        rw [hfront.start_eq]
        cases j with
        | nil => exact hcne
        | cons p j => exact hne p (by simp)
      have hev' : s.events = j.map Prod.fst ++ c.1 :: event :: i₂.map Prod.fst := by
        rw [hev]
        simp
      have hfollow := hI.follow_eq hev' hbefore (.inr hnext)
      obtain ⟨hb, hlist', hfunc, hout⟩ := hI.unlink hi rfl
      obtain ⟨m', bs', hk, hbs, hm, hI'⟩ := hI.kfree_event he hb hsub hne hlist' hfunc
      refine ⟨_, m', bs', uninstallTimerEvent_behind hI he hhead hnext hfollow hk, hbs, hI',
        fun x hx hxe => ?_⟩
      have hxc := hxe c.1 hc hcne
      exact (hm x hx).trans (hout x (by omega))
  · have hsame : Timer.installedWithout s.installed event = s.installed :=
      List.filter_eq_self.mpr fun p hp => by
        have : p.1 ≠ event := fun h => he (h ▸ Timer.Inv.mem_events hp)
        simpa using this
    have hlive : s.liveWithout event = s.client.live := if_neg he
    refine ⟨_, s.mem, bs, uninstallTimerEvent_absent hI he, List.Subset.refl _, ?_,
      fun _ _ _ => rfl⟩
    rw [Timer.afterUninstall, hsame, hlive]
    exact hI

end Calls

/-! ### Runs -/

/-- The calls, with their results. -/
inductive TimerCall
  | install (func r : Nat)
  | uninstall (event : Nat)
  deriving DecidableEq

inductive TimerStep : Timer → TimerCall → Timer → Prop
  | install {s : Timer} {func r ev : Nat} {h' : Heap Machine} :
      HonestRequest s.heap sizeofTimerEvent →
      installTimerEvent func s.timerEvents s.heap = some (r, ev, h') →
      TimerStep s (.install func r) (s.afterInstall func r ev h')
  | uninstall {s : Timer} {event ev : Nat} {h' : Heap Machine} :
      uninstallTimerEvent event s.timerEvents s.heap = some (ev, h') →
      TimerStep s (.uninstall event) (s.afterUninstall event ev h')

inductive TimerHeapEvent
  | timer (c : TimerCall)
  | heap (e : HeapEvent)

/-- One call.  The rest of the kernel uses the heap, but not the memory of the events. -/
inductive TimerHeapStep : Timer → TimerHeapEvent → Timer → Prop
  | timer {s s' : Timer} {c : TimerCall} : TimerStep s c s' → TimerHeapStep s (.timer c) s'
  | heap {s : Timer} {e : HeapEvent} {c' : Client Machine} :
      (∀ event ∈ s.events, ∀ i, ¬ e.Concerns event i) → HeapStep honestCalls s.client e c' →
      TimerHeapStep s (.heap e) ⟨c', s.timerEvents, s.installed⟩

section Runs

variable {s s' : Timer} {bs : List Nat} {c : TimerCall} {k : TimerHeapEvent}

theorem TimerStep.inv (hI : s.Inv bs) (hs : TimerStep s c s') : ∃ bs', s'.Inv bs' := by
  cases hs with
  | @install func r ev h' hh h =>
    obtain ⟨r', ev', h'', bs', h₁, -, hI'⟩ := installTimerEvent_spec hI hh func
    obtain ⟨rfl, he⟩ := Prod.mk.inj (Option.some.inj (h.symm.trans h₁))
    obtain ⟨rfl, rfl⟩ := Prod.mk.inj he
    exact ⟨bs', hI'⟩
  | @uninstall event ev h' h =>
    obtain ⟨ev', m', bs', h₁, -, hI', -⟩ := uninstallTimerEvent_spec hI event
    obtain ⟨rfl, rfl⟩ := Prod.mk.inj (Option.some.inj (h.symm.trans h₁))
    exact ⟨bs', hI'⟩

theorem TimerHeapStep.inv (hI : s.Inv bs) (hs : TimerHeapStep s k s') : ∃ bs', s'.Inv bs' := by
  cases hs with
  | timer hs => exact hs.inv hI
  | @heap e c' hown hs =>
    have hclient : s.client.Inv := ⟨bs, hI.blocks⟩
    have hs' : HeapStep (fun h sbrk call => honestCalls h sbrk call ∧ Ready h) s.client e c' :=
      hs.mono fun _ _ hc => ⟨hc, hI.ready⟩
    obtain ⟨bs', hb⟩ := hs'.inv legalCalls_honest hclient
    have hkeeps := fun event he =>
      hs'.keeps legalCalls_honest hclient (hown event he) (hI.live event he)
    exact ⟨bs', hI.transfer hb (hs.ready hclient hI.ready) rfl rfl
      (fun event he => (hkeeps event he).1) fun event he => (hkeeps event he).2⟩

variable {magic kernelEnd : Nat} {mbd : Multiboot} {mem : Nat → Page} {m : ByteMem} {f : Frames}
  {t : Tables} {ram : Nat → UInt8} {h₀ : Heap Machine} {ks : List TimerHeapEvent}

/-- The kernel before the first event is installed. -/
def Timer.start (h₀ : Heap Machine) : Timer := ⟨⟨h₀, fun _ => none⟩, 0, []⟩

/-- **The list is what was installed**, in every state of every run. -/
theorem timer_run_inv (hdir : pmmDirectoryInit magic kernelEnd mbd mem = some (f, t))
    (hinit : heapInit kernelEnd m (Machine.start f t ram) = some h₀)
    (hrun : Trace TimerHeapStep (Timer.start h₀) ks s) : ∃ bs, s.Inv bs := by
  have hstart : (Timer.start h₀).Inv [h₀.heapStart] :=
    ⟨(heapInit_spec hinit).2.2, ready_of_boot hdir hinit, rfl, by simp [Timer.start, Timer.events],
      by simp [Timer.start]⟩
  refine hrun.invariant (I := fun s => ∃ bs, s.Inv bs) ⟨_, hstart⟩ ?_
  rintro s k s' ⟨bs, hI⟩ hs
  exact hs.inv hI

end Runs

end ChoOS
