import ChoOS.Heap.Spec
import ChoOS.Lib.Trace

/-!
# Whole runs of the heap

A run is a sequence of calls, each with its result, and of client writes into
live allocations.  The live pointers are bookkeeping of the run: what a call
returned and what size was asked for.  `HeapStep` lets `kfree` and `krealloc`
have live pointers only (`krealloc` also `NULL`), and asks of each call that
may reach `kmalloc` that it is `legal`; which sizes and which `sbrk` are legal
is left to the theorem that speaks of the run, and `LegalCalls` is what the
invariant needs of it.

`HeapStep.listing` says that a step of the heap is a step of its listing
(`ListStep`), and so the invariant holds again: `HeapStep.inv` is the step,
`heap_run_inv` the run.  `heap_structure` reads the invariant as the shape of
the list: `next` leads from `heap_start` through the blocks to the one end block
below the break, the blocks tile the heap, and the live pointers are the `USED`
blocks, with the room that was asked for.
-/

namespace ChoOS

variable {ε : Type}

/-- A call that allocates. -/
inductive HeapCall
  | kmalloc (size : Nat)
  | kcalloc (nmemb size : Nat)
  | krealloc (ptr size : Nat)

/-- What happens in one step of a run; the last argument of a call is its result. -/
inductive HeapEvent
  | kmalloc (size r : Nat)
  | kcalloc (nmemb size r : Nat)
  | krealloc (ptr size r : Nat)
  | kfree (ptr : Nat)
  | write (ptr i : Nat) (v : UInt8)
  | read (ptr i : Nat) (v : UInt8)

/-- A heap with the live pointers its clients hold. -/
structure Client (ε : Type) where
  heap : Heap ε
  live : Live

/-- The live pointers after an allocation of `size` bytes returned `r`. -/
def liveAlloc (live : Live) (size r : Nat) : Live :=
  if r = 0 then live else Function.update live r (some size)

/-- The live pointers after `krealloc(ptr, size)` returned `r`. -/
def liveRealloc (live : Live) (ptr size r : Nat) : Live :=
  if ptr = 0 then liveAlloc live size r
  else if size = 0 then Function.update live ptr none
  else if r = 0 then live
  else Function.update (Function.update live ptr none) r (some size)

/-- Which allocating calls a run may make, and with which `sbrk` behind them. -/
abbrev Legal (ε : Type) := Heap ε → Sbrk ε → HeapCall → Prop

/-- One step of a run. -/
inductive HeapStep (legal : Legal ε) : Client ε → HeapEvent → Client ε → Prop
  | kmalloc {c : Client ε} {sbrk : Sbrk ε} {size r : Nat} {h' : Heap ε} :
      legal c.heap sbrk (.kmalloc size) → kmalloc sbrk size c.heap = some (r, h') →
      HeapStep legal c (.kmalloc size r) ⟨h', liveAlloc c.live size r⟩
  | kcalloc {c : Client ε} {sbrk : Sbrk ε} {nmemb size r : Nat} {h' : Heap ε} :
      legal c.heap sbrk (.kcalloc nmemb size) → kcalloc sbrk nmemb size c.heap = some (r, h') →
      HeapStep legal c (.kcalloc nmemb size r) ⟨h', liveAlloc c.live (u32 (nmemb * size)) r⟩
  | krealloc {c : Client ε} {sbrk : Sbrk ε} {ptr size r : Nat} {h' : Heap ε} :
      (ptr = 0 ∨ (c.live ptr).isSome) → legal c.heap sbrk (.krealloc ptr size) →
      krealloc sbrk ptr size c.heap = some (r, h') →
      HeapStep legal c (.krealloc ptr size r) ⟨h', liveRealloc c.live ptr size r⟩
  | kfree {c : Client ε} {ptr : Nat} {h' : Heap ε} :
      (c.live ptr).isSome → kfree ptr c.heap = some h' →
      HeapStep legal c (.kfree ptr) ⟨h', Function.update c.live ptr none⟩
  | write {c : Client ε} {ptr n i : Nat} {v : UInt8} : c.live ptr = some n → i < n →
      HeapStep legal c (.write ptr i v)
        ⟨{ c.heap with mem := c.heap.mem.write8 (ptr + i) v }, c.live⟩
  | read {c : Client ε} {ptr n i : Nat} : c.live ptr = some n → i < n →
      HeapStep legal c (.read ptr i (c.heap.mem.read8 (ptr + i))) c

/-- The size that reaches `kmalloc`, when it is called. -/
def HeapCall.request : HeapCall → Nat
  | .kmalloc size => size
  | .kcalloc nmemb size => u32 (nmemb * size)
  | .krealloc _ size => size

/-- `krealloc` in place does not call `kmalloc`. -/
def HeapCall.inPlace (m : ByteMem) : HeapCall → Prop
  | .krealloc ptr size =>
    ptr ≠ 0 ∧ (size = 0 ∨ size ≤ internalHeapBlockGetAvailableSpace m (ptr - 8))
  | _ => False

/-- What a legal call guarantees: a size that `ALIGN` does not wrap, and an
`sbrk` that fails or grows the break by what it is asked for. -/
def LegalCalls (legal : Legal ε) : Prop :=
  ∀ h live bs sbrk call, Heap.Inv h live bs → legal h sbrk call → ¬ call.inPlace h.mem →
    call.request ≤ 4294967288 ∧
    (NoFit h.mem bs call.request → ∃ r h', sbrk (u32 (align call.request + 8)) h = some (r, h') ∧
      SbrkReturns h (align call.request + 8) r h')

/-- The invariant of a run. -/
def Client.Inv (c : Client ε) : Prop := ∃ bs, c.heap.Inv c.live bs

variable {legal : Legal ε} {c c' : Client ε} {e : HeapEvent}

theorem liveAlloc_null (live : Live) (size : Nat) : liveAlloc live size 0 = live := if_pos rfl

theorem liveAlloc_of_ne (live : Live) (size : Nat) {r : Nat} (hr : r ≠ 0) :
    liveAlloc live size r = Function.update live r (some size) := if_neg hr

theorem liveRealloc_null (live : Live) (size r : Nat) :
    liveRealloc live 0 size r = liveAlloc live size r := if_pos rfl

theorem liveRealloc_zero (live : Live) {ptr r : Nat} (hp : ptr ≠ 0) :
    liveRealloc live ptr 0 r = Function.update live ptr none := by
  rw [liveRealloc, if_neg hp, if_pos rfl]

theorem liveRealloc_failed (live : Live) {ptr size : Nat} (hp : ptr ≠ 0) (hs : size ≠ 0) :
    liveRealloc live ptr size 0 = live := by
  rw [liveRealloc, if_neg hp, if_neg hs, if_pos rfl]

theorem liveRealloc_moved (live : Live) {ptr size r : Nat} (hp : ptr ≠ 0) (hs : size ≠ 0)
    (hr : r ≠ 0) : liveRealloc live ptr size r
      = Function.update (Function.update live ptr none) r (some size) := by
  rw [liveRealloc, if_neg hp, if_neg hs, if_neg hr]

/-! ### Every call returns -/

section Returns

variable {h : Heap ε} {live : Live} {bs : List Nat} {sbrk : Sbrk ε} {ptr nmemb size n : Nat}

theorem legal_kmalloc (hl : LegalCalls legal) (hI : h.Inv live bs)
    (hc : legal h sbrk (.kmalloc size)) :
    ∃ r h', kmalloc sbrk size h = some (r, h') ∧ AllocResult h live size r h' ∧
      ∃ L, Listing.Alloc size ⟨bs, h.programBreakPoint, live⟩ r L ∧ h'.Shows L := by
  obtain ⟨h1, h2⟩ := hl h live bs sbrk _ hI hc (by simp [HeapCall.inPlace])
  exact kmalloc_spec hI h1 h2

theorem legal_kcalloc (hl : LegalCalls legal) (hI : h.Inv live bs)
    (hc : legal h sbrk (.kcalloc nmemb size)) :
    ∃ r h', kcalloc sbrk nmemb size h = some (r, h') ∧
      AllocResult h live (u32 (nmemb * size)) r h' ∧
      (r ≠ 0 → ∀ i < u32 (nmemb * size), h'.mem (r + i) = 0) ∧
      ∃ L, Listing.Alloc (u32 (nmemb * size)) ⟨bs, h.programBreakPoint, live⟩ r L ∧ h'.Shows L := by
  obtain ⟨h1, h2⟩ := hl h live bs sbrk _ hI hc (by simp [HeapCall.inPlace])
  exact kcalloc_spec hI h1 h2

theorem legal_krealloc_null (hl : LegalCalls legal) (hI : h.Inv live bs)
    (hc : legal h sbrk (.krealloc 0 size)) :
    ∃ r h', krealloc sbrk 0 size h = some (r, h') ∧ AllocResult h live size r h' ∧
      ∃ L, Listing.Alloc size ⟨bs, h.programBreakPoint, live⟩ r L ∧ h'.Shows L := by
  obtain ⟨h1, h2⟩ := hl h live bs sbrk _ hI hc (by simp [HeapCall.inPlace])
  exact kmalloc_spec hI h1 h2

theorem legal_krealloc_zero (sbrk : Sbrk ε) (hI : h.Inv live bs) (hp : live ptr = some n) :
    ∃ h', krealloc sbrk ptr 0 h = some (0, h') ∧ kfree ptr h = some h' := by
  obtain ⟨b, _, rfl⟩ := hI.mem_of_live _ _ hp
  obtain ⟨h', hf, _⟩ := kfree_spec hI hp
  refine ⟨h', ?_, hf⟩
  simp only [krealloc, if_neg (show ¬ b + 8 = 0 by omega), if_true, hf]
  rfl

theorem legal_krealloc (hl : LegalCalls legal) (hI : h.Inv live bs)
    (hc : legal h sbrk (.krealloc ptr size)) (hp : live ptr = some n) (hpos : 0 < size) :
    ∃ r h', krealloc sbrk ptr size h = some (r, h') ∧ ReallocResult h live ptr n size r h' ∧
      ∃ L, Listing.Realloc ptr size (Splits h.mem (ptr - 8) size) ⟨bs, h.programBreakPoint, live⟩
        r L ∧ h'.Shows L := by
  obtain ⟨b, hb, rfl⟩ := hI.mem_of_live _ _ hp
  by_cases hin : HeapCall.inPlace h.mem (.krealloc (b + 8) size)
  · have hfit : size ≤ internalHeapBlockGetAvailableSpace h.mem (b + 8 - 8) := by
      rcases hin.2 with h0 | h0
      · omega
      · exact h0
    have hbd := HeapInv.bounds hI hb
    have hbrk := HeapInv.brk_le hI
    have hs : size ≤ 4294967288 := by
      rw [Nat.add_sub_cancel, hI.blocks.availableSpace hb] at hfit
      omega
    exact krealloc_spec hI hp hpos hs (fun hlt => absurd hfit (by omega))
  · obtain ⟨h1, h2⟩ := hl h live bs sbrk _ hI hc hin
    exact krealloc_spec hI hp hpos h1 (fun _ => h2)

theorem HeapInv.live_ne_null {m : ByteMem} {start brk : Nat} (hI : HeapInv m start brk live bs)
    (hp : live ptr = some n) : ptr ≠ 0 := by
  obtain ⟨b, _, rfl⟩ := hI.mem_of_live _ _ hp
  omega

theorem Listing.Alloc.live_liveAlloc {L L' : Listing} {r : Nat} (ha : L.Alloc size r L')
    (h8 : 8 ≤ L.brk) : L'.live = liveAlloc L.live size r := by
  by_cases hr : r = 0
  · subst hr
    rw [liveAlloc_null]
    generalize hz : 0 = z at ha
    cases ha with
    | null => rfl
    | whole _ _ => omega
    | split _ _ => omega
    | grown => omega
  · rw [liveAlloc_of_ne _ _ hr]
    exact ha.live_eq hr

theorem Listing.Realloc.live_liveRealloc {L L' : Listing} {r : Nat} {splits : Prop}
    (ha : L.Realloc ptr size splits r L') (hp : ptr ≠ 0) (hs : size ≠ 0) :
    L'.live = liveRealloc L.live ptr size r := by
  cases ha with
  | failed _ => rw [liveRealloc_failed _ hp hs]
  | inPlace hr => rw [liveRealloc_moved _ hp hs hp, Function.update_idem, hr.live_eq]
  | moved _ hr hne hal _ hd =>
    rw [liveRealloc_moved _ hp hs hr, hd.live_eq, hal.live_eq hr, Function.update_comm hne]

end Returns

/-! ### The listing of a run -/

/-- `krealloc` in place makes a block of the rest. -/
def HeapEvent.SplitsInPlace (m : ByteMem) : HeapEvent → Prop
  | .krealloc ptr size _ => ptr ≠ 0 ∧ size ≠ 0 ∧ Splits m (ptr - 8) size
  | _ => False

/-- One step of a run, seen in the listing. -/
inductive ListStep (splits : Prop) (L : Listing) : HeapEvent → Listing → Prop
  | kmalloc {size r : Nat} {L' : Listing} : L.Alloc size r L' →
      ListStep splits L (.kmalloc size r) L'
  | kcalloc {nmemb size r : Nat} {L' : Listing} : L.Alloc (u32 (nmemb * size)) r L' →
      ListStep splits L (.kcalloc nmemb size r) L'
  | kreallocNull {size r : Nat} {L' : Listing} : ¬ splits → L.Alloc size r L' →
      ListStep splits L (.krealloc 0 size r) L'
  | kreallocZero {ptr : Nat} {L' : Listing} : ¬ splits → L.Dealloc ptr L' →
      ListStep splits L (.krealloc ptr 0 0) L'
  | krealloc {ptr size r : Nat} {L' : Listing} : L.Realloc ptr size splits r L' →
      ListStep splits L (.krealloc ptr size r) L'
  | kfree {ptr : Nat} {L' : Listing} : L.Dealloc ptr L' → ListStep splits L (.kfree ptr) L'
  | write {ptr i : Nat} {v : UInt8} : ListStep splits L (.write ptr i v) L
  | read {ptr i : Nat} {v : UInt8} : ListStep splits L (.read ptr i v) L

/-- **The rule for a property of the listing** that only `krealloc` can break. -/
theorem ListStep.kept_iff {Φ : Listing → Prop} {ψ : Nat → Nat → Prop} {splits : Prop}
    {L L' : Listing} {e : HeapEvent} (hs : ListStep splits L e L') (h : Φ L)
    (halloc : ∀ size r L', L.Alloc size r L' → Φ L')
    (hdealloc : ∀ ptr L', L.Dealloc ptr L' → Φ L')
    (hrealloc : ∀ ptr size r L', L.Realloc ptr size splits r L' → (Φ L' ↔ (splits → ψ ptr size))) :
    Φ L' ↔ ∀ ptr size r, e = .krealloc ptr size r → splits → ψ ptr size := by
  cases hs with
  | kmalloc ha => exact iff_of_true (halloc _ _ _ ha) (by rintro _ _ _ ⟨⟩)
  | kcalloc ha => exact iff_of_true (halloc _ _ _ ha) (by rintro _ _ _ ⟨⟩)
  | kreallocNull hno ha => exact iff_of_true (halloc _ _ _ ha) fun _ _ _ _ hs => absurd hs hno
  | kreallocZero hno hd => exact iff_of_true (hdealloc _ _ hd) fun _ _ _ _ hs => absurd hs hno
  | krealloc hr =>
    rw [hrealloc _ _ _ _ hr]
    constructor
    · rintro hψ _ _ _ ⟨⟩
      exact hψ
    · exact fun hψ => hψ _ _ _ rfl
  | kfree hd => exact iff_of_true (hdealloc _ _ hd) (by rintro _ _ _ ⟨⟩)
  | write => exact iff_of_true h (by rintro _ _ _ ⟨⟩)
  | read => exact iff_of_true h (by rintro _ _ _ ⟨⟩)

/-- The listing of a client's heap. -/
def Client.Shows (c : Client ε) (L : Listing) : Prop := c.live = L.live ∧ c.heap.Shows L

theorem Client.Shows.inv {L : Listing} (h : c.Shows L) : c.Inv := ⟨L.blocks, by
  rw [h.1]
  exact h.2.2⟩

theorem Client.Inv.shows {bs : List Nat} (h : c.heap.Inv c.live bs) :
    c.Shows ⟨bs, c.heap.programBreakPoint, c.live⟩ := ⟨rfl, rfl, h⟩

/-- **A step of the heap is a step of its listing.** -/
theorem HeapStep.listing {L : Listing} (hl : LegalCalls legal) (hL : c.Shows L)
    (hs : HeapStep legal c e c') :
    ∃ L', ListStep (e.SplitsInPlace c.heap.mem) L e L' ∧ c'.Shows L' := by
  obtain ⟨bs, brk, live⟩ := L
  obtain ⟨rfl, rfl, hI⟩ := hL
  have hI : c.heap.Inv c.live bs := hI
  have h8 : 8 ≤ c.heap.programBreakPoint := HeapInv.le_brk hI
  cases hs with
  | kmalloc hc hk =>
    obtain ⟨r, h', hk', -, L', hL', hshow⟩ := legal_kmalloc hl hI hc
    obtain ⟨rfl, rfl⟩ := Prod.mk.inj (Option.some.inj (hk.symm.trans hk'))
    exact ⟨L', .kmalloc hL', (hL'.live_liveAlloc h8).symm, hshow⟩
  | kcalloc hc hk =>
    obtain ⟨r, h', hk', -, -, L', hL', hshow⟩ := legal_kcalloc hl hI hc
    obtain ⟨rfl, rfl⟩ := Prod.mk.inj (Option.some.inj (hk.symm.trans hk'))
    exact ⟨L', .kcalloc hL', (hL'.live_liveAlloc h8).symm, hshow⟩
  | @krealloc sbrk ptr size r h' hp hc hk =>
    rcases Nat.eq_zero_or_pos ptr with rfl | hptr
    · obtain ⟨r, h', hk', -, L', hL', hshow⟩ := legal_krealloc_null hl hI hc
      obtain ⟨rfl, rfl⟩ := Prod.mk.inj (Option.some.inj (hk.symm.trans hk'))
      refine ⟨L', .kreallocNull (fun h => h.1 rfl) hL', ?_, hshow⟩
      rw [liveRealloc_null]
      exact (hL'.live_liveAlloc h8).symm
    · obtain ⟨n, hn⟩ := Option.isSome_iff_exists.mp (hp.resolve_left (by omega))
      rcases Nat.eq_zero_or_pos size with rfl | hsize
      · obtain ⟨h₁, hk', hf⟩ := legal_krealloc_zero sbrk hI hn
        obtain ⟨rfl, rfl⟩ := Prod.mk.inj (Option.some.inj (hk.symm.trans hk'))
        obtain ⟨h₂, hf', -, -, -, L', hL', hshow⟩ := kfree_listing hI hn
        obtain rfl := Option.some.inj (hf.symm.trans hf')
        refine ⟨L', .kreallocZero (fun h => h.2.1 rfl) hL', ?_, hshow⟩
        rw [liveRealloc_zero _ (by omega)]
        exact hL'.live_eq.symm
      · obtain ⟨r, h', hk', -, L', hL', hshow⟩ := legal_krealloc hl hI hc hn hsize
        obtain ⟨rfl, rfl⟩ := Prod.mk.inj (Option.some.inj (hk.symm.trans hk'))
        have hsplits : HeapEvent.SplitsInPlace c.heap.mem (.krealloc ptr size r)
            = Splits c.heap.mem (ptr - 8) size :=
          propext ⟨fun h => h.2.2, fun h => ⟨by omega, by omega, h⟩⟩
        rw [hsplits]
        exact ⟨L', .krealloc hL', (hL'.live_liveRealloc (by omega) (by omega)).symm, hshow⟩
  | kfree hp hk =>
    obtain ⟨n, hn⟩ := Option.isSome_iff_exists.mp hp
    obtain ⟨h', hk', -, -, -, L', hL', hshow⟩ := kfree_listing hI hn
    obtain rfl := Option.some.inj (hk.symm.trans hk')
    exact ⟨L', .kfree hL', hL'.live_eq.symm, hshow⟩
  | @write ptr n i v hp hi =>
    have hb := HeapInv.live_below hI hp
    have hbrk := HeapInv.brk_le hI
    have hk : ∀ x, x < ptr ∨ ptr + n ≤ x → c.heap.mem.write8 (ptr + i) v x = c.heap.mem x :=
      fun x hx => by rw [ByteMem.write8_apply (by omega), if_neg (by omega)]
    exact ⟨_, .write, rfl, rfl, (HeapInv.client_write hI hp hk).1⟩
  | read hp hi => exact ⟨_, .read, rfl, rfl, hI⟩

theorem HeapStep.inv (hl : LegalCalls legal) (hI : c.Inv) (hs : HeapStep legal c e c') :
    c'.Inv := by
  obtain ⟨bs, hI⟩ := hI
  obtain ⟨L', -, hL'⟩ := hs.listing hl (Client.Inv.shows hI)
  exact hL'.inv

theorem heap_run_inv {es : List HeapEvent} (hl : LegalCalls legal) (hI : c.Inv)
    (hr : Trace (HeapStep legal) c es c') : c'.Inv :=
  hr.invariant hI (fun _ _ _ hI hs => hs.inv hl hI)

theorem HeapStep.heapStart (hl : LegalCalls legal)
    (hI : c.Inv) (hs : HeapStep legal c e c') : c'.heap.heapStart = c.heap.heapStart := by
  obtain ⟨bs, hI⟩ := hI
  have halloc : ∀ {size r h'}, AllocResult c.heap c.live size r h' →
      h'.heapStart = c.heap.heapStart := by
    rintro size r h' (⟨-, hsame⟩ | ⟨-, -, hst, -⟩)
    · exact hsame.start
    · exact hst
  cases hs with
  | kmalloc hc hk =>
    obtain ⟨r, h', hk', hres, -⟩ := legal_kmalloc hl hI hc
    obtain ⟨rfl, rfl⟩ := Prod.mk.inj (Option.some.inj (hk.symm.trans hk'))
    exact halloc hres
  | kcalloc hc hk =>
    obtain ⟨r, h', hk', hres, -⟩ := legal_kcalloc hl hI hc
    obtain ⟨rfl, rfl⟩ := Prod.mk.inj (Option.some.inj (hk.symm.trans hk'))
    exact halloc hres
  | @krealloc sbrk ptr size r h' hp hc hk =>
    rcases Nat.eq_zero_or_pos ptr with rfl | hptr
    · obtain ⟨r, h', hk', hres, -⟩ := legal_krealloc_null hl hI hc
      obtain ⟨rfl, rfl⟩ := Prod.mk.inj (Option.some.inj (hk.symm.trans hk'))
      exact halloc hres
    · obtain ⟨n, hn⟩ := Option.isSome_iff_exists.mp (hp.resolve_left (by omega))
      rcases Nat.eq_zero_or_pos size with rfl | hsize
      · obtain ⟨h₁, hk', hf⟩ := legal_krealloc_zero sbrk hI hn
        obtain ⟨rfl, rfl⟩ := Prod.mk.inj (Option.some.inj (hk.symm.trans hk'))
        obtain ⟨h₂, hf', hst, -⟩ := kfree_spec hI hn
        obtain rfl := Option.some.inj (hf.symm.trans hf')
        exact hst
      · obtain ⟨r, h', hk', hres, -⟩ := legal_krealloc hl hI hc hn hsize
        obtain ⟨rfl, rfl⟩ := Prod.mk.inj (Option.some.inj (hk.symm.trans hk'))
        rcases hres with ⟨-, hsame⟩ | ⟨-, -, hst, -⟩
        · exact hsame.start
        · exact hst
  | kfree hp hk =>
    obtain ⟨n, hn⟩ := Option.isSome_iff_exists.mp hp
    obtain ⟨h', hk', hst, -⟩ := kfree_spec hI hn
    obtain rfl := Option.some.inj (hk.symm.trans hk')
    exact hst
  | write _ _ => rfl
  | read _ _ => rfl

/-! ### The shape of the heap -/

/-- The first byte behind a block: the next block, or the break for the end block. -/
def blockEnd (h : Heap ε) (b : Nat) : Nat :=
  if b = h.programBreakPoint - 8 then h.programBreakPoint else blockNext h.mem b

/-- What following `next` from `heap_start` shows: the blocks `bs`, then the end
block; and which of them the clients hold. -/
structure HeapShape (h : Heap ε) (live : Live) (bs : List Nat) : Prop where
  walk : ∀ i (hi : i < bs.length), (blockNext h.mem)^[i] h.heapStart = bs[i]
  walk_end : (blockNext h.mem)^[bs.length] h.heapStart = h.programBreakPoint - 8
  EOM_iff : ∀ i ≤ bs.length,
    blockEOM h.mem ((blockNext h.mem)^[i] h.heapStart) ≠ 0 ↔ i = bs.length
  end_used : blockFree h.mem (h.programBreakPoint - 8) = 0
  header : ∀ b ∈ bs, b + 8 ≤ blockNext h.mem b
  increasing : (bs ++ [h.programBreakPoint - 8]).Pairwise (· < ·)
  tile : ∀ x, h.heapStart ≤ x → x < h.programBreakPoint →
    ∃! b, b ∈ bs ++ [h.programBreakPoint - 8] ∧ b ≤ x ∧ x < blockEnd h b
  live_iff : ∀ p, (live p).isSome ↔ ∃! b, b ∈ bs ∧ blockFree h.mem b = 0 ∧ p = b + 8
  room : ∀ p n, live p = some n → n ≤ internalHeapBlockGetAvailableSpace h.mem (p - 8)

section Shape

variable {h : Heap ε} {live : Live} {bs : List Nat}

theorem Heap.Inv.tile (hI : h.Inv live bs) {x : Nat} (h1 : h.heapStart ≤ x)
    (h2 : x < h.programBreakPoint) :
    ∃! b, b ∈ bs ++ [h.programBreakPoint - 8] ∧ b ≤ x ∧ x < blockEnd h b := by
  have h0 := HeapInv.le_brk hI
  have hend : ∀ b ∈ bs, blockEnd h b = blockNext h.mem b ∧ b < h.programBreakPoint - 8 ∧
      blockNext h.mem b ≤ h.programBreakPoint - 8 := by
    intro b hb
    have hbd := HeapInv.bounds hI hb
    exact ⟨if_neg (by omega), by omega, by omega⟩
  have hlast : blockEnd h (h.programBreakPoint - 8) = h.programBreakPoint := if_pos rfl
  by_cases hx : x < h.programBreakPoint - 8
  · obtain ⟨y, hy, hyx⟩ := hI.blocks.seg.exists_mem h1 hx
    refine ⟨y, ⟨by simp [hy], hyx.1, by rw [(hend y hy).1]; exact hyx.2⟩, ?_⟩
    rintro z ⟨hz, hz1, hz2⟩
    rcases List.mem_append.mp hz with hz | hz
    · rw [(hend z hz).1] at hz2
      by_contra hne
      have := hI.blocks.apart hy hz (Ne.symm hne)
      omega
    · have := List.mem_singleton.mp hz
      omega
  · refine ⟨h.programBreakPoint - 8, ⟨by simp, by omega, by rw [hlast]; exact h2⟩, ?_⟩
    rintro z ⟨hz, hz1, hz2⟩
    rcases List.mem_append.mp hz with hz | hz
    · rw [(hend z hz).1] at hz2
      have := hend z hz
      omega
    · exact List.mem_singleton.mp hz

theorem Heap.Inv.shape (hI : h.Inv live bs) : HeapShape h live bs := by
  have hseg := hI.blocks.seg
  have hwalk := hseg.iterate_getElem
  refine ⟨hwalk, hseg.iterate, ?_, hI.blocks.endUsed, hI.blocks.step, ?_,
    fun x h1 h2 => Heap.Inv.tile hI h1 h2, ?_, ?_⟩
  · intro i hi
    rcases Nat.lt_or_eq_of_le hi with hlt | rfl
    · rw [hwalk i hlt, hI.blocks.notEOM _ (List.getElem_mem hlt)]
      simp only [ne_eq, not_true_eq_false, false_iff]
      omega
    · rw [hseg.iterate, hI.blocks.endEOM]
      simp
  · refine List.pairwise_append.mpr ⟨hseg.pairwise_lt hI.blocks.step (by omega),
      List.pairwise_singleton _ _, fun a ha b hb => ?_⟩
    have := hI.blocks.mem_bounds ha
    have := List.mem_singleton.mp hb
    omega
  · intro p
    constructor
    · intro hp
      obtain ⟨n, hn⟩ := Option.isSome_iff_exists.mp hp
      obtain ⟨b, hb, rfl⟩ := hI.mem_of_live _ _ hn
      exact ⟨b, ⟨hb, (hI.used b hb).mpr hp, rfl⟩, fun y hy => by omega⟩
    · rintro ⟨b, ⟨hb, hf, rfl⟩, _⟩
      exact (hI.used b hb).mp hf
  · intro p n hp
    obtain ⟨b, hb, rfl⟩ := hI.mem_of_live _ _ hp
    have := hI.room b hb n hp
    rw [Nat.add_sub_cancel, hI.blocks.availableSpace hb]
    omega

end Shape

/-! ### Runs with small sizes -/

/-- At this heap `sbrk` fails and leaves the break alone, or grows it by
`increment` and not past the recursive window. -/
def SbrkSafe (sbrk : Sbrk ε) (h : Heap ε) (increment : Nat) : Prop :=
  ∃ r h', sbrk increment h = some (r, h') ∧ SbrkReturns h increment r h'

/-- Requested sizes, and products for `kcalloc`, below `2 ^ 30`. -/
def HeapCall.Small : HeapCall → Prop
  | .kmalloc size => size < 1073741824
  | .kcalloc nmemb size => nmemb * size < 1073741824
  | .krealloc _ size => size < 1073741824

instance (call : HeapCall) : Decidable call.Small :=
  match call with
  | .kmalloc _ => inferInstanceAs (Decidable (_ < _))
  | .kcalloc _ _ => inferInstanceAs (Decidable (_ < _))
  | .krealloc _ _ => inferInstanceAs (Decidable (_ < _))

/-- Small sizes, and a safe `sbrk` behind `kmalloc`. -/
def smallCalls : Legal ε := fun h sbrk call =>
  call.Small ∧ SbrkSafe sbrk h (align call.request + 8)

theorem HeapCall.Small.request_lt {call : HeapCall} (h : call.Small) :
    call.request < 1073741824 := by
  cases call with
  | kmalloc size => exact h
  | kcalloc nmemb size =>
    have h : nmemb * size < 1073741824 := h
    rw [HeapCall.request, u32_of_lt (by omega)]
    exact h
  | krealloc ptr size => exact h

theorem legalCalls_small : LegalCalls (smallCalls (ε := ε)) := by
  rintro h live bs sbrk call hI ⟨hsmall, hsafe⟩ _
  have hlt := hsmall.request_lt
  have ha := align_bounds (show call.request ≤ 4294967288 by omega)
  refine ⟨by omega, fun _ => ?_⟩
  rw [u32_of_lt (by omega)]
  exact hsafe

/-- **The heap structure over whole runs.**  After every step of every run from
`heap_init` the list has its shape, every `kfree` of a live pointer returns (its
parent search finds the block), and so does every further allocation. -/
theorem heap_structure {kernelEnd : Nat} {m : ByteMem} {env : ε} {h₀ : Heap ε}
    {es : List HeapEvent} {c : Client ε} (hinit : heapInit kernelEnd m env = some h₀)
    (hrun : Trace (HeapStep smallCalls) ⟨h₀, fun _ => none⟩ es c) :
    (∃ bs, HeapShape c.heap c.live bs) ∧
    (∀ ptr, (c.live ptr).isSome → (kfree ptr c.heap).isSome) ∧
    (∀ sbrk size, smallCalls c.heap sbrk (.kmalloc size) → (kmalloc sbrk size c.heap).isSome) ∧
    (∀ sbrk nmemb size, smallCalls c.heap sbrk (.kcalloc nmemb size) →
      (kcalloc sbrk nmemb size c.heap).isSome) ∧
    (∀ sbrk ptr size, smallCalls c.heap sbrk (.krealloc ptr size) →
      ptr = 0 ∨ (c.live ptr).isSome → (krealloc sbrk ptr size c.heap).isSome) := by
  obtain ⟨bs, hI⟩ := heap_run_inv legalCalls_small ⟨_, (heapInit_spec hinit).2.2⟩ hrun
  refine ⟨⟨bs, Heap.Inv.shape hI⟩, ?_, ?_, ?_, ?_⟩
  · intro ptr hp
    obtain ⟨n, hn⟩ := Option.isSome_iff_exists.mp hp
    obtain ⟨h', hk, _⟩ := kfree_spec hI hn
    simp [hk]
  · intro sbrk size hlegal
    obtain ⟨r, h', hk, _⟩ := legal_kmalloc legalCalls_small hI hlegal
    simp [hk]
  · intro sbrk nmemb size hlegal
    obtain ⟨r, h', hk, _⟩ := legal_kcalloc legalCalls_small hI hlegal
    simp [hk]
  · intro sbrk ptr size hlegal hptr
    rcases hptr with rfl | hptr
    · obtain ⟨r, h', hk, _⟩ := legal_krealloc_null legalCalls_small hI hlegal
      simp [hk]
    · obtain ⟨n, hn⟩ := Option.isSome_iff_exists.mp hptr
      rcases Nat.eq_zero_or_pos size with rfl | hpos
      · obtain ⟨h', hk, _⟩ := legal_krealloc_zero sbrk hI hn
        simp [hk]
      · obtain ⟨r, h', hk, _⟩ := legal_krealloc legalCalls_small hI hlegal hn hpos
        simp [hk]

/-- An `sbrk` that always has memory. -/
def sbrkUnbounded : Sbrk Unit := fun increment h =>
  some (h.programBreakPoint, { h with programBreakPoint := h.programBreakPoint + increment })

theorem smallCalls_unbounded {h : Heap Unit} {call : HeapCall} (hs : call.Small)
    (hle : h.programBreakPoint + (align call.request + 8) ≤ 4290772992) :
    smallCalls h sbrkUnbounded call :=
  ⟨hs, _, _, rfl, rfl, fun _ _ => rfl, .inr ⟨rfl, rfl, hle⟩⟩

/-- A run that grows the heap, takes the free block, writes to it, reads it and
gives it back. -/
theorem sbrkUnbounded_run : ∃ h₀ c, heapInit 0xC0120000 (fun _ => 0) () = some h₀ ∧
    Trace (HeapStep smallCalls) ⟨h₀, fun _ => none⟩
      [.kmalloc 0x400000 0xC0400000, .kmalloc 10 0xC0120008, .write 0xC0120008 3 7,
        .read 0xC0120008 3 7, .kfree 0xC0120008] c := by
  exact ⟨_, _, rfl, .snoc (.snoc (.snoc (.snoc (.snoc .nil
    (.kmalloc (smallCalls_unbounded (by decide) (by decide)) rfl))
    (.kmalloc (smallCalls_unbounded (by decide) (by decide)) rfl))
    (.write rfl (by decide)))
    (.read rfl (by decide)))
    (.kfree rfl rfl)⟩

theorem heap_structure_unbounded : ∃ h₀ c, heapInit 0xC0120000 (fun _ => 0) () = some h₀ ∧
    Trace (HeapStep smallCalls) ⟨h₀, fun _ => none⟩
      [.kmalloc 0x400000 0xC0400000, .kmalloc 10 0xC0120008, .write 0xC0120008 3 7,
        .read 0xC0120008 3 7, .kfree 0xC0120008] c ∧
    ∃ bs, HeapShape c.heap c.live bs := by
  obtain ⟨h₀, c, hinit, hrun⟩ := sbrkUnbounded_run
  exact ⟨h₀, c, hinit, hrun, (heap_structure hinit hrun).1⟩

end ChoOS
