import ChoOS.Heap.Run

/-!
# The heap as a store of byte arrays

What the heap is for: a `Store` gives every live pointer an array of its own.
`StoreStep` says what the calls mean there, without blocks, headers or a break.
An allocation makes a new array, `krealloc` replaces one by an array with the
same beginning, and a write changes one place of one array.

`Client.store` reads the store off the memory, and `HeapStep.refines` shows that
a step of the heap is a step of the store with the same event; `heap_refines` is
the run.  In the store `StoreStep.keeps` is immediate: an event that does not
concern a byte does not change it.  Hence a read sees the last write.
-/

namespace ChoOS

variable {ε : Type}

/-- The arrays of the live pointers. -/
abbrev Store := Nat → Option (List UInt8)

/-- What the calls mean for the arrays. -/
inductive StoreStep : Store → HeapEvent → Store → Prop
  | kmalloc_failed {σ : Store} {size : Nat} : StoreStep σ (.kmalloc size 0) σ
  | kmalloc {σ : Store} {size r : Nat} {bytes : List UInt8} :
      r ≠ 0 → σ r = none → bytes.length = size →
      StoreStep σ (.kmalloc size r) (Function.update σ r (some bytes))
  | kcalloc_failed {σ : Store} {nmemb size : Nat} : StoreStep σ (.kcalloc nmemb size 0) σ
  | kcalloc {σ : Store} {nmemb size r : Nat} : r ≠ 0 → σ r = none →
      StoreStep σ (.kcalloc nmemb size r)
        (Function.update σ r (some (List.replicate (nmemb * size) 0)))
  | krealloc_null_failed {σ : Store} {size : Nat} : StoreStep σ (.krealloc 0 size 0) σ
  | krealloc_null {σ : Store} {size r : Nat} {bytes : List UInt8} :
      r ≠ 0 → σ r = none → bytes.length = size →
      StoreStep σ (.krealloc 0 size r) (Function.update σ r (some bytes))
  | krealloc_zero {σ : Store} {ptr : Nat} : ptr ≠ 0 → (σ ptr).isSome →
      StoreStep σ (.krealloc ptr 0 0) (Function.update σ ptr none)
  | krealloc_failed {σ : Store} {ptr size : Nat} : ptr ≠ 0 → (σ ptr).isSome → 0 < size →
      StoreStep σ (.krealloc ptr size 0) σ
  | krealloc {σ : Store} {ptr size r : Nat} {old new : List UInt8} :
      ptr ≠ 0 → σ ptr = some old → 0 < size → r ≠ 0 → r = ptr ∨ σ r = none →
      new.length = size → new.take (min old.length size) = old.take (min old.length size) →
      StoreStep σ (.krealloc ptr size r)
        (Function.update (Function.update σ ptr none) r (some new))
  | kfree {σ : Store} {ptr : Nat} : (σ ptr).isSome →
      StoreStep σ (.kfree ptr) (Function.update σ ptr none)
  | write {σ : Store} {ptr i : Nat} {v : UInt8} {bytes : List UInt8} :
      σ ptr = some bytes → i < bytes.length →
      StoreStep σ (.write ptr i v) (Function.update σ ptr (some (bytes.set i v)))
  | read {σ : Store} {ptr i : Nat} {v : UInt8} {bytes : List UInt8} :
      σ ptr = some bytes → bytes[i]? = some v → StoreStep σ (.read ptr i v) σ

/-! ### What a read of the store sees -/

/-- The events that may change byte `i` of the array at `ptr`. -/
def HeapEvent.Concerns (ptr i : Nat) : HeapEvent → Prop
  | .krealloc p _ _ => p = ptr
  | .kfree p => p = ptr
  | .write p j _ => p = ptr ∧ j = i
  | _ => False

/-- Byte `i` of the array at `ptr` is `v`. -/
def Store.Holds (σ : Store) (ptr i : Nat) (v : UInt8) : Prop :=
  ∃ bytes, σ ptr = some bytes ∧ bytes[i]? = some v

section Store

variable {σ σ' : Store} {e : HeapEvent} {ptr i : Nat} {v w : UInt8}

theorem Store.Holds.of_update {p : Nat} {o : Option (List UInt8)} (hp : p ≠ ptr)
    (h : σ.Holds ptr i v) : Store.Holds (Function.update σ p o) ptr i v := by
  obtain ⟨bytes, hb, hv⟩ := h
  exact ⟨bytes, by rw [Function.update_of_ne (Ne.symm hp), hb], hv⟩

theorem Store.Holds.ne_of_none {p : Nat} (h : σ.Holds ptr i v) (hp : σ p = none) : p ≠ ptr := by
  rintro rfl
  obtain ⟨bytes, hb, _⟩ := h
  simp [hp] at hb

/-- **An event that does not concern a byte keeps it.** -/
theorem StoreStep.keeps (hs : StoreStep σ e σ') (he : ¬ e.Concerns ptr i)
    (h : σ.Holds ptr i v) : σ'.Holds ptr i v := by
  cases hs with
  | kmalloc_failed => exact h
  | kmalloc _ hr _ => exact h.of_update (h.ne_of_none hr)
  | kcalloc_failed => exact h
  | kcalloc _ hr => exact h.of_update (h.ne_of_none hr)
  | krealloc_null_failed => exact h
  | krealloc_null _ hr _ => exact h.of_update (h.ne_of_none hr)
  | krealloc_zero _ _ => exact h.of_update he
  | krealloc_failed => exact h
  | krealloc _ _ _ _ hr _ _ =>
    have hne := hr.elim (fun h0 => h0 ▸ he) h.ne_of_none
    exact (h.of_update he).of_update hne
  | kfree _ => exact h.of_update he
  | @write p j _ bytes hp hj =>
    by_cases hpp : p = ptr
    · subst hpp
      have hji : j ≠ i := fun h0 => he ⟨rfl, h0⟩
      obtain ⟨bytes', hb, hv⟩ := h
      obtain rfl := Option.some.inj (hp.symm.trans hb)
      exact ⟨_, Function.update_self _ _ _, by rw [List.getElem?_set_ne hji, hv]⟩
    · exact h.of_update hpp
  | read _ _ => exact h

theorem StoreStep.holds_write (hs : StoreStep σ (.write ptr i v) σ') : σ'.Holds ptr i v := by
  cases hs with
  | write hp hi => exact ⟨_, Function.update_self _ _ _, by rw [List.getElem?_set_self hi]⟩

/-- **A read sees the last write.** -/
theorem store_read_last {σ₀ σ : Store} {es es' : List HeapEvent}
    (h : Trace StoreStep σ₀ (es ++ .write ptr i v :: es' ++ [.read ptr i w]) σ)
    (hes : ∀ e ∈ es', ¬ e.Concerns ptr i) : w = v := by
  rw [List.append_assoc, List.cons_append] at h
  obtain ⟨σ₁, _, h₁⟩ := h.split
  obtain ⟨σ₂, hw, h₂⟩ := h₁.uncons
  obtain ⟨σ₃, h₃, h₄⟩ := h₂.split
  have hv : σ₃.Holds ptr i v := h₃.invariant_of hw.holds_write
    (fun s e s' he hI hs => hs.keeps (hes e he) hI)
  obtain ⟨σ₄, hr, _⟩ := h₄.uncons
  cases hr with
  | read hp hi =>
    obtain ⟨bytes, hb, hv⟩ := hv
    obtain rfl := Option.some.inj (hp.symm.trans hb)
    exact Option.some.inj (hi.symm.trans hv)

end Store

/-! ### The store of a heap -/

/-- The first `n` bytes at `p`. -/
def contents (m : ByteMem) (p n : Nat) : List UInt8 := (List.range n).map fun i => m (p + i)

/-- The arrays that the memory holds at the live pointers. -/
def Client.store (c : Client ε) : Store := fun p => (c.live p).map (contents c.heap.mem p)

section Contents

variable {m m' : ByteMem} {live live' : Live} {h h' : Heap ε} {bs : List Nat}
variable {p q n k size r ptr : Nat}

@[simp] theorem contents_length : (contents m p n).length = n := by simp [contents]

theorem contents_getElem? {i : Nat} (hi : i < n) : (contents m p n)[i]? = some (m (p + i)) := by
  simp [contents, hi]

theorem contents_congr (h : ∀ i < n, m' (q + i) = m (p + i)) :
    contents m' q n = contents m p n :=
  List.map_congr_left fun i hi => h i (List.mem_range.mp hi)

theorem contents_take : (contents m p n).take k = contents m p (min k n) := by
  rw [contents, ← List.map_take, List.take_range, contents]

theorem contents_zero (h : ∀ i < n, m (p + i) = 0) : contents m p n = List.replicate n 0 :=
  (List.map_congr_left fun i hi => h i (List.mem_range.mp hi)).trans (by simp)

theorem Client.store_isSome {c : Client ε} : (c.store p).isSome = (c.live p).isSome := by
  simp [Client.store]

theorem Client.store_of_live {c : Client ε} (hp : c.live p = some n) :
    c.store p = some (contents c.heap.mem p n) := by
  simp [Client.store, hp]

theorem Client.store_none {c : Client ε} (hp : c.live p = none) : c.store p = none := by
  simp [Client.store, hp]

theorem store_congr (hl : ∀ q, q ≠ p → live' q = live q) (hu : Untouched live p h.mem h'.mem)
    (hq : q ≠ p) : Client.store ⟨h', live'⟩ q = Client.store ⟨h, live⟩ q := by
  simp only [Client.store, hl q hq]
  cases hlq : live q with
  | none => rfl
  | some n => exact congrArg some (contents_congr (hu q n hlq hq))

end Contents

/-! ### The refinement -/

section Refines

variable {h h' : Heap ε} {live : Live} {bs : List Nat} {ptr n size r : Nat}
variable {c c' : Client ε} {e : HeapEvent}

theorem store_alloc (hI : h.Inv live bs) (hr : r ≠ 0) (hu : Untouched live 0 h.mem h'.mem) :
    Client.store ⟨h', liveAlloc live size r⟩
      = Function.update (Client.store ⟨h, live⟩) r (some (contents h'.mem r size)) := by
  rw [liveAlloc_of_ne _ _ hr]
  funext q
  by_cases hq : q = r
  · subst hq
    simp [Client.store]
  · have hu' : Untouched live r h.mem h'.mem := fun p k hp _ =>
      hu p k hp (HeapInv.live_ne_null hI hp)
    rw [Function.update_of_ne hq]
    exact store_congr (fun q hq => Function.update_of_ne hq _ _) hu' hq

theorem store_same (hI : h.Inv live bs) (hs : SameHeap h h') :
    Client.store ⟨h', live⟩ = Client.store ⟨h, live⟩ := by
  funext q
  by_cases hq : q = 0
  · subst hq
    have h0 : live 0 = none := by
      cases hl : live 0 with
      | none => rfl
      | some n => exact absurd rfl (HeapInv.live_ne_null hI hl)
    simp [Client.store, h0]
  · exact store_congr (fun _ _ => rfl) (hs.untouched hI 0) hq

theorem store_free (hu : Untouched live ptr h.mem h'.mem) :
    Client.store ⟨h', Function.update live ptr none⟩
      = Function.update (Client.store ⟨h, live⟩) ptr none := by
  funext q
  by_cases hq : q = ptr
  · subst hq
    simp [Client.store]
  · rw [Function.update_of_ne hq]
    exact store_congr (fun q hq => Function.update_of_ne hq _ _) hu hq

theorem store_realloc (hu : Untouched live ptr h.mem h'.mem) :
    Client.store ⟨h', Function.update (Function.update live ptr none) r (some size)⟩
      = Function.update (Function.update (Client.store ⟨h, live⟩) ptr none) r
          (some (contents h'.mem r size)) := by
  funext q
  by_cases hq : q = r
  · subst hq
    simp [Client.store]
  · rw [Function.update_of_ne hq, ← store_free hu]
    simp only [Client.store, Function.update_of_ne hq]

theorem read8_live {i : Nat} (hI : h.Inv live bs) (hp : live ptr = some n) (hi : i < n) :
    h.mem.read8 (ptr + i) = h.mem (ptr + i) := by
  have hb := HeapInv.live_below hI hp
  have hbrk := HeapInv.brk_le hI
  rw [ByteMem.read8, u32_of_lt (by omega)]

theorem store_write {i : Nat} {v : UInt8} (hI : h.Inv live bs) (hp : live ptr = some n)
    (hi : i < n) :
    Client.store ⟨{ h with mem := h.mem.write8 (ptr + i) v }, live⟩
      = Function.update (Client.store ⟨h, live⟩) ptr
          (some ((contents h.mem ptr n).set i v)) := by
  have hb := HeapInv.live_below hI hp
  have hbrk := HeapInv.brk_le hI
  have hw : ∀ x, h.mem.write8 (ptr + i) v x = if x = ptr + i then v else h.mem x := fun x =>
    ByteMem.write8_apply (by omega) ..
  have hu : Untouched live ptr h.mem (h.mem.write8 (ptr + i) v) :=
    (HeapInv.client_write hI hp (fun x hx => by rw [hw, if_neg (by omega)])).2
  funext q
  by_cases hq : q = ptr
  · subst hq
    rw [Function.update_self, Client.store_of_live hp]
    refine congrArg some (List.ext_getElem? fun j => ?_)
    rcases Nat.lt_or_ge j n with hj | hj
    · refine (contents_getElem? hj).trans ?_
      rw [List.getElem?_set]
      by_cases hij : i = j
      · subst hij
        simp [hj, hw]
      · rw [if_neg hij, contents_getElem? hj]
        exact congrArg some ((hw _).trans (if_neg (by omega)))
    · rw [List.getElem?_eq_none (by simpa using hj), List.getElem?_eq_none (by simpa using hj)]
  · rw [Function.update_of_ne hq]
    exact store_congr (fun _ _ => rfl) hu hq

theorem HeapStep.refines (hI : c.Inv) (hs : HeapStep smallCalls c e c') :
    StoreStep c.store e c'.store := by
  obtain ⟨bs, hI⟩ := hI
  have hl := legalCalls_small (ε := ε)
  cases hs with
  | kmalloc hc hk =>
    obtain ⟨r, h', hk', hres, -⟩ := legal_kmalloc hl hI hc
    obtain ⟨rfl, rfl⟩ := Prod.mk.inj (Option.some.inj (hk.symm.trans hk'))
    rcases hres with ⟨rfl, hsame⟩ | ⟨hr, hfresh, _, _, hu⟩
    · rw [liveAlloc_null, store_same hI hsame]
      exact .kmalloc_failed
    · rw [store_alloc hI hr hu]
      exact .kmalloc hr (Client.store_none hfresh) contents_length
  | @kcalloc _ nmemb size _ _ hc hk =>
    obtain ⟨r, h', hk', hres, hzero, -⟩ := legal_kcalloc hl hI hc
    obtain ⟨rfl, rfl⟩ := Prod.mk.inj (Option.some.inj (hk.symm.trans hk'))
    have hlt : nmemb * size < 1073741824 := hc.1
    rw [u32_of_lt (by omega)] at hres hzero ⊢
    rcases hres with ⟨rfl, hsame⟩ | ⟨hr, hfresh, _, _, hu⟩
    · rw [liveAlloc_null, store_same hI hsame]
      exact .kcalloc_failed
    · rw [store_alloc hI hr hu, contents_zero (hzero hr)]
      exact .kcalloc hr (Client.store_none hfresh)
  | @krealloc sbrk ptr size r h' hp hc hk =>
    rcases Nat.eq_zero_or_pos ptr with rfl | hptr
    · obtain ⟨r, h', hk', hres, -⟩ := legal_krealloc_null hl hI hc
      obtain ⟨rfl, rfl⟩ := Prod.mk.inj (Option.some.inj (hk.symm.trans hk'))
      rw [liveRealloc_null]
      rcases hres with ⟨rfl, hsame⟩ | ⟨hr, hfresh, _, _, hu⟩
      · rw [liveAlloc_null, store_same hI hsame]
        exact .krealloc_null_failed
      · rw [store_alloc hI hr hu]
        exact .krealloc_null hr (Client.store_none hfresh) contents_length
    · obtain ⟨n, hn⟩ := Option.isSome_iff_exists.mp (hp.resolve_left (by omega))
      have hsome : (c.store ptr).isSome := by rw [Client.store_isSome, hn]; rfl
      rcases Nat.eq_zero_or_pos size with rfl | hsize
      · obtain ⟨h₁, hk', hf⟩ := legal_krealloc_zero sbrk hI hn
        obtain ⟨rfl, rfl⟩ := Prod.mk.inj (Option.some.inj (hk.symm.trans hk'))
        obtain ⟨h₂, hf', _, _, _, hu⟩ := kfree_spec hI hn
        obtain rfl := Option.some.inj (hf.symm.trans hf')
        rw [liveRealloc_zero _ (by omega), store_free hu]
        exact .krealloc_zero (by omega) hsome
      · obtain ⟨r, h', hk', hres, -⟩ := legal_krealloc hl hI hc hn hsize
        obtain ⟨rfl, rfl⟩ := Prod.mk.inj (Option.some.inj (hk.symm.trans hk'))
        rcases hres with ⟨rfl, hsame⟩ | ⟨hr, hfresh, _, _, hu, hcopy⟩
        · rw [liveRealloc_failed _ (by omega) (by omega), store_same hI hsame]
          exact .krealloc_failed (by omega) hsome hsize
        · rw [liveRealloc_moved _ (by omega) (by omega) hr, store_realloc hu]
          refine .krealloc (by omega) (Client.store_of_live hn) hsize hr
            (hfresh.imp_right Client.store_none) contents_length ?_
          rw [contents_length, contents_take, contents_take, min_eq_left (min_le_right n size),
            min_eq_left (min_le_left n size)]
          exact contents_congr hcopy
  | kfree hp hk =>
    obtain ⟨n, hn⟩ := Option.isSome_iff_exists.mp hp
    obtain ⟨h', hk', _, _, _, hu⟩ := kfree_spec hI hn
    obtain rfl := Option.some.inj (hk.symm.trans hk')
    rw [store_free hu]
    exact .kfree (by rw [Client.store_isSome]; exact hp)
  | write hp hi =>
    rw [store_write hI hp hi]
    exact .write (Client.store_of_live hp) (by simpa using hi)
  | read hp hi =>
    rw [read8_live hI hp hi]
    exact .read (Client.store_of_live hp) (contents_getElem? hi)

theorem AllocResult.keeps (hres : AllocResult h live size r h')
    (hI : h.Inv live bs) (hp : live ptr = some n) :
    liveAlloc live size r ptr = some n ∧ ∀ i < n, h'.mem (ptr + i) = h.mem (ptr + i) := by
  have h0 := HeapInv.live_ne_null hI hp
  rcases hres with ⟨rfl, hsame⟩ | ⟨hr, hfresh, -, -, hu⟩
  · rw [liveAlloc_null]
    exact ⟨hp, hsame.untouched hI 0 ptr n hp h0⟩
  · have hne : ptr ≠ r := by
      rintro rfl
      rw [hp] at hfresh
      cases hfresh
    rw [liveAlloc_of_ne _ _ hr, Function.update_of_ne hne]
    exact ⟨hp, hu ptr n hp h0⟩

theorem kfree_keeps {p : Nat} (hk : kfree p h = some h') (hI : h.Inv live bs)
    (hlive : (live p).isSome) (hne : ptr ≠ p) (hp : live ptr = some n) :
    Function.update live p none ptr = some n ∧ ∀ i < n, h'.mem (ptr + i) = h.mem (ptr + i) := by
  obtain ⟨k, hk₀⟩ := Option.isSome_iff_exists.mp hlive
  obtain ⟨h₁, hk', -, -, -, hu⟩ := kfree_spec hI hk₀
  obtain rfl := Option.some.inj (hk.symm.trans hk')
  rw [Function.update_of_ne hne]
  exact ⟨hp, hu ptr n hp hne⟩

theorem HeapStep.keeps {legal : Legal ε} (hl : LegalCalls legal) (hI : c.Inv)
    (hs : HeapStep legal c e c') (he : ∀ i, ¬ e.Concerns ptr i) (hp : c.live ptr = some n) :
    c'.live ptr = some n ∧ ∀ i < n, c'.heap.mem (ptr + i) = c.heap.mem (ptr + i) := by
  obtain ⟨bs, hI⟩ := hI
  cases hs with
  | kmalloc hc hk =>
    obtain ⟨r, h', hk', hres, -⟩ := legal_kmalloc hl hI hc
    obtain ⟨rfl, rfl⟩ := Prod.mk.inj (Option.some.inj (hk.symm.trans hk'))
    exact hres.keeps hI hp
  | kcalloc hc hk =>
    obtain ⟨r, h', hk', hres, -⟩ := legal_kcalloc hl hI hc
    obtain ⟨rfl, rfl⟩ := Prod.mk.inj (Option.some.inj (hk.symm.trans hk'))
    exact hres.keeps hI hp
  | @krealloc sbrk p size r h' hpl hc hk =>
    have hpp : ptr ≠ p := fun h => he 0 h.symm
    rcases Nat.eq_zero_or_pos p with rfl | hp0
    · obtain ⟨r, h', hk', hres, -⟩ := legal_krealloc_null hl hI hc
      obtain ⟨rfl, rfl⟩ := Prod.mk.inj (Option.some.inj (hk.symm.trans hk'))
      rw [liveRealloc_null]
      exact hres.keeps hI hp
    · obtain ⟨k, hk₀⟩ := Option.isSome_iff_exists.mp (hpl.resolve_left (by omega))
      rcases Nat.eq_zero_or_pos size with rfl | hsize
      · obtain ⟨h₁, hk', hf⟩ := legal_krealloc_zero sbrk hI hk₀
        obtain ⟨rfl, rfl⟩ := Prod.mk.inj (Option.some.inj (hk.symm.trans hk'))
        rw [liveRealloc_zero _ (by omega)]
        exact kfree_keeps hf hI (by rw [hk₀]; rfl) hpp hp
      · obtain ⟨r, h', hk', hres, -⟩ := legal_krealloc hl hI hc hk₀ hsize
        obtain ⟨rfl, rfl⟩ := Prod.mk.inj (Option.some.inj (hk.symm.trans hk'))
        rcases hres with ⟨rfl, hsame⟩ | ⟨hr, hfresh, -, -, hu, -⟩
        · rw [liveRealloc_failed _ (by omega) (by omega)]
          exact ⟨hp, hsame.untouched hI 0 ptr n hp (HeapInv.live_ne_null hI hp)⟩
        · have hpr : ptr ≠ r := by
            rintro rfl
            rcases hfresh with rfl | hfresh
            · exact hpp rfl
            · rw [hp] at hfresh
              cases hfresh
          rw [liveRealloc_moved _ (by omega) (by omega) hr]
          dsimp only
          rw [Function.update_of_ne hpr, Function.update_of_ne hpp]
          exact ⟨hp, hu ptr n hp hpp⟩
  | kfree hlive hk => exact kfree_keeps hk hI hlive (fun h => he 0 h.symm) hp
  | @write p k i v hlive hi =>
    have hb := HeapInv.live_below hI hlive
    have hbrk := HeapInv.brk_le hI
    have hpp : ptr ≠ p := fun h => he i ⟨h.symm, rfl⟩
    have hk : ∀ x, x < p ∨ p + k ≤ x → c.heap.mem.write8 (p + i) v x = c.heap.mem x :=
      fun x hx => by rw [ByteMem.write8_apply (by omega), if_neg (by omega)]
    exact ⟨hp, (HeapInv.client_write hI hlive hk).2 ptr n hp hpp⟩
  | read _ _ => exact ⟨hp, fun _ _ => rfl⟩

/-- **Every run of the heap is a run of the store**, and a read of a live
allocation returns what was last written there. -/
theorem heap_refines {kernelEnd : Nat} {m : ByteMem} {env : ε} {h₀ : Heap ε}
    {es : List HeapEvent} {c : Client ε} (hinit : heapInit kernelEnd m env = some h₀)
    (hrun : Trace (HeapStep smallCalls) ⟨h₀, fun _ => none⟩ es c) :
    Trace StoreStep (fun _ => none) es c.store ∧
    (∀ ptr n i, c.live ptr = some n → i < n →
      c.store.Holds ptr i (c.heap.mem.read8 (ptr + i))) ∧
    ∀ es₁ es₂ ptr i v w, es = es₁ ++ .write ptr i v :: es₂ ++ [.read ptr i w] →
      (∀ e ∈ es₂, ¬ e.Concerns ptr i) → w = v := by
  have hinv : Client.Inv (⟨h₀, fun _ => none⟩ : Client ε) := ⟨_, (heapInit_spec hinit).2.2⟩
  obtain ⟨σ, hσ, hR⟩ := hrun.simulate (R := fun c σ => c.Inv ∧ c.store = σ) ⟨hinv, rfl⟩
    (fun c e c' σ ⟨hI, hc⟩ hs => ⟨_, hc ▸ hs.refines hI, hs.inv legalCalls_small hI, rfl⟩)
  rw [← hR.2] at hσ
  refine ⟨hσ, fun ptr n i hp hi => ⟨_, Client.store_of_live hp, ?_⟩, ?_⟩
  · obtain ⟨bs, hI⟩ := hR.1
    rw [contents_getElem? hi, read8_live hI hp hi]
  · rintro es₁ es₂ ptr i v w rfl hes
    exact store_read_last hσ hes

theorem heap_refines_unbounded : ∃ h₀ c, heapInit 0xC0120000 (fun _ => 0) () = some h₀ ∧
    Trace (HeapStep smallCalls) ⟨h₀, fun _ => none⟩
      [.kmalloc 0x400000 0xC0400000, .kmalloc 10 0xC0120008, .write 0xC0120008 3 7,
        .read 0xC0120008 3 7, .kfree 0xC0120008] c ∧
    Trace StoreStep (fun _ => none)
      [.kmalloc 0x400000 0xC0400000, .kmalloc 10 0xC0120008, .write 0xC0120008 3 7,
        .read 0xC0120008 3 7, .kfree 0xC0120008] c.store := by
  obtain ⟨h₀, c, hinit, hrun⟩ := sbrkUnbounded_run
  exact ⟨h₀, c, hinit, hrun, (heap_refines hinit hrun).1⟩

end Refines

end ChoOS
