import ChoOS.Lib.Trace
import ChoOS.Paging.Frames
import Mathlib.Data.Set.Insert

/-!
# No frame has two owners

A frame in use belongs to one of three parties: it was reserved when the bitmap
was set up, a caller holds it, or it waits in `pre_frames` to be issued.
`Owned` says that the three are apart and that every frame of theirs has its
bit set, so that a clear bit is nobody's.  The waiting entries are given by a
set `act` of places: between two calls these are the places from `pframe` on,
and while a batch is refilled the ones already filled as well.  An entry that
leaves `act` is forgotten, its bit stays set; that is what happens to the
entries of a batch that could not be completed.

`pmmAllocFrameInt_cases` says what the search can do, and each lemma
`Owned.alloc`, `Owned.put`, `Owned.issue`, `Owned.free` is one move of a frame
from one party to another.  `FrameStep.inv` is the step, `frames_unique` the run.
-/

namespace ChoOS

/-- A frame that is in use and was not reserved. -/
structure Taken (bitmap res : Bitmap) (a : Nat) : Prop where
  aligned : a % 4096 = 0
  lt : a / 4096 < 1048576
  set : bitmap.testBit (a / 4096)
  notReserved : res.testBit (a / 4096) = false

/-- The owners of the frames: `res` is the bitmap at the start, `held` the
frames of the callers, `act` the places of `pre` that wait. -/
structure Owned (bitmap res : Bitmap) (held : Set Nat) (pre : Nat → Nat) (act : Set Nat) :
    Prop where
  reserved : ∀ i, res.testBit i → bitmap.testBit i
  null : res.testBit 0
  heldTaken : ∀ a ∈ held, Taken bitmap res a
  waiting : ∀ k ∈ act, pre k ≠ 0 → Taken bitmap res (pre k) ∧ pre k ∉ held
  distinct : ∀ k ∈ act, ∀ l ∈ act, pre k ≠ 0 → pre k = pre l → k = l

section Owned

variable {bitmap res : Bitmap} {held act act' : Set Nat} {pre : Nat → Nat} {a i k : Nat}

theorem Taken.setBit (h : Taken bitmap res a) : Taken (bitmap.setBit i) res a :=
  ⟨h.aligned, h.lt, Bitmap.testBit_setBit_of h.set, h.notReserved⟩

theorem Taken.clearBit (h : Taken bitmap res a) (hi : i ≠ a / 4096) :
    Taken (bitmap.clearBit i) res a :=
  ⟨h.aligned, h.lt, by rw [Bitmap.testBit_clearBit_of_ne hi]; exact h.set, h.notReserved⟩

theorem Owned.mono (hO : Owned bitmap res held pre act) (hs : act' ⊆ act) :
    Owned bitmap res held pre act' :=
  ⟨hO.reserved, hO.null, hO.heldTaken, fun k hk => hO.waiting k (hs hk),
    fun k hk l hl => hO.distinct k (hs hk) l (hs hl)⟩

/-- A frame whose bit was clear is nobody's. -/
structure Fresh (bitmap res : Bitmap) (held : Set Nat) (pre : Nat → Nat) (act : Set Nat)
    (a : Nat) : Prop where
  taken : Taken bitmap res a
  not_held : a ∉ held
  not_waiting : ∀ k ∈ act, pre k ≠ a

/-- **Allocation** sets the bit of a frame that nobody has. -/
theorem Owned.alloc (hO : Owned bitmap res held pre act) (hi : i < 1048576)
    (hb : bitmap.testBit i = false) :
    Owned (bitmap.setBit i) res held pre act ∧
      Fresh (bitmap.setBit i) res held pre act (i * 4096) := by
  have hdiv : i * 4096 / 4096 = i := Nat.mul_div_cancel _ (by decide)
  have hne : ∀ b, Taken bitmap res b → b ≠ i * 4096 := by
    rintro b ht rfl
    have := ht.set
    rw [hdiv, hb] at this
    exact absurd this (by decide)
  have hres : res.testBit i = false := by
    cases h : res.testBit i with
    | false => rfl
    | true => exact absurd (hO.reserved i h) (by rw [hb]; decide)
  have htaken : Taken (bitmap.setBit i) res (i * 4096) := by
    refine ⟨Nat.mul_mod_left _ _, ?_, ?_, ?_⟩ <;> rw [hdiv]
    · exact hi
    · exact Bitmap.testBit_setBit_self
    · exact hres
  refine ⟨⟨fun j hj => Bitmap.testBit_setBit_of (hO.reserved j hj), hO.null,
    fun a ha => (hO.heldTaken a ha).setBit,
    fun k hk h0 => ⟨(hO.waiting k hk h0).1.setBit, (hO.waiting k hk h0).2⟩, hO.distinct⟩,
    htaken, fun hm => hne _ (hO.heldTaken _ hm) rfl, fun k hk he => ?_⟩
  have h0 : pre k ≠ 0 := by
    rw [he]
    intro h0
    rw [show i = 0 by omega, hO.null] at hres
    exact absurd hres (by decide)
  exact hne _ (hO.waiting k hk h0).1 he

theorem Owned.put (hO : Owned bitmap res held pre act) (hf : Fresh bitmap res held pre act a) :
    Owned bitmap res held (Function.update pre k a) (insert k act) := by
  have hself : Function.update pre k a k = a := Function.update_self k a pre
  have hother : ∀ l, l ≠ k → Function.update pre k a l = pre l := fun l hl =>
    Function.update_of_ne hl a pre
  refine ⟨hO.reserved, hO.null, hO.heldTaken, fun l hl h0 => ?_, fun l hl l' hl' h0 he => ?_⟩
  · by_cases hlk : l = k
    · subst hlk
      rw [hself]
      exact ⟨hf.taken, hf.not_held⟩
    · rw [hother l hlk] at h0 ⊢
      exact hO.waiting l (hl.resolve_left hlk) h0
  · by_cases hlk : l = k <;> by_cases hlk' : l' = k
    · rw [hlk, hlk']
    · rw [hlk, hself, hother l' hlk'] at he
      exact absurd he.symm (hf.not_waiting l' (hl'.resolve_left hlk'))
    · rw [hlk', hself, hother l hlk] at he
      exact absurd he (hf.not_waiting l (hl.resolve_left hlk))
    · rw [hother l hlk, hother l' hlk'] at he
      rw [hother l hlk] at h0
      exact hO.distinct l (hl.resolve_left hlk) l' (hl'.resolve_left hlk') h0 he

theorem Owned.hold (hO : Owned bitmap res held pre act) (hf : Fresh bitmap res held pre act a) :
    Owned bitmap res (insert a held) pre act := by
  refine ⟨hO.reserved, hO.null, fun b hb => ?_, fun k hk h0 => ?_, hO.distinct⟩
  · rcases hb with rfl | hb
    · exact hf.taken
    · exact hO.heldTaken b hb
  · obtain ⟨h1, h2⟩ := hO.waiting k hk h0
    exact ⟨h1, fun hm => hm.elim (hf.not_waiting k hk) h2⟩

theorem Owned.fresh_of_waiting (hO : Owned bitmap res held pre act) (hk : k ∈ act)
    (h0 : pre k ≠ 0) : Fresh bitmap res held pre (act \ {k}) (pre k) :=
  ⟨(hO.waiting k hk h0).1, (hO.waiting k hk h0).2,
    fun _ hl he => hl.2 (hO.distinct k hk _ hl.1 h0 he.symm).symm⟩

theorem Owned.free (hO : Owned bitmap res held pre act) (ha : a ∈ held) :
    Owned (bitmap.clearBit (a / 4096)) res (held \ {a}) pre act := by
  have hta := hO.heldTaken a ha
  have hdiff : ∀ b, Taken bitmap res b → b ≠ a → a / 4096 ≠ b / 4096 := by
    intro b hb hne he
    have := hb.aligned
    have := hta.aligned
    omega
  refine ⟨fun i hi => ?_, hO.null, fun b hb => ?_, fun k hk h0 => ?_, hO.distinct⟩
  · have hne : a / 4096 ≠ i := fun he => by
      have := hta.notReserved
      rw [he, hi] at this
      exact absurd this (by decide)
    rw [Bitmap.testBit_clearBit_of_ne hne]
    exact hO.reserved i hi
  · exact (hO.heldTaken b hb.1).clearBit (hdiff b (hO.heldTaken b hb.1) hb.2)
  · obtain ⟨h1, h2⟩ := hO.waiting k hk h0
    exact ⟨h1.clearBit (hdiff _ h1 fun he => h2 (he ▸ ha)), fun hm => h2 hm.1⟩

end Owned

/-! ### The functions -/

section Functions

variable {s s' : Frames} {res : Bitmap} {held act : Set Nat} {r a n i : Nat} {ok : Bool}

theorem clearBitOfWord_some {bitmap : Bitmap} {w r : Nat} (h : clearBitOfWord bitmap w = some r) :
    r / 32 = w ∧ bitmap.testBit r = false := by
  rw [clearBitOfWord] at h
  split at h
  · obtain ⟨j, _, hj, hr⟩ := firstSome_some h
    split at hr
    · exact absurd hr (by simp)
    · rename_i hb
      obtain rfl := Option.some.inj hr
      exact ⟨by omega, by simpa using hb⟩
  · exact absurd h (by simp)

theorem pmmAllocFrameInt_cases (s : Frames) :
    pmmAllocFrameInt s = (0, s) ∨
    ∃ i < 1048576, s.bitmap.testBit i = false ∧
      pmmAllocFrameInt s = (i * 4096, { s with bitmap := s.bitmap.setBit i }) := by
  rw [pmmAllocFrameInt]
  cases h : firstSome (clearBitOfWord s.bitmap) bitmapSize 0 with
  | none => exact .inl rfl
  | some i =>
    obtain ⟨w, _, hw, hi⟩ := firstSome_some h
    obtain ⟨hdiv, hb⟩ := clearBitOfWord_some hi
    have hw : w < 0 + 32768 := hw
    have hu : u32 (i * pageSize) = i * 4096 := u32_of_lt (by rw [pageSize]; omega)
    exact .inr ⟨i, by omega, hb, by simp only [hu]⟩

/-- The places that wait between two calls. -/
def Frames.unissued (s : Frames) : Set Nat := {k | s.pframe ≤ k ∧ k < 20}

/-- The invariant of the allocator. -/
structure Frames.Inv (s : Frames) (res : Bitmap) (held : Set Nat) : Prop where
  owned : Owned s.bitmap res held s.preFrames s.unissued
  pframe : s.pframe ≤ 20

/-- A result is `NULL`, or a frame that the caller holds from now on. -/
def heldAfter (held : Set Nat) (r : Nat) : Set Nat := if r = 0 then held else insert r held

theorem pmmAllocFrameInt_spec (hO : Owned s.bitmap res held s.preFrames act)
    (h : pmmAllocFrameInt s = (r, s')) :
    s' = { s with bitmap := s'.bitmap } ∧ Owned s'.bitmap res held s'.preFrames act ∧
      (r ≠ 0 → Fresh s'.bitmap res held s'.preFrames act r) := by
  rcases pmmAllocFrameInt_cases s with hc | ⟨i, hi, hb, hc⟩
  · obtain ⟨rfl, rfl⟩ := Prod.mk.inj (h.symm.trans hc)
    exact ⟨rfl, hO, fun h0 => absurd rfl h0⟩
  · obtain ⟨rfl, rfl⟩ := Prod.mk.inj (h.symm.trans hc)
    obtain ⟨hO', hf⟩ := hO.alloc hi hb
    exact ⟨rfl, hO', fun _ => hf⟩

/-- **The refill loop.**  Whatever it does, the places that waited before still
do; when it fills the batch, so do all places of it. -/
theorem refill_spec (hO : Owned s.bitmap res held s.preFrames act) (hi : ∀ k < i, k ∈ act)
    (h : refill n i s = (ok, s')) :
    s'.pframe = s.pframe ∧ s'.allocate = s.allocate ∧
    ∃ act', act ⊆ act' ∧ Owned s'.bitmap res held s'.preFrames act' ∧
      (ok = true → ∀ k < i + n, k ∈ act') := by
  induction n generalizing i s act with
  | zero =>
    obtain ⟨rfl, rfl⟩ := Prod.mk.inj h
    exact ⟨rfl, rfl, act, subset_rfl, hO, fun _ k hk => hi k (by omega)⟩
  | succ n ih =>
    obtain ⟨frame, s₁, hf⟩ : ∃ frame s₁, pmmAllocFrameInt s = (frame, s₁) := ⟨_, _, rfl⟩
    obtain ⟨hs₁, hO₁, hfresh⟩ := pmmAllocFrameInt_spec hO hf
    have hp : s₁.pframe = s.pframe := by rw [hs₁]
    have hq : s₁.allocate = s.allocate := by rw [hs₁]
    simp only [refill, hf] at h
    split at h
    · obtain ⟨rfl, rfl⟩ := Prod.mk.inj h
      exact ⟨hp, hq, act, subset_rfl, hO₁, by simp⟩
    · rename_i h0
      have hO₂ := hO₁.put (k := i) (hfresh h0)
      have hi₂ : ∀ k < i + 1, k ∈ insert i act := fun k hk => by
        rcases Nat.lt_or_eq_of_le (Nat.le_of_lt_succ hk) with hlt | rfl
        · exact Set.mem_insert_of_mem _ (hi k hlt)
        · exact Set.mem_insert _ _
      obtain ⟨hp', hq', act', hsub, hO', hall⟩ := ih hO₂ hi₂ h
      refine ⟨hp'.trans hp, hq'.trans hq, act', (Set.subset_insert i act).trans hsub, hO', ?_⟩
      exact fun hok k hk => hall hok k (by omega)

theorem issue_spec (hI : s.Inv res held) (hp : s.pframe < 20) (h : issue s = (r, s')) :
    s'.Inv res (heldAfter held r) ∧
      (r ≠ 0 → Fresh s'.bitmap res held s'.preFrames s'.unissued r) := by
  obtain ⟨rfl, rfl⟩ := Prod.mk.inj h
  have hmod : (s.pframe + 1) % 256 = s.pframe + 1 := Nat.mod_eq_of_lt (by omega)
  have hmem : s.pframe ∈ s.unissued := ⟨Nat.le_refl _, hp⟩
  have hset : Frames.unissued { s with pframe := (s.pframe + 1) % 256 }
      = s.unissued \ {s.pframe} := by
    ext k
    simp only [Frames.unissued, hmod, Set.mem_sdiff, Set.mem_ofPred_eq, Set.mem_singleton_iff]
    omega
  have hO := hI.owned.mono fun k (hk : k ∈ s.unissued \ {s.pframe}) => hk.1
  refine ⟨⟨?_, by simp only [hmod]; omega⟩, fun h0 => ?_⟩
  · rw [hset, heldAfter]
    split
    · exact hO
    · rename_i h0
      exact hO.hold (hI.owned.fresh_of_waiting hmem h0)
  · rw [hset]
    exact hI.owned.fresh_of_waiting hmem h0

theorem pmmAllocPage_spec (hI : s.Inv res held) (h : pmmAllocPage s = (r, s')) :
    s'.Inv res (heldAfter held r) ∧
      (r ≠ 0 → Fresh s'.bitmap res held s'.preFrames s'.unissued r) := by
  obtain ⟨s₀, hs₀⟩ : ∃ s₀, s₀ = if s.pframe = batchPagesAllocedMax then { s with allocate := 1 }
    else s := ⟨_, rfl⟩
  have hI₀ : s₀.Inv res held := by
    rw [hs₀]
    split
    · exact ⟨hI.owned, hI.pframe⟩
    · exact hI
  have hfull : s₀.pframe = 20 → s₀.allocate = 1 := by
    rw [hs₀]
    split
    · exact fun _ => rfl
    · rename_i hne
      exact fun he => absurd he hne
  simp only [pmmAllocPage, ← hs₀] at h
  split at h
  · obtain ⟨ok, s₁, hr⟩ : ∃ ok s₁, refill batchPagesAllocedMax 0 s₀ = (ok, s₁) := ⟨_, _, rfl⟩
    obtain ⟨hp, -, act', hsub, hO, hall⟩ := refill_spec hI₀.owned (fun k hk => by omega) hr
    rw [hr] at h
    cases ok with
    | true =>
      have hI₁ : Frames.Inv { s₁ with pframe := 0, allocate := 0 } res held :=
        ⟨hO.mono fun k hk => hall rfl k (by rw [Nat.zero_add]; exact hk.2), Nat.zero_le _⟩
      exact issue_spec hI₁ (Nat.zero_lt_succ _) h
    | false =>
      obtain ⟨rfl, rfl⟩ := Prod.mk.inj h
      refine ⟨⟨?_, hp ▸ hI₀.pframe⟩, fun h0 => absurd rfl h0⟩
      rw [Frames.unissued, hp]
      exact hO.mono hsub
  · rename_i hne
    have hp : s₀.pframe < 20 := by
      rcases Nat.lt_or_eq_of_le hI₀.pframe with hlt | he
      · exact hlt
      · exact absurd (hfull he) hne
    exact issue_spec hI₀ hp h

theorem pmmFreePage_spec (hI : s.Inv res held) (ha : a ∈ held) :
    (pmmFreePage a s).Inv res (held \ {a}) := ⟨hI.owned.free ha, hI.pframe⟩

end Functions

/-! ### The bitmap at the start -/

section Init

variable {bitmap : Bitmap} {kernelEnd : Nat} {mbd : Multiboot}

theorem testBit_setBits (lo hi i : Nat) (bitmap : Bitmap) :
    (setBits lo hi bitmap).testBit i
      = (decide (lo ≤ i ∧ i < hi ∧ i < 1048576) || bitmap.testBit i) := by
  have hn : ∀ n, ((List.range n).foldl (fun b k =>
      if lo + k < maxPageFrameCount then b.setBit (lo + k) else b) bitmap).testBit i
      = (decide (lo ≤ i ∧ i < lo + n ∧ i < 1048576) || bitmap.testBit i) := by
    intro n
    induction n with
    | zero =>
      rw [decide_eq_false (by omega), Bool.false_or]
      rfl
    | succ n ih =>
      rw [List.range_succ, List.foldl_append, List.foldl_cons, List.foldl_nil]
      split
      · rename_i hlt
        have hlt : lo + n < 1048576 := hlt
        rw [Bitmap.testBit_setBit, ih, ← Bool.or_assoc, ← Bool.decide_or]
        congr 1
        exact decide_eq_decide.mpr (by omega)
      · rename_i hlt
        have hlt : ¬ lo + n < 1048576 := hlt
        rw [ih]
        congr 1
        exact decide_eq_decide.mpr (by omega)
  rw [setBits, hn]
  congr 1
  exact decide_eq_decide.mpr (by omega)

/-- The frames that `pmm_frames_init` protects: the kernel and the first MiB. -/
theorem pmmFramesInit_protected (h : pmmFramesInit kernelEnd mbd = some bitmap) {i : Nat}
    (hi : i < 256 ∨ (i < kernelEndIdx kernelEnd ∧ i < 1048576)) : bitmap.testBit i := by
  obtain ⟨b, _, hb⟩ := Option.bind_eq_some_iff.mp h
  obtain rfl := Option.some.inj hb
  rw [testBit_setBits, testBit_setBits, ← Bool.or_assoc, ← Bool.decide_or,
    decide_eq_true, Bool.true_or]
  have hk : kernelStart / pageSize = 256 := rfl
  omega

theorem Frames.Inv.start (h : pmmFramesInit kernelEnd mbd = some bitmap) :
    (Frames.start bitmap).Inv bitmap ∅ :=
  ⟨⟨fun _ hi => hi, pmmFramesInit_protected h (.inl (by decide)), by simp, fun _ _ h0 => absurd rfl h0,
    fun _ _ _ _ h0 => absurd rfl h0⟩, Nat.zero_le _⟩

end Init

/-! ### Whole runs -/

/-- The calls of the allocator, with their results. -/
inductive FrameEvent
  | pmmAllocPage (r : Nat)
  | pmmAllocFrameInt (r : Nat)
  | pmmFreePage (a : Nat)

/-- The allocator with the frames its callers hold. -/
structure FrameClient where
  frames : Frames
  held : Set Nat

/-- One call; only held frames are given back. -/
inductive FrameStep : FrameClient → FrameEvent → FrameClient → Prop
  | pmmAllocPage {c : FrameClient} {r : Nat} {s' : Frames} : pmmAllocPage c.frames = (r, s') →
      FrameStep c (.pmmAllocPage r) ⟨s', heldAfter c.held r⟩
  | pmmAllocFrameInt {c : FrameClient} {r : Nat} {s' : Frames} :
      pmmAllocFrameInt c.frames = (r, s') →
      FrameStep c (.pmmAllocFrameInt r) ⟨s', heldAfter c.held r⟩
  | pmmFreePage {c : FrameClient} {a : Nat} : a ∈ c.held →
      FrameStep c (.pmmFreePage a) ⟨pmmFreePage a c.frames, c.held \ {a}⟩

/-- The frame that a call returned. -/
def FrameEvent.result : FrameEvent → Nat
  | .pmmAllocPage r => r
  | .pmmAllocFrameInt r => r
  | .pmmFreePage _ => 0

section Runs

variable {c c' : FrameClient} {e : FrameEvent} {res : Bitmap}

/-- **A call keeps the owners apart**, and what it returns was nobody's. -/
theorem FrameStep.inv (hI : c.frames.Inv res c.held) (hs : FrameStep c e c') :
    c'.frames.Inv res c'.held ∧ (e.result ≠ 0 →
      Fresh c'.frames.bitmap res c.held c'.frames.preFrames c'.frames.unissued e.result) := by
  cases hs with
  | pmmAllocPage h => exact pmmAllocPage_spec hI h
  | @pmmAllocFrameInt r s' h =>
    obtain ⟨hs', hO, hf⟩ := pmmAllocFrameInt_spec hI.owned h
    have hun : s'.unissued = c.frames.unissued := by rw [hs']; rfl
    rw [← hun] at hO hf
    refine ⟨⟨?_, by rw [hs']; exact hI.pframe⟩, hf⟩
    simp only [heldAfter]
    split
    · exact hO
    · rename_i h0
      exact hO.hold (hf h0)
  | pmmFreePage ha => exact ⟨pmmFreePage_spec hI ha, fun h0 => absurd rfl h0⟩

/-- **No frame is handed out twice.**  In every state of every run the held
frames and the waiting entries of `pre_frames` are in use and distinct, and a
call that does not return `NULL` returns a frame that is aligned, was not
reserved, is not held and does not wait. -/
theorem frames_unique {kernelEnd : Nat} {mbd : Multiboot} {bitmap : Bitmap}
    {es : List FrameEvent} (hinit : pmmFramesInit kernelEnd mbd = some bitmap)
    (hrun : Trace FrameStep ⟨Frames.start bitmap, ∅⟩ es c) :
    (∀ a ∈ c.held, c.frames.bitmap.testBit (a / 4096)) ∧
    (∀ k, c.frames.pframe ≤ k → k < 20 → c.frames.preFrames k ≠ 0 →
      c.frames.bitmap.testBit (c.frames.preFrames k / 4096) ∧
      c.frames.preFrames k ∉ c.held ∧
      ∀ l, c.frames.pframe ≤ l → l < 20 → c.frames.preFrames l = c.frames.preFrames k → l = k) ∧
    (∀ e c', FrameStep c e c' → e.result ≠ 0 →
      e.result % 4096 = 0 ∧ bitmap.testBit (e.result / 4096) = false ∧ e.result ∉ c.held ∧
      ∀ k, c'.frames.pframe ≤ k → k < 20 → c'.frames.preFrames k ≠ e.result) := by
  have hI : c.frames.Inv bitmap c.held :=
    hrun.invariant (I := fun c => c.frames.Inv bitmap c.held) (Frames.Inv.start hinit)
      (fun _ _ _ hI hs => (hs.inv hI).1)
  refine ⟨fun a ha => (hI.owned.heldTaken a ha).set, fun k hk hk' h0 => ?_, fun e c' hs h0 => ?_⟩
  · obtain ⟨ht, hh⟩ := hI.owned.waiting k ⟨hk, hk'⟩ h0
    refine ⟨ht.set, hh, fun l hl hl' he => ?_⟩
    exact (hI.owned.distinct k ⟨hk, hk'⟩ l ⟨hl, hl'⟩ h0 he.symm).symm
  · have hf := (hs.inv hI).2 h0
    exact ⟨hf.taken.aligned, hf.taken.notReserved, hf.not_held,
      fun k hk hk' => hf.not_waiting k ⟨hk, hk'⟩⟩

/-- A memory map with one entry: 21 free frames from 2 MiB on. -/
def oneEntryMap : Multiboot where
  mem := (((ByteMem.write32 (fun _ => 0) 0x1000 20).write32 0x1004 0x200000).write32 0x100C
    0x15000).write32 0x1014 1
  flags := 64
  mmapAddr := 0x1000
  mmapLength := 24

theorem frames_unique_oneEntry : ∃ bitmap c, pmmFramesInit 0xC0120000 oneEntryMap = some bitmap ∧
    Trace FrameStep ⟨Frames.start bitmap, ∅⟩
      [.pmmAllocPage 0x200000, .pmmAllocFrameInt 0x214000, .pmmFreePage 0x200000] c ∧
    ∀ a ∈ c.held, c.frames.bitmap.testBit (a / 4096) := by
  have hboot : (pmmFramesInit 0xC0120000 oneEntryMap).map
      (fun b => ((pmmAllocPage (Frames.start b)).1,
        (pmmAllocFrameInt (pmmAllocPage (Frames.start b)).2).1)) = some (0x200000, 0x214000) := by
    decide +kernel
  obtain ⟨bitmap, hb, haddr⟩ := Option.map_eq_some_iff.mp hboot
  obtain ⟨hpage, hframe⟩ := Prod.ext_iff.mp haddr
  have hrun : Trace FrameStep ⟨Frames.start bitmap, ∅⟩
      [.pmmAllocPage 0x200000, .pmmAllocFrameInt 0x214000, .pmmFreePage 0x200000] _ :=
    .snoc (.snoc (.snoc .nil (.pmmAllocPage (Prod.ext hpage rfl)))
      (.pmmAllocFrameInt (Prod.ext hframe rfl))) (.pmmFreePage (by simp [heldAfter]))
  exact ⟨bitmap, _, hb, hrun, (frames_unique hb hrun).1⟩

end Runs

end ChoOS
