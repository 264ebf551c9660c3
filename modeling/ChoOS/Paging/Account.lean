import Mathlib.Data.Finset.Card
import Mathlib.Order.Interval.Finset.Nat
import ChoOS.Paging.Directory

/-!
# Where the free frames are

`frames_unique` says that no frame has two owners; here is the other half, that
none is without one.  A frame that was free after `pmm_frames_init` is clear in
the bitmap, waits in `pre_frames`, or is held by a caller.

The one place where a frame can get lost is the refill of the batch.
`refill_account` says when it is completed: exactly when twenty frames are
clear.  When there are fewer it takes them all, returns `NULL` and forgets
them.  `RefillSafe` is the state in which this cannot happen, and
`no_frame_leak` says that over runs of such calls nothing is lost, and that a
call from any other state does lose frames.
-/

namespace ChoOS

/-- The frames that are clear in the bitmap. -/
def Frames.clear (s : Frames) : Finset Nat :=
  (Finset.range 1048576).filter fun i => s.bitmap.testBit i = false

/-- The next `pmm_alloc_page` refills the batch. -/
def Frames.Refills (s : Frames) : Prop := s.pframe = 20 ∨ s.allocate = 1

/-- The frames of `pre_frames` that are still to be issued. -/
def Frames.waiting (s : Frames) : Set Nat :=
  {a | ¬ s.Refills ∧ ∃ k ∈ s.unissued, s.preFrames k = a}

/-- The frames that `pmm_alloc_page` can still come to. -/
def Frames.available (s : Frames) : Set Nat := {f | f ∈ s.clear ∨ f * 4096 ∈ s.waiting}

/-- A refill finds a whole batch or nothing. -/
def Frames.RefillSafe (s : Frames) : Prop := s.Refills → s.clear = ∅ ∨ 20 ≤ s.clear.card

section Refill

variable {s s' : Frames} {n i k f : Nat} {ok : Bool}

theorem Frames.mem_clear : f ∈ s.clear ↔ f < 1048576 ∧ s.bitmap.testBit f = false := by
  simp [clear]

theorem clearBitOfWord_none {bitmap : Bitmap} {w j : Nat} (h : clearBitOfWord bitmap w = none)
    (hj : j < 32) : bitmap.testBit (w * 32 + j) = true := by
  rw [clearBitOfWord] at h
  split at h
  · have := firstSome_none h (Nat.zero_le j) (by omega)
    simpa using this
  · rename_i hfull
    have hw : bitmap w = 0xFFFFFFFF#32 := by simpa using hfull
    rw [Bitmap.testBit_eq, show (w * 32 + j) / 32 = w by omega, show (w * 32 + j) % 32 = j by omega,
      hw, show (0xFFFFFFFF#32) = BitVec.allOnes 32 from rfl, BitVec.getLsbD_allOnes]
    exact decide_eq_true hj

/-- **`pmm_alloc_frame_int`** fails only when no frame is clear. -/
theorem pmmAllocFrameInt_clear (s : Frames) :
    (s.clear = ∅ ∧ pmmAllocFrameInt s = (0, s)) ∨
    ∃ f ∈ s.clear, pmmAllocFrameInt s = (f * 4096, { s with bitmap := s.bitmap.setBit f }) := by
  cases h : firstSome (clearBitOfWord s.bitmap) bitmapSize 0 with
  | none =>
    refine .inl ⟨Finset.eq_empty_of_forall_notMem fun f hf => ?_, by simp only [pmmAllocFrameInt, h]⟩
    obtain ⟨hlt, hb⟩ := Frames.mem_clear.mp hf
    have hw := firstSome_none h (k := f / 32) (Nat.zero_le _) (by rw [bitmapSize]; omega)
    have := clearBitOfWord_none hw (Nat.mod_lt f (by decide))
    rw [show f / 32 * 32 + f % 32 = f by omega, hb] at this
    cases this
  | some i =>
    obtain ⟨w, _, hw, hi⟩ := firstSome_some h
    obtain ⟨hdiv, hb⟩ := clearBitOfWord_some hi
    have hw : w < 0 + 32768 := hw
    have hu : u32 (i * pageSize) = i * 4096 := u32_of_lt (by rw [pageSize]; omega)
    exact .inr ⟨i, Frames.mem_clear.mpr ⟨by omega, hb⟩, by simp only [pmmAllocFrameInt, h, hu]⟩

theorem Frames.clear_setBit (s : Frames) (f : Nat) :
    Frames.clear { s with bitmap := s.bitmap.setBit f } = s.clear.erase f := by
  ext g
  rw [Finset.mem_erase, mem_clear, mem_clear, Bitmap.testBit_setBit]
  by_cases h : f = g
  · simp [h]
  · simp [h, Ne.symm h]

/-- **The refill loop** is completed exactly when there are enough clear frames;
otherwise it takes what there is. -/
theorem refill_account (h0 : s.bitmap.testBit 0) (h : refill n i s = (ok, s')) :
    (ok = true ↔ n ≤ s.clear.card) ∧
    (ok = false → s'.clear = ∅) ∧
    (s.clear = ∅ → s' = s) ∧
    (∀ k < i, s'.preFrames k = s.preFrames k) ∧
    (ok = true → (∀ k, i ≤ k → k < i + n → s'.preFrames k ≠ 0) ∧
      ∀ f ∈ s.clear, f ∈ s'.clear ∨ ∃ k, i ≤ k ∧ k < i + n ∧ s'.preFrames k = f * 4096) := by
  induction n generalizing i s with
  | zero =>
    obtain ⟨rfl, rfl⟩ := Prod.mk.inj h
    exact ⟨by simp, by simp, fun _ => rfl, fun _ _ => rfl, fun _ =>
      ⟨fun k hk hk' => by omega, fun f hf => .inl hf⟩⟩
  | succ n ih =>
    rw [refill] at h
    rcases pmmAllocFrameInt_clear s with ⟨hc, ha⟩ | ⟨f, hf, ha⟩
    · rw [ha] at h
      obtain ⟨rfl, rfl⟩ := Prod.mk.inj h
      exact ⟨by simp [hc], fun _ => hc, fun _ => rfl, fun _ _ => rfl, by simp⟩
    · have hf0 : f * 4096 ≠ 0 := by
        intro hz
        rw [show f = 0 by omega, Frames.mem_clear, h0] at hf
        exact absurd hf.2 (by decide)
      have hne : s.clear ≠ ∅ := Finset.ne_empty_of_mem hf
      have hcard := Finset.card_erase_of_mem hf
      have hpos := Finset.card_pos.mpr ⟨f, hf⟩
      obtain ⟨s₁, hs₁⟩ : ∃ s₁ : Frames, s₁ = { s with
        bitmap := s.bitmap.setBit f
        preFrames := Function.update s.preFrames i (f * 4096) } := ⟨_, rfl⟩
      have hc₁ : s₁.clear = s.clear.erase f := by rw [hs₁]; exact Frames.clear_setBit s f
      rw [ha] at h
      dsimp only at h
      rw [if_neg hf0, ← hs₁] at h
      obtain ⟨hok, hfail, -, hkeep, hfill⟩ := ih
        (by rw [hs₁]; exact Bitmap.testBit_setBit_of h0) h
      have hat : s'.preFrames i = f * 4096 := by
        rw [hkeep i (Nat.lt_succ_self i), hs₁]
        exact Function.update_self ..
      refine ⟨hok.trans (by rw [hc₁, hcard]; omega), hfail, fun he => absurd he hne, fun k hk => ?_,
        fun ht => ⟨fun k hk hk' => ?_, fun g hg => ?_⟩⟩
      · rw [hkeep k (by omega), hs₁]
        exact Function.update_of_ne (by omega) ..
      · rcases Nat.eq_or_lt_of_le hk with rfl | hlt
        · rw [hat]
          exact hf0
        · exact (hfill ht).1 k hlt (by omega)
      · by_cases hgf : g = f
        · exact .inr ⟨i, Nat.le_refl _, by omega, by rw [hat, hgf]⟩
        · rcases (hfill ht).2 g (by rw [hc₁]; exact Finset.mem_erase.mpr ⟨hgf, hg⟩) with
            hg | ⟨k, hk, hk', he⟩
          · exact .inl hg
          · exact .inr ⟨k, by omega, by omega, he⟩

theorem pmmAllocPage_of_not_refills (hr : ¬ s.Refills) : pmmAllocPage s = issue s := by
  have hp : ¬ s.pframe = batchPagesAllocedMax := fun hp => hr (.inl hp)
  have ha : ¬ s.allocate = 1 := fun ha => hr (.inr ha)
  rw [pmmAllocPage, if_neg hp]
  exact if_neg ha

/-- What `pmm_alloc_page` can do: hand out the next entry, or refill the batch and
hand out its first one, or fail in the refill. -/
theorem pmmAllocPage_cases (h0 : s.bitmap.testBit 0) :
    (¬ s.Refills ∧ pmmAllocPage s = issue s) ∨
    (∃ s₁, s.Refills ∧ 20 ≤ s.clear.card ∧
      refill 20 0 { s with allocate := 1 } = (true, s₁) ∧
      pmmAllocPage s = issue { s₁ with pframe := 0, allocate := 0 }) ∨
    (∃ s₁, s.Refills ∧ s.clear.card < 20 ∧
      refill 20 0 { s with allocate := 1 } = (false, s₁) ∧ pmmAllocPage s = (0, s₁)) := by
  have hs : (if s.pframe = batchPagesAllocedMax then { s with allocate := 1 } else s).allocate = 1 →
      (if s.pframe = batchPagesAllocedMax then { s with allocate := 1 } else s)
        = { s with allocate := 1 } := by
    split
    · exact fun _ => rfl
    · intro h1
      rw [← h1]
  by_cases hr : s.Refills
  · have h1 : (if s.pframe = batchPagesAllocedMax then { s with allocate := 1 } else s).allocate
        = 1 := by
      rcases hr with hr | hr
      · rw [if_pos (show s.pframe = batchPagesAllocedMax from hr)]
      · split
        · rfl
        · exact hr
    obtain ⟨ok, s₁, hf⟩ : ∃ ok s₁, refill 20 0 { s with allocate := 1 } = (ok, s₁) := ⟨_, _, rfl⟩
    obtain ⟨hok, -⟩ := refill_account (s := { s with allocate := 1 }) h0 hf
    have hc : Frames.clear { s with allocate := 1 } = s.clear := rfl
    rw [hc] at hok
    have hf' : refill batchPagesAllocedMax 0 { s with allocate := 1 } = (ok, s₁) := hf
    cases ok with
    | true =>
      have hrun : pmmAllocPage s = issue { s₁ with pframe := 0, allocate := 0 } := by
        unfold pmmAllocPage
        rw [if_pos h1, hs h1, hf']
      exact .inr (.inl ⟨s₁, hr, hok.mp rfl, hf, hrun⟩)
    | false =>
      have hrun : pmmAllocPage s = (0, s₁) := by
        unfold pmmAllocPage
        rw [if_pos h1, hs h1, hf']
      exact .inr (.inr ⟨s₁, hr, by simpa using hok, hf, hrun⟩)
  · exact .inl ⟨hr, pmmAllocPage_of_not_refills hr⟩

theorem refill_batch (h0 : s.bitmap.testBit 0) (h : refill n i s = (true, s')) :
    s'.clear ⊆ s.clear ∧ (∀ k < i, s'.preFrames k = s.preFrames k) ∧
    (∀ k, i ≤ k → k < i + n → ∃ f ∈ s.clear, f ∉ s'.clear ∧ s'.preFrames k = f * 4096) ∧
    ∀ k l, i ≤ k → k < l → l < i + n → s'.preFrames k ≠ s'.preFrames l := by
  induction n generalizing i s with
  | zero =>
    obtain ⟨-, rfl⟩ := Prod.mk.inj h
    exact ⟨subset_rfl, fun _ _ => rfl, fun k hk hk' => by omega, fun k l _ _ _ => by omega⟩
  | succ n ih =>
    rw [refill] at h
    rcases pmmAllocFrameInt_clear s with ⟨-, ha⟩ | ⟨f, hf, ha⟩
    · rw [ha] at h
      cases h
    · rw [ha] at h
      dsimp only at h
      split at h
      · cases h
      obtain ⟨s₁, hs₁⟩ : ∃ s₁ : Frames, s₁ = { s with
        bitmap := s.bitmap.setBit f
        preFrames := Function.update s.preFrames i (f * 4096) } := ⟨_, rfl⟩
      have hc₁ : s₁.clear = s.clear.erase f := by rw [hs₁]; exact Frames.clear_setBit s f
      rw [← hs₁] at h
      obtain ⟨hsub, hkeep, hfrom, hne⟩ := ih (by rw [hs₁]; exact Bitmap.testBit_setBit_of h0) h
      rw [hc₁] at hsub hfrom
      have hat : s'.preFrames i = f * 4096 := by
        rw [hkeep i (Nat.lt_succ_self i), hs₁]
        exact Function.update_self ..
      refine ⟨hsub.trans (Finset.erase_subset _ _), fun k hk => ?_, fun k hk hk' => ?_,
        fun k l hk hkl hl => ?_⟩
      · rw [hkeep k (by omega), hs₁]
        exact Function.update_of_ne (by omega) ..
      · rcases Nat.eq_or_lt_of_le hk with rfl | hlt
        · exact ⟨f, hf, fun hm => Finset.notMem_erase f _ (hsub hm), hat⟩
        · obtain ⟨g, hg, hg', he⟩ := hfrom k hlt (by omega)
          exact ⟨g, Finset.mem_of_mem_erase hg, hg', he⟩
      · rcases Nat.eq_or_lt_of_le hk with rfl | hlt
        · -- the frame of entry `i` was taken before the others were
          obtain ⟨g, hg, -, he⟩ := hfrom l (by omega) (by omega)
          rw [hat, he]
          intro heq
          exact Finset.ne_of_mem_erase hg (by omega)
        · exact hne k l hlt hkl (by omega)

theorem pmmAllocPage_of_refills (h0 : s.bitmap.testBit 0) (hr : s.Refills)
    (hc : 20 ≤ s.clear.card) :
    ∃ s', pmmAllocPage s = (s'.preFrames 0, s') ∧ s'.pframe = 1 ∧ s'.allocate = 0 ∧
      s'.clear ⊆ s.clear ∧
      (∀ k < 20, ∃ f ∈ s.clear, f ∉ s'.clear ∧ s'.preFrames k = f * 4096) ∧
      ∀ k l, k < l → l < 20 → s'.preFrames k ≠ s'.preFrames l := by
  rcases pmmAllocPage_cases h0 with ⟨hr', -⟩ | ⟨s₁, -, -, hf, ha⟩ | ⟨s₁, -, hlt, -⟩
  · exact absurd hr hr'
  · obtain ⟨hsub, -, hfrom, hne⟩ := refill_batch (s := { s with allocate := 1 }) h0 hf
    refine ⟨{ s₁ with pframe := 1, allocate := 0 }, ha, rfl, rfl, hsub, fun k hk => ?_,
      fun k l hkl hl => ?_⟩
    · exact hfrom k (Nat.zero_le _) (by omega)
    · exact hne k l (Nat.zero_le _) hkl (by omega)
  · exact absurd hc (by omega)

theorem Frames.waiting_of_refills (hr : s.Refills) : s.waiting = ∅ :=
  Set.eq_empty_of_forall_notMem fun _ hw => hw.1 hr

theorem refill_keeps (h : refill n i s = (ok, s')) :
    s'.allocate = s.allocate ∧ s'.pframe = s.pframe ∧
      ∀ f, s.bitmap.testBit f → s'.bitmap.testBit f := by
  induction n generalizing i s with
  | zero =>
    obtain ⟨-, rfl⟩ := Prod.mk.inj h
    exact ⟨rfl, rfl, fun _ h => h⟩
  | succ n ih =>
    rw [refill] at h
    rcases pmmAllocFrameInt_clear s with ⟨-, ha⟩ | ⟨f, -, ha⟩
    · rw [ha] at h
      obtain ⟨-, rfl⟩ := Prod.mk.inj h
      exact ⟨rfl, rfl, fun _ h => h⟩
    · rw [ha] at h
      dsimp only at h
      split at h
      · obtain ⟨-, rfl⟩ := Prod.mk.inj h
        exact ⟨rfl, rfl, fun _ hb => Bitmap.testBit_setBit_of hb⟩
      · obtain ⟨h1, h2, h3⟩ := ih h
        exact ⟨h1, h2, fun g hb => h3 g (Bitmap.testBit_setBit_of hb)⟩

/-- **When `pmm_alloc_page` fails** there is nothing left. -/
theorem pmmAllocPage_null (h0 : s.bitmap.testBit 0) (hr : s.Refills) (hc : s.clear.card < 20) :
    ∃ s', pmmAllocPage s = (0, s') ∧ s'.Refills ∧ s'.pframe = s.pframe ∧
      s'.bitmap.testBit 0 ∧ s'.clear = ∅ := by
  rcases pmmAllocPage_cases h0 with ⟨hr', -⟩ | ⟨s₁, -, hge, -⟩ | ⟨s₁, -, -, hf, ha⟩
  · exact absurd hr hr'
  · exact absurd hc (by omega)
  · obtain ⟨-, hempty, -⟩ := refill_account (s := { s with allocate := 1 }) h0 hf
    obtain ⟨hal, hp, hbits⟩ := refill_keeps hf
    exact ⟨s₁, ha, .inr hal, hp, hbits 0 h0, hempty rfl⟩

theorem Frames.available_of_refills (hr : s.Refills) (hc : s.clear = ∅) : s.available = ∅ := by
  refine Set.eq_empty_of_forall_notMem fun f hf => ?_
  rcases hf with hf | hf
  · rw [hc] at hf
    exact Finset.notMem_empty f hf
  · rw [waiting_of_refills hr] at hf
    exact hf

theorem pmmAllocPage_available (h0 : s.bitmap.testBit 0) (hp : s.pframe ≤ 20) {r : Nat}
    (h : pmmAllocPage s = (r, s')) :
    s'.available ⊆ s.available ∧ (r ≠ 0 → r % 4096 = 0 → r / 4096 ∈ s.available) := by
  by_cases hr : s.Refills
  · by_cases hc : 20 ≤ s.clear.card
    · obtain ⟨s₁, ha, -, -, hsub, hfrom, -⟩ := pmmAllocPage_of_refills h0 hr hc
      obtain ⟨rfl, rfl⟩ := Prod.mk.inj (h.symm.trans ha)
      refine ⟨fun f hf => ?_, fun _ _ => ?_⟩
      · rcases hf with hf | ⟨-, k, hk, he⟩
        · exact .inl (hsub hf)
        · obtain ⟨g, hg, -, he'⟩ := hfrom k hk.2
          exact .inl (by rw [show f = g by omega]; exact hg)
      · obtain ⟨g, hg, -, he⟩ := hfrom 0 (by decide)
        exact .inl (by rw [he, Nat.mul_div_cancel _ (by decide)]; exact hg)
    · obtain ⟨s₁, ha, hr', -, -, hempty⟩ := pmmAllocPage_null h0 hr (by omega)
      obtain ⟨rfl, rfl⟩ := Prod.mk.inj (h.symm.trans ha)
      rw [Frames.available_of_refills hr' hempty]
      exact ⟨Set.empty_subset _, fun hne => absurd rfl hne⟩
  · have hlt : s.pframe < 20 := by
      rcases Nat.lt_or_eq_of_le hp with hlt | he
      · exact hlt
      · exact absurd (.inl he) hr
    rw [pmmAllocPage_of_not_refills hr] at h
    obtain ⟨rfl, rfl⟩ := Prod.mk.inj h
    have hmod : (s.pframe + 1) % 256 = s.pframe + 1 := Nat.mod_eq_of_lt (by omega)
    refine ⟨fun f hf => ?_, fun _ hal => .inr ⟨hr, s.pframe, ⟨Nat.le_refl _, hlt⟩, by omega⟩⟩
    rcases hf with hf | ⟨-, k, hk, he⟩
    · exact .inl hf
    · refine .inr ⟨hr, k, ⟨?_, hk.2⟩, he⟩
      have := hk.1
      dsimp only at this
      omega

end Refill

/-! ### Accounting -/

/-- **Every free frame is somewhere**: `res` is the bitmap at the start. -/
structure Accounted (res : Bitmap) (s : Frames) (held : Set Nat) : Prop where
  inv : s.Inv res held
  batch : ¬ s.Refills → ∀ k ∈ s.unissued, s.preFrames k ≠ 0
  all : ∀ f < 1048576, res.testBit f = false →
    f ∈ s.clear ∨ f * 4096 ∈ s.waiting ∨ f * 4096 ∈ held

/-- A call of `pmm_alloc_page` as its callers see it. -/
structure AllocHonest (res : Bitmap) (s : Frames) (held : Set Nat) (r : Nat) (s' : Frames) :
    Prop where
  accounted : Accounted res s' (heldAfter held r)
  null : r = 0 → s.clear = ∅ ∧ s.waiting = ∅ ∧ s'.bitmap = s.bitmap

section Account

variable {s s' : Frames} {res : Bitmap} {held : Set Nat} {r a : Nat}

theorem Accounted.start {kernelEnd : Nat} {mbd : Multiboot}
    (h : pmmFramesInit kernelEnd mbd = some res) : Accounted res (Frames.start res) ∅ :=
  ⟨.start h, fun hr => absurd (.inr rfl) hr, fun _ hf hb => .inl (Frames.mem_clear.mpr ⟨hf, hb⟩)⟩

/-- Handing out the entry at `pframe` moves a frame from the batch to the caller. -/
theorem Accounted.issue (hA : Accounted res s held) (hr : ¬ s.Refills)
    (h : issue s = (r, s')) : Accounted res s' (heldAfter held r) ∧ r ≠ 0 := by
  have hp : s.pframe < 20 := by
    rcases Nat.lt_or_eq_of_le hA.inv.pframe with hlt | he
    · exact hlt
    · exact absurd (.inl he) hr
  have hmem : s.pframe ∈ s.unissued := ⟨Nat.le_refl _, hp⟩
  have hfst : s.preFrames s.pframe = r := congrArg Prod.fst h
  have h0 : r ≠ 0 := hfst ▸ hA.batch hr _ hmem
  have hI := (issue_spec hA.inv hp h).1
  obtain ⟨rfl, rfl⟩ := Prod.mk.inj h
  have hmod : (s.pframe + 1) % 256 = s.pframe + 1 := Nat.mod_eq_of_lt (by omega)
  have hold : ∀ k, s.pframe + 1 ≤ k → k < 20 → k ∈ s.unissued := fun k hk hk' => ⟨by omega, hk'⟩
  refine ⟨⟨hI, fun _ k hk => ?_, fun f hf hb => ?_⟩, h0⟩
  · obtain ⟨hk, hk'⟩ := hk
    rw [hmod] at hk
    exact hA.batch hr k (hold k hk hk')
  · rw [heldAfter, if_neg h0]
    rcases hA.all f hf hb with hc | ⟨-, k, hk, he⟩ | hh
    · exact .inl hc
    · rcases Nat.eq_or_lt_of_le hk.1 with hkp | hlt
      · exact .inr (.inr (.inl (by rw [← he, hkp])))
      · refine .inr (.inl ⟨fun hr' => ?_, k, ⟨by rw [hmod]; exact hlt, hk.2⟩, he⟩)
        rcases hr' with hr' | hr'
        · dsimp only at hr'
          rw [hmod] at hr'
          have := hk.2
          omega
        · exact hr (.inr hr')
    · exact .inr (.inr (.inr hh))

theorem Accounted.pmmFreePage (hA : Accounted res s held) (ha : a ∈ held) :
    Accounted res (pmmFreePage a s) (held \ {a}) := by
  have hta := hA.inv.owned.heldTaken a ha
  refine ⟨pmmFreePage_spec hA.inv ha, hA.batch, fun f hf hb => ?_⟩
  rcases hA.all f hf hb with hc | hw | hh
  · refine .inl (Frames.mem_clear.mpr ⟨hf, ?_⟩)
    change (s.bitmap.clearBit _).testBit f = false
    rw [Bitmap.testBit_clearBit, (Frames.mem_clear.mp hc).2, Bool.and_false]
  · exact .inr (.inl hw)
  · by_cases he : f * 4096 = a
    · refine .inl (Frames.mem_clear.mpr ⟨hf, ?_⟩)
      change (s.bitmap.clearBit (a / 4096)).testBit f = false
      rw [← he, Nat.mul_div_cancel _ (by decide), Bitmap.testBit_clearBit]
      simp
    · exact .inr (.inr ⟨hh, he⟩)

theorem Accounted.refill {s₁ : Frames} (hA : Accounted res s held) (hr : s.Refills)
    (hf : refill 20 0 { s with allocate := 1 } = (true, s₁)) :
    Accounted res { s₁ with pframe := 0, allocate := 0 } held := by
  obtain ⟨-, -, act', hsub, hO, hall⟩ := refill_spec (s := { s with allocate := 1 })
    hA.inv.owned (fun k hk => by omega) hf
  obtain ⟨-, -, -, -, hfill⟩ := refill_account (s := { s with allocate := 1 })
    (hA.inv.owned.reserved 0 hA.inv.owned.null) hf
  have hlive : ¬ Frames.Refills { s₁ with pframe := 0, allocate := 0 } := by
    rintro (h | h) <;> cases h
  refine ⟨⟨hO.mono fun k hk => hall rfl k (by rw [Nat.zero_add]; exact hk.2), Nat.zero_le _⟩,
    fun _ k hk => (hfill rfl).1 k (Nat.zero_le _) (by rw [Nat.zero_add]; exact hk.2),
    fun f hf hb => ?_⟩
  rcases hA.all f hf hb with hc | hw | hh
  · rcases (hfill rfl).2 f hc with hc | ⟨k, -, hk, he⟩
    · exact .inl hc
    · exact .inr (.inl ⟨hlive, k, ⟨Nat.zero_le _, by omega⟩, he⟩)
  · exact absurd hr hw.1
  · exact .inr (.inr hh)

/-- **One call loses a frame exactly when its refill finds some frames, but not a
whole batch.** -/
theorem Accounted.pmmAllocPage_iff (hA : Accounted res s held) (h : pmmAllocPage s = (r, s')) :
    AllocHonest res s held r s' ↔ s.RefillSafe := by
  have h0 : s.bitmap.testBit 0 := hA.inv.owned.reserved 0 hA.inv.owned.null
  rcases pmmAllocPage_cases h0 with ⟨hr, hc⟩ | ⟨s₁, hr, hcard, hf, hc⟩ | ⟨s₁, hr, hcard, hf, hc⟩
  · obtain ⟨hA', hne⟩ := hA.issue hr (hc.symm.trans h)
    exact ⟨fun _ hr' => absurd hr' hr, fun _ => ⟨hA', fun hz => absurd hz hne⟩⟩
  · obtain ⟨hA', hne⟩ := (hA.refill hr hf).issue (by rintro (h | h) <;> cases h) (hc.symm.trans h)
    exact ⟨fun _ _ => .inr hcard, fun _ => ⟨hA', fun hz => absurd hz hne⟩⟩
  · obtain ⟨rfl, rfl⟩ := Prod.mk.inj (h.symm.trans hc)
    constructor
    · exact fun hH _ => .inl (hH.null rfl).1
    · intro hsafe
      have hclear : s.clear = ∅ := (hsafe hr).resolve_right (by omega)
      obtain ⟨-, -, hsame, -⟩ := refill_account (s := { s with allocate := 1 }) h0 hf
      obtain rfl := hsame hclear
      have hr' : Frames.Refills { s with allocate := 1 } := .inr rfl
      refine ⟨⟨⟨hA.inv.owned, hA.inv.pframe⟩, fun hn => absurd hr' hn, fun f hf hb => ?_⟩,
        fun _ => ⟨hclear, Frames.waiting_of_refills hr, rfl⟩⟩
      rcases hA.all f hf hb with hc | hw | hh
      · exact .inl hc
      · exact absurd hr hw.1
      · exact .inr (.inr hh)

end Account

/-! ### Whole runs -/

/-- The calls of callers that give back only what they hold; each
`pmm_alloc_page` finds a whole batch or nothing when it refills. -/
inductive SafeFrameStep : FrameClient → FrameEvent → FrameClient → Prop
  | pmmAllocPage {c : FrameClient} {r : Nat} {s' : Frames} : pmmAllocPage c.frames = (r, s') →
      c.frames.RefillSafe → SafeFrameStep c (.pmmAllocPage r) ⟨s', heldAfter c.held r⟩
  | pmmFreePage {c : FrameClient} {a : Nat} : a ∈ c.held →
      SafeFrameStep c (.pmmFreePage a) ⟨pmmFreePage a c.frames, c.held \ {a}⟩

/-- A frame is in exactly one of the three places. -/
structure InOnePlace (c : FrameClient) (f : Nat) : Prop where
  somewhere : f ∈ c.frames.clear ∨ f * 4096 ∈ c.frames.waiting ∨ f * 4096 ∈ c.held
  not_waiting : f ∈ c.frames.clear → f * 4096 ∉ c.frames.waiting
  not_held : f ∈ c.frames.clear → f * 4096 ∉ c.held
  apart : f * 4096 ∈ c.frames.waiting → f * 4096 ∉ c.held

section Runs

variable {c c' : FrameClient} {e : FrameEvent} {res : Bitmap} {f r : Nat} {s' : Frames}

theorem Accounted.inOnePlace (hA : Accounted res c.frames c.held) (hf : f < 1048576)
    (hb : res.testBit f = false) : InOnePlace c f := by
  have hdiv : f * 4096 / 4096 = f := Nat.mul_div_cancel _ (by decide)
  have hset : ∀ {a}, Taken c.frames.bitmap res a → a = f * 4096 → f ∉ c.frames.clear := by
    rintro a ht rfl hc
    have := ht.set
    rw [hdiv, (Frames.mem_clear.mp hc).2] at this
    cases this
  have hwait : f * 4096 ∈ c.frames.waiting →
      Taken c.frames.bitmap res (f * 4096) ∧ f * 4096 ∉ c.held := by
    rintro ⟨hr, k, hk, he⟩
    rw [← he]
    exact hA.inv.owned.waiting k hk (hA.batch hr k hk)
  exact ⟨hA.all f hf hb, fun hc hw => hset (hwait hw).1 rfl hc,
    fun hc hh => hset (hA.inv.owned.heldTaken _ hh) rfl hc, fun hw => (hwait hw).2⟩

theorem SafeFrameStep.accounted (hA : Accounted res c.frames c.held) (hs : SafeFrameStep c e c') :
    Accounted res c'.frames c'.held := by
  cases hs with
  | pmmAllocPage h hsafe => exact ((hA.pmmAllocPage_iff h).mpr hsafe).accounted
  | pmmFreePage ha => exact hA.pmmFreePage ha

/-- **No frame leaks** while every refill finds a whole batch or nothing: in
every state of every run a frame that was free at the start is in exactly one
place.  From each of these states a call of `pmm_alloc_page` keeps that, and
returns `NULL` only when there is nothing left, exactly if its refill does so
too. -/
theorem no_frame_leak {kernelEnd : Nat} {mbd : Multiboot} {bitmap : Bitmap}
    {es : List FrameEvent} (hinit : pmmFramesInit kernelEnd mbd = some bitmap)
    (hrun : Trace SafeFrameStep ⟨Frames.start bitmap, ∅⟩ es c) :
    (∀ f < 1048576, bitmap.testBit f = false → InOnePlace c f) ∧
    ∀ r s', pmmAllocPage c.frames = (r, s') →
      (((∀ f < 1048576, bitmap.testBit f = false → InOnePlace ⟨s', heldAfter c.held r⟩ f) ∧
        (r = 0 → c.frames.clear = ∅ ∧ c.frames.waiting = ∅ ∧ s'.bitmap = c.frames.bitmap)) ↔
      c.frames.RefillSafe) := by
  have hA : Accounted bitmap c.frames c.held :=
    hrun.invariant (I := fun c => Accounted bitmap c.frames c.held) (.start hinit)
      fun _ _ _ hA hs => hs.accounted hA
  refine ⟨fun f hf hb => hA.inOnePlace hf hb, fun r s' h => ⟨fun ⟨_, hnull⟩ => ?_, fun hsafe => ?_⟩⟩
  · intro hr
    rcases pmmAllocPage_cases (hA.inv.owned.reserved 0 hA.inv.owned.null) with
      ⟨hr', -⟩ | ⟨s₁, -, hcard, -⟩ | ⟨s₁, -, -, -, hc⟩
    · exact absurd hr hr'
    · exact .inr hcard
    · exact .inl (hnull (congrArg Prod.fst (h.symm.trans hc))).1
  · have hH := (hA.pmmAllocPage_iff h).mpr hsafe
    exact ⟨fun f hf hb => hH.accounted.inOnePlace (c := ⟨s', heldAfter c.held r⟩) hf hb, hH.null⟩

/-! ### A memory map -/

theorem testBit_unsetPages (start stop i : Nat) (bitmap : Bitmap) :
    (unsetPages start stop bitmap).testBit i
      = (!decide (start / 4096 ≤ i ∧ i < start / 4096 + (stop - start) / 4096 ∧ i < 1048576)
        && bitmap.testBit i) := by
  have hn : ∀ n, ((List.range n).foldl (fun b k =>
      let pageIdx := (start + k * pageSize) / pageSize
      if pageIdx < maxPageFrameCount then b.clearBit pageIdx else b) bitmap).testBit i
      = (!decide (start / 4096 ≤ i ∧ i < start / 4096 + n ∧ i < 1048576) && bitmap.testBit i) := by
    intro n
    induction n with
    | zero =>
      rw [decide_eq_false (by omega)]
      rfl
    | succ n ih =>
      have hidx : (start + n * pageSize) / pageSize = start / 4096 + n :=
        Nat.add_mul_div_right _ _ (by decide)
      rw [List.range_succ, List.foldl_append, List.foldl_cons, List.foldl_nil]
      dsimp only
      rw [hidx]
      split
      · rename_i hlt
        have hlt : start / 4096 + n < 1048576 := hlt
        rw [Bitmap.testBit_clearBit, ih, ← Bool.and_assoc, ← Bool.not_or, ← Bool.decide_or]
        congr 2
        exact decide_eq_decide.mpr (by omega)
      · rename_i hlt
        have hlt : ¬ start / 4096 + n < 1048576 := hlt
        rw [ih]
        congr 2
        exact decide_eq_decide.mpr (by omega)
  exact hn _

/-- A memory map with one entry: `n` free frames from 2 MiB on. -/
def entryMap (n : Nat) : Multiboot where
  mem := (((ByteMem.write32 (fun _ => 0) 0x1000 20).write32 0x1004 0x200000).write32 0x100C
    (n * 4096)).write32 0x1014 1
  flags := 64
  mmapAddr := 0x1000
  mmapLength := 24

/-- The bitmap that `pmm_frames_init` makes of `entryMap`. -/
def entryBitmap (n : Nat) : Bitmap :=
  setBits 0 256 (setBits 256 0x121 (unsetPages 0x200000 (0x200000 + n * 4096)
    fun _ => 0xFFFFFFFF#32))

theorem readMmapEntry_entryMap {n : Nat} (hn : n < 1048576) :
    readMmapEntry (entryMap n).mem 0x1000 = ⟨20, 0x200000, 0, n * 4096, 0, 1⟩ := by
  -- a word that is none of the four stores
  have hzero : ∀ a, a = 0x1008 ∨ a = 0x1010 → (entryMap n).mem.read32 a = 0 := by
    intro a ha
    rw [entryMap, ByteMem.read32_write32_of_disjoint (by decide) (by omega) (by omega),
      ByteMem.read32_write32_of_disjoint (by decide) (by omega) (by omega),
      ByteMem.read32_write32_of_disjoint (by decide) (by omega) (by omega),
      ByteMem.read32_write32_of_disjoint (by decide) (by omega) (by omega)]
    rfl
  have hsize : (entryMap n).mem.read32 0x1000 = 20 := by
    rw [entryMap, ByteMem.read32_write32_of_disjoint (by decide) (by decide) (by decide),
      ByteMem.read32_write32_of_disjoint (by decide) (by decide) (by decide),
      ByteMem.read32_write32_of_disjoint (by decide) (by decide) (by decide),
      ByteMem.read32_write32 (by decide)]
  have haddr : (entryMap n).mem.read32 0x1004 = 0x200000 := by
    rw [entryMap, ByteMem.read32_write32_of_disjoint (by decide) (by decide) (by decide),
      ByteMem.read32_write32_of_disjoint (by decide) (by decide) (by decide),
      ByteMem.read32_write32 (by decide)]
  have hlen : (entryMap n).mem.read32 0x100C = n * 4096 := by
    rw [entryMap, ByteMem.read32_write32_of_disjoint (by decide) (by decide) (by decide),
      ByteMem.read32_write32 (by omega)]
  have htype : (entryMap n).mem.read32 0x1014 = 1 := by
    rw [entryMap, ByteMem.read32_write32 (by decide)]
  rw [readMmapEntry, MmapEntry.mk.injEq]
  exact ⟨hsize, haddr, hzero _ (.inl rfl), hlen, hzero _ (.inr rfl), htype⟩

theorem pmmFramesInit_entryMap {n : Nat} (hn : n < 500000) :
    pmmFramesInit 0xC0120000 (entryMap n) = some (entryBitmap n) := by
  have hstop : MmapEntry.stop ⟨20, 0x200000, 0, n * 4096, 0, 1⟩ = 0x200000 + n * 4096 := by
    rw [MmapEntry.stop, pageRoundDown, u32_of_lt (by dsimp only; omega)]
    dsimp only
    omega
  have husable : MmapEntry.usable ⟨20, 0x200000, 0, n * 4096, 0, 1⟩ = true := rfl
  have hstart : MmapEntry.start ⟨20, 0x200000, 0, n * 4096, 0, 1⟩ = 0x200000 := by
    have hround : pageRoundUp 0x200000 = 0x200000 := by decide
    exact hround
  have hwalk : walkMmap (entryMap n).mem 0x1018 4294967296 0x1000 (fun _ => 0xFFFFFFFF#32)
      = some (unsetPages 0x200000 (0x200000 + n * 4096) fun _ => 0xFFFFFFFF#32) := by
    rw [show (4294967296 : Nat) = 4294967294 + 1 + 1 from rfl, walkMmap, if_pos (by decide),
      readMmapEntry_entryMap (by omega)]
    dsimp only
    rw [hstop, hstart, if_pos husable, walkMmap, if_neg (by decide)]
  rw [pmmFramesInit]
  exact congrArg (fun o => Option.bind o _) hwalk

theorem clear_entryMap {n : Nat} (hn : n < 500000) :
    (Frames.start (entryBitmap n)).clear = Finset.Ico 512 (512 + n) := by
  have hones : ∀ i, Bitmap.testBit (fun _ => 0xFFFFFFFF#32) i = true :=
    fun i => Bitmap.testBit_of_ones rfl
  ext f
  simp only [Frames.mem_clear, Finset.mem_Ico, Frames.start, entryBitmap, testBit_setBits,
    testBit_unsetPages, hones, Bool.and_true, Bool.or_eq_false_iff, Bool.not_eq_false',
    decide_eq_false_iff_not, decide_eq_true_eq]
  omega

theorem Frames.start_bitmap (bitmap : Bitmap) : (Frames.start bitmap).bitmap = bitmap := rfl

theorem refills_start (bitmap : Bitmap) : (Frames.start bitmap).Refills := .inr rfl

/-- The first call takes a whole batch out of 21 frames. -/
theorem no_frame_leak_entryMap : ∃ bitmap c r,
    pmmFramesInit 0xC0120000 (entryMap 21) = some bitmap ∧
    Trace SafeFrameStep ⟨Frames.start bitmap, ∅⟩ [.pmmAllocPage r] c ∧
    ∀ f < 1048576, bitmap.testBit f = false → InOnePlace c f := by
  have hsafe : (Frames.start (entryBitmap 21)).RefillSafe := by
    refine fun _ => .inr ?_
    rw [clear_entryMap (by decide), Nat.card_Ico]
    decide
  have hrun := Trace.single (SafeFrameStep.pmmAllocPage (c := ⟨Frames.start (entryBitmap 21), ∅⟩)
    Prod.mk.eta.symm hsafe)
  have hinit := pmmFramesInit_entryMap (n := 21) (by decide)
  exact ⟨_, _, _, hinit, hrun, (no_frame_leak hinit hrun).1⟩

/-- With fewer frames than a batch the first call loses them all. -/
theorem pmmAllocPage_start_of_few {kernelEnd : Nat} {mbd : Multiboot} {bitmap : Bitmap}
    (hinit : pmmFramesInit kernelEnd mbd = some bitmap)
    (hfew : (Frames.start bitmap).clear.card < 20) :
    ∃ s', pmmAllocPage (Frames.start bitmap) = (0, s') ∧ s'.clear = ∅ ∧ s'.waiting = ∅ := by
  have hI := (Frames.Inv.start hinit).owned
  obtain ⟨s', ha, hr, -, -, hempty⟩ :=
    pmmAllocPage_null (hI.reserved 0 hI.null) (refills_start bitmap) hfew
  exact ⟨s', ha, hempty, Frames.waiting_of_refills hr⟩

/-- Of five frames the first call returns none, and loses all five. -/
theorem frame_leak_five : ∃ bitmap s', pmmFramesInit 0xC0120000 (entryMap 5) = some bitmap ∧
    pmmAllocPage (Frames.start bitmap) = (0, s') ∧ (Frames.start bitmap).clear ≠ ∅ ∧
    bitmap.testBit 512 = false ∧ ¬ InOnePlace ⟨s', heldAfter ∅ 0⟩ 512 := by
  have hinit := pmmFramesInit_entryMap (n := 5) (by decide)
  have hclear := clear_entryMap (n := 5) (by decide)
  have hmem : 512 ∈ (Frames.start (entryBitmap 5)).clear := by
    rw [hclear]
    exact Finset.mem_Ico.mpr ⟨by decide, by decide⟩
  obtain ⟨s', hc, hempty, hwait⟩ := pmmAllocPage_start_of_few hinit
    (by rw [hclear, Nat.card_Ico]; decide)
  have hbit := (Frames.mem_clear.mp hmem).2
  rw [Frames.start_bitmap] at hbit
  refine ⟨_, s', hinit, hc, Finset.ne_empty_of_mem hmem, hbit, fun hp => ?_⟩
  rcases hp.somewhere with hc | hw | hh
  · rw [hempty] at hc
    exact absurd hc (Finset.notMem_empty _)
  · rw [hwait] at hw
    exact hw
  · rw [heldAfter, if_pos rfl] at hh
    exact hh

theorem pmmDirectoryInit_of_clear {kernelEnd : Nat} {mbd : Multiboot} {bitmap : Bitmap}
    (hinit : pmmFramesInit kernelEnd mbd = some bitmap) (hflags : mbd.flags.testBit 6)
    (hlow : ∀ f ∈ (Frames.start bitmap).clear, f < 1023)
    (htwo : 2 ≤ (Frames.start bitmap).clear.card) (mem : Nat → Page) :
    ∃ s t, pmmDirectoryInit multibootBootloaderMagic kernelEnd mbd mem = some (s, t) ∧
      s.Refills ∧ s.clear ⊆ (Frames.start bitmap).clear ∧
      s.clear.card + 2 = (Frames.start bitmap).clear.card := by
  have hI := (Frames.Inv.start hinit).owned
  have h0 := hI.reserved 0 hI.null
  have hne0 : ∀ f ∈ (Frames.start bitmap).clear, f * 4096 ≠ 0 := by
    intro f hf hz
    rw [show f = 0 by omega, Frames.mem_clear, h0] at hf
    exact absurd hf.2 (by decide)
  have hclearFrame : ∀ f < 1023, ∀ mem, clearFrame (f * 4096) mem
      = some fun w => if w / 1024 = f * 4096 / pageSize then Page.zero else mem w := by
    intro f hf mem
    rw [clearFrame, if_pos (by rw [bootMappedEnd, pageSize]; omega)]
  rcases pmmAllocFrameInt_clear (Frames.start bitmap) with ⟨he, -⟩ | ⟨d, hd, had⟩
  · rw [he] at htwo
    exact absurd htwo (by decide)
  obtain ⟨s₁, hs₁⟩ : ∃ s₁ : Frames, s₁ = { Frames.start bitmap with
    bitmap := (Frames.start bitmap).bitmap.setBit d } := ⟨_, rfl⟩
  have hc₁ : s₁.clear = (Frames.start bitmap).clear.erase d := by
    rw [hs₁]
    exact Frames.clear_setBit _ _
  have hcard₁ := Finset.card_erase_of_mem hd
  rcases pmmAllocFrameInt_clear s₁ with ⟨he, -⟩ | ⟨e, hee, hae⟩
  · rw [hc₁] at he
    rw [he, Finset.card_empty] at hcard₁
    omega
  have hmem : e ∈ (Frames.start bitmap).clear := by
    rw [hc₁] at hee
    exact Finset.mem_of_mem_erase hee
  have hc₂ := Frames.clear_setBit s₁ e
  rw [← hs₁] at had
  have hrun : ∃ t, pmmDirectoryInit multibootBootloaderMagic kernelEnd mbd mem
      = some ({ s₁ with bitmap := s₁.bitmap.setBit e }, t) := by
    rw [pmmDirectoryInit, if_neg (by simp), if_neg (by simp [hflags]), hinit, Option.bind_eq_bind,
      Option.bind_some, had]
    dsimp only
    rw [if_neg (hne0 d hd), hclearFrame d (hlow d hd), Option.bind_eq_bind, Option.bind_some, hae]
    dsimp only
    rw [if_neg (hne0 e hmem), hclearFrame e (hlow e hmem), Option.bind_some]
    exact ⟨_, rfl⟩
  obtain ⟨t, hrun⟩ := hrun
  refine ⟨_, t, hrun, ?_, ?_, ?_⟩
  · rw [hs₁]
    exact .inr rfl
  · rw [hc₂, hc₁]
    exact (Finset.erase_subset _ _).trans (Finset.erase_subset _ _)
  · rw [hc₂, Finset.card_erase_of_mem hee, hc₁, hcard₁]
    omega

theorem pmmDirectoryInit_entryMap {n : Nat} (htwo : 2 ≤ n) (hn : n < 511) (mem : Nat → Page) :
    ∃ s t, pmmDirectoryInit multibootBootloaderMagic 0xC0120000 (entryMap n) mem
      = some (s, t) ∧ s.Refills ∧ s.clear ⊆ Finset.Ico 512 (512 + n) ∧ s.clear.card + 2 = n := by
  have hclear := clear_entryMap (n := n) (by omega)
  obtain ⟨s, t, hdir, hr, hsub, hcard⟩ := pmmDirectoryInit_of_clear
    (pmmFramesInit_entryMap (n := n) (by omega)) (show Nat.testBit 64 6 = true by decide)
    (fun f hf => by rw [hclear, Finset.mem_Ico] at hf; omega)
    (by rw [hclear, Nat.card_Ico]; omega) mem
  rw [hclear] at hsub hcard
  rw [Nat.card_Ico] at hcard
  exact ⟨s, t, hdir, hr, hsub, by omega⟩

end Runs

end ChoOS
