import ChoOS.Heap.Shrink

/-!
# A growth that fails

`increment_brk` returns in the middle of its loop when a frame is missing, for
the next page or for the table of the next page.  The pages before it stay
mapped and their frames are not given back; the comment in the code says so.
`Unchanged` is what a failed call should be.

What it is depends on the frames alone.  `Frames.Batch` holds in every state
that the kernel can reach, whatever was freed before: the batch is made of
different frames.  When `pmm_alloc_page` fails nothing is available afterwards
(`Frames.Batch.alloc`), so a failed call ends with no frame or with the one that
it gives back, and it has changed nothing exactly if there was no more than that
at the start: `failed_growth_unchanged`.
-/

namespace ChoOS

/-- What holds of the batch in every state. -/
structure Frames.Batch (s : Frames) : Prop where
  null : s.bitmap.testBit 0
  pframe : s.pframe ≤ 20
  entries : ¬ s.Refills → ∀ k ∈ s.unissued, ∃ f, 0 < f ∧ f < 1048576 ∧ s.preFrames k = f * 4096
  distinct : ¬ s.Refills → ∀ k ∈ s.unissued, ∀ l ∈ s.unissued,
    s.preFrames k = s.preFrames l → k = l

namespace Frames

variable {s s' : Frames} {r a f : Nat}

theorem Batch.next (hB : s.Batch) (hr : ¬ s.Refills) : s.pframe ∈ s.unissued := by
  refine ⟨Nat.le_refl _, ?_⟩
  rcases Nat.lt_or_eq_of_le hB.pframe with hlt | he
  · exact hlt
  · exact absurd (.inl he) hr

theorem Batch.issue (hB : s.Batch) (hr : ¬ s.Refills) (h : issue s = (r, s')) :
    s'.Batch ∧ s'.clear = s.clear ∧ s'.pframe = s.pframe + 1 ∧ r ∈ s.waiting := by
  have hlt := (hB.next hr).2
  have hmod : (s.pframe + 1) % 256 = s.pframe + 1 := Nat.mod_eq_of_lt (by omega)
  obtain ⟨rfl, rfl⟩ := Prod.mk.inj h
  have hun : ∀ k, k ∈ unissued { s with pframe := (s.pframe + 1) % 256 } → k ∈ s.unissued := by
    rintro k ⟨h1, h2⟩
    dsimp only at h1
    exact ⟨by omega, h2⟩
  refine ⟨⟨hB.null, by dsimp only; omega, fun _ k hk => hB.entries hr k (hun k hk),
    fun _ k hk l hl => hB.distinct hr k (hun k hk) l (hun l hl)⟩, rfl, hmod, hr, _, hB.next hr, rfl⟩

/-- **`pmm_alloc_page`** fails only in the refill, and nothing is available then. -/
theorem Batch.alloc (hB : s.Batch) (h : pmmAllocPage s = (r, s')) :
    s'.Batch ∧
    ((r = 0 ∧ s.Refills ∧ s.clear.card < 20 ∧ s'.available = ∅) ∨
     (s.Refills ∧ 20 ≤ s.clear.card ∧ ∃ f, 0 < f ∧ f < 1048576 ∧ r = f * 4096) ∨
     (¬ s.Refills ∧ ChoOS.issue s = (r, s') ∧ ∃ f, 0 < f ∧ f < 1048576 ∧ r = f * 4096)) := by
  by_cases hr : s.Refills
  · by_cases hc : 20 ≤ s.clear.card
    · obtain ⟨s₁, ha, hp, hal, hsub, hfrom, hne⟩ := pmmAllocPage_of_refills hB.null hr hc
      obtain ⟨rfl, rfl⟩ := Prod.mk.inj (h.symm.trans ha)
      have hentry : ∀ k < 20, ∃ f, 0 < f ∧ f < 1048576 ∧ s'.preFrames k = f * 4096 := by
        intro k hk
        obtain ⟨f, hf, -, he⟩ := hfrom k hk
        obtain ⟨hlt, hb⟩ := mem_clear.mp hf
        refine ⟨f, Nat.pos_of_ne_zero fun hz => ?_, hlt, he⟩
        rw [hz, hB.null] at hb
        cases hb
      have hnull : s'.bitmap.testBit 0 := by
        by_contra h0
        have hm : 0 ∈ s'.clear := mem_clear.mpr ⟨by decide, by simpa using h0⟩
        have := (mem_clear.mp (hsub hm)).2
        rw [hB.null] at this
        cases this
      refine ⟨⟨hnull, by omega, fun _ k hk => hentry k hk.2, fun _ k hk l hl he => ?_⟩,
        .inr (.inl ⟨hr, hc, hentry 0 (by decide)⟩)⟩
      rcases Nat.lt_trichotomy k l with hlt | heq | hgt
      · exact absurd he (hne k l hlt hl.2)
      · exact heq
      · exact absurd he.symm (hne l k hgt hk.2)
    · obtain ⟨s₁, ha, hr', hp, h0, hempty⟩ := pmmAllocPage_null hB.null hr (by omega)
      obtain ⟨rfl, rfl⟩ := Prod.mk.inj (h.symm.trans ha)
      exact ⟨⟨h0, by rw [hp]; exact hB.pframe, fun hn => absurd hr' hn, fun hn => absurd hr' hn⟩,
        .inl ⟨rfl, hr, by omega, available_of_refills hr' hempty⟩⟩
  · rw [pmmAllocPage_of_not_refills hr] at h
    have hfst : s.preFrames s.pframe = r := congrArg Prod.fst h
    refine ⟨(hB.issue hr h).1, .inr (.inr ⟨hr, h, ?_⟩)⟩
    rw [← hfst]
    exact hB.entries hr _ (hB.next hr)

theorem Batch.free (hB : s.Batch) (ha : a / 4096 ≠ 0) : (pmmFreePage a s).Batch := by
  refine ⟨?_, hB.pframe, hB.entries, hB.distinct⟩
  change (s.bitmap.clearBit (a / 4096)).testBit 0 = true
  rw [Bitmap.testBit_clearBit, decide_eq_false ha, hB.null]
  rfl

theorem available_free_of_empty (hs : s.available = ∅) (ha : a / 4096 < 1048576) :
    (pmmFreePage a s).available = {a / 4096} := by
  refine Set.eq_singleton_iff_unique_mem.mpr ⟨.inl (mem_clear.mpr ⟨ha, ?_⟩), fun f hf => ?_⟩
  · change (s.bitmap.clearBit (a / 4096)).testBit (a / 4096) = false
    rw [Bitmap.testBit_clearBit, decide_eq_true rfl]
    rfl
  · refine (Machine.available_pmmFreePage hf).resolve_right fun hf => ?_
    rw [hs] at hf
    exact hf

theorem clear_card_of_single (hs : s.available = {f}) : s.clear.card ≤ 1 := by
  refine Finset.card_le_one.mpr fun g hg k hk => ?_
  have h1 : g ∈ s.available := .inl hg
  have h2 : k ∈ s.available := .inl hk
  rw [hs] at h1 h2
  exact h1.trans h2.symm

/-- When one frame is available the batch has to hold it, or it is lost. -/
theorem Batch.waiting_of_single (hB : s.Batch) (hs : s.available = {f})
    (h : pmmAllocPage s = (r, s')) (h0 : r ≠ 0) : f * 4096 ∈ s.waiting ∧ r = f * 4096 := by
  have hcard := clear_card_of_single hs
  rcases (hB.alloc h).2 with ⟨rfl, -⟩ | ⟨-, hc, -⟩ | ⟨hr, hi, g, -, -, rfl⟩
  · exact absurd rfl h0
  · omega
  · have hw := (hB.issue hr hi).2.2.2
    have hg : g ∈ s.available := .inr hw
    rw [hs] at hg
    obtain rfl : g = f := hg
    exact ⟨hw, rfl⟩

theorem Batch.alloc_last (hB : s.Batch) (hs : s.available = {f}) (hw : f * 4096 ∈ s.waiting)
    (h : pmmAllocPage s = (r, s')) :
    r = f * 4096 ∧ s'.Refills ∧ s'.clear.card < 20 ∧ 0 < f ∧ f < 1048576 := by
  have hr := hw.1
  have hi : ChoOS.issue s = (r, s') := (pmmAllocPage_of_not_refills hr).symm.trans h
  obtain ⟨-, hc, hp, hmem⟩ := hB.issue hr hi
  have hcard := clear_card_of_single hs
  have hall : ∀ k ∈ s.unissued, s.preFrames k = f * 4096 := by
    intro k hk
    obtain ⟨g, -, -, he⟩ := hB.entries hr k hk
    have hg : g ∈ s.available := .inr ⟨hr, k, hk, he⟩
    rw [hs] at hg
    obtain rfl : g = f := hg
    exact he
  have hnext := hB.next hr
  have hlast : (19 : Nat) ∈ s.unissued := ⟨by have := hnext.2; omega, by decide⟩
  have hp19 : s.pframe = 19 :=
    hB.distinct hr _ hnext _ hlast ((hall _ hnext).trans (hall _ hlast).symm)
  have hfst : s.preFrames s.pframe = r := congrArg Prod.fst hi
  obtain ⟨g, hg0, hg, he⟩ := hB.entries hr _ hnext
  have hfg := hall _ hnext
  exact ⟨by rw [← hfst, hfg], .inl (by omega), by rw [hc]; omega, by omega, by omega⟩

end Frames

/-! ### The loop, from any state -/

/-- `vmm_page_map` finds no table for `v`. -/
def TableMissing (t : Tables) (v : Nat) : Prop :=
  ∃ p, t.load (getPdePtr v) = some p ∧ p.present = false

/-- A run of the loop of `increment_brk`, with what it does to the frames. -/
inductive Growth (top : Nat) : Nat → Heap Machine → Bool → Heap Machine → Prop
  | done {vaddr : Nat} {h : Heap Machine} : ¬ vaddr < top → Growth top vaddr h true h
  | noPage {vaddr : Nat} {h : Heap Machine} {e : Machine} : vaddr < top →
      h.env.pmmAllocPage = (0, e) → Growth top vaddr h false { h with env := e }
  | noTable {vaddr page : Nat} {h : Heap Machine} {e₁ e₂ : Machine} : vaddr < top →
      h.env.pmmAllocPage = (page, e₁) → page ≠ 0 → TableMissing h.env.tables vaddr →
      e₁.pmmAllocPage = (0, e₂) →
      Growth top vaddr h false { h with env := e₂.pmmFreePage page }
  | page {vaddr page : Nat} {h h₁ h' : Heap Machine} {e₁ : Machine} {ok : Bool} : vaddr < top →
      h.env.pmmAllocPage = (page, e₁) → page ≠ 0 →
      (¬ TableMissing h.env.tables vaddr ∧ h₁.env.frames = e₁.frames) ∨
        (∃ r e₂, e₁.pmmAllocPage = (r, e₂) ∧ r ≠ 0 ∧ h₁.env.frames = e₂.frames) →
      Growth top (u32 (vaddr + pageSize)) h₁ ok h' → Growth top vaddr h ok h'

section Growth

variable {h h' : Heap Machine} {e e' : Machine} {phys virt flags top n vaddr : Nat} {res : Int}
  {ok : Bool}

theorem Machine.vmmPageMap_cases (hm : e.vmmPageMap phys virt flags = some (res, e')) :
    (¬ TableMissing e.tables virt ∧ res = 0 ∧ e'.frames = e.frames) ∨
    (TableMissing e.tables virt ∧ ∃ r e₁, e.pmmAllocPage = (r, e₁) ∧ r ≠ 0 ∧ res = 0 ∧
      e'.frames = e₁.frames) ∨
    (TableMissing e.tables virt ∧ e.pmmAllocPage = (0, e') ∧ res = enomem) := by
  obtain ⟨⟨res', t, e₁⟩, hv, hm⟩ := Option.bind_eq_some_iff.mp hm
  obtain ⟨rfl, rfl⟩ := Prod.mk.inj (Option.some.inj hm)
  obtain ⟨p, hp, hv⟩ := Option.bind_eq_some_iff.mp hv
  split at hv
  · rename_i hpres
    obtain ⟨t', -, hv⟩ := Option.bind_eq_some_iff.mp hv
    cases hv
    refine .inl ⟨fun ⟨q, hq, hno⟩ => ?_, rfl, rfl⟩
    obtain rfl := Option.some.inj (hp.symm.trans hq)
    rw [hpres] at hno
    cases hno
  · rename_i hpres
    have hmiss : TableMissing e.tables virt := ⟨p, hp, by simpa using hpres⟩
    obtain ⟨r, e₂, ha⟩ : ∃ r e₂, e.pmmAllocPage = (r, e₂) := ⟨_, _, rfl⟩
    rw [ha] at hv
    dsimp only at hv
    split at hv
    · rename_i h0
      cases hv
      have ht := Machine.pmmAllocPage_tables ha
      refine .inr (.inr ⟨hmiss, ?_, rfl⟩)
      rw [ha, h0, ← ht]
    · rename_i h0
      obtain ⟨t₁, -, hv⟩ := Option.bind_eq_some_iff.mp hv
      obtain ⟨t₂, -, hv⟩ := Option.bind_eq_some_iff.mp hv
      cases hv
      exact .inr (.inl ⟨hmiss, r, _, ha, h0, rfl, rfl⟩)

theorem MapRounds.growth (hrun : MapRounds top vaddr h ok h') : Growth top vaddr h ok h' := by
  induction hrun with
  | done hge => exact .done hge
  | noPage hlt h0 => exact .noPage hlt (Prod.ext h0 rfl)
  | @noTable vaddr h res e hlt h0 hm hres =>
    have ht : h.env.pmmAllocPage.2.tables = h.env.tables := Machine.pmmAllocPage_tables rfl
    have hcases := Machine.vmmPageMap_cases hm
    rw [ht] at hcases
    rcases hcases with ⟨-, hz, -⟩ | ⟨-, _, _, -, -, hz, -⟩ | ⟨hmiss, ha₂, -⟩
    · exact absurd hz hres
    · exact absurd hz hres
    · exact .noTable hlt rfl h0 hmiss ha₂
  | @page vaddr h h' e ok hlt h0 hm _ ih =>
    have ht : h.env.pmmAllocPage.2.tables = h.env.tables := Machine.pmmAllocPage_tables rfl
    have hcases := Machine.vmmPageMap_cases hm
    rw [ht] at hcases
    refine .page hlt rfl h0 ?_ ih
    rcases hcases with ⟨hno, -, hf⟩ | ⟨-, r, e₂, ha₂, hr, -, hf⟩ | ⟨-, -, hz⟩
    · exact .inl ⟨hno, hf⟩
    · exact .inr ⟨r, e₂, ha₂, hr, hf⟩
    · exact absurd hz (by decide)

theorem batch_of_page {h₁ : Heap Machine} {e₁ : Machine} {page : Nat}
    (hB : h.env.frames.Batch) (ha : h.env.pmmAllocPage = (page, e₁))
    (hf : (¬ TableMissing h.env.tables vaddr ∧ h₁.env.frames = e₁.frames) ∨
      (∃ r e₂, e₁.pmmAllocPage = (r, e₂) ∧ r ≠ 0 ∧ h₁.env.frames = e₂.frames)) :
    h₁.env.frames.Batch := by
  have hB₁ := (hB.alloc (Machine.pmmAllocPage_frames ha)).1
  rcases hf with ⟨-, hf⟩ | ⟨r, e₂, ha₂, -, hf⟩ <;> rw [hf]
  · exact hB₁
  · exact (hB₁.alloc (Machine.pmmAllocPage_frames ha₂)).1

theorem Frames.Batch.frame {s s' : Frames} {r : Nat} (hB : s.Batch)
    (h : pmmAllocPage s = (r, s')) (h0 : r ≠ 0) :
    r / 4096 ≠ 0 ∧ r / 4096 < 1048576 ∧ r / 4096 ∈ s.available := by
  have hnum : r / 4096 ≠ 0 ∧ r / 4096 < 1048576 ∧ r % 4096 = 0 := by
    rcases (hB.alloc h).2 with ⟨rfl, -⟩ | ⟨-, -, f, hpos, hlt, rfl⟩ | ⟨-, -, f, hpos, hlt, rfl⟩
    · exact absurd rfl h0
    all_goals omega
  exact ⟨hnum.1, hnum.2.1, (pmmAllocPage_available hB.null hB.pframe h).2 h0 hnum.2.2⟩

theorem Frames.Batch.null_of_few {s s' : Frames} {r : Nat} (hB : s.Batch) (hr : s.Refills)
    (hc : s.clear.card < 20) (h : pmmAllocPage s = (r, s')) : r = 0 := by
  rcases (hB.alloc h).2 with ⟨hz, -⟩ | ⟨-, hge, -⟩ | ⟨hno, -⟩
  · exact hz
  · omega
  · exact absurd hr hno

theorem Frames.Batch.empty {s s' : Frames} (hB : s.Batch) (h : pmmAllocPage s = (0, s')) :
    s.Refills ∧ s.clear.card < 20 ∧ s'.available = ∅ := by
  rcases (hB.alloc h).2 with ⟨-, hr⟩ | ⟨-, -, f, hpos, -, hz⟩ | ⟨-, -, f, hpos, -, hz⟩
  · exact hr
  all_goals omega

/-- **After a run of the loop** the batch is in order, and if it failed at most one
frame is available. -/
theorem Growth.batch (hg : Growth top vaddr h ok h') (hB : h.env.frames.Batch) :
    h'.env.frames.Batch ∧ (ok = false →
      h'.env.frames.available = ∅ ∨ ∃ f, h'.env.frames.available = {f}) := by
  induction hg with
  | done _ => exact ⟨hB, fun h => by cases h⟩
  | noPage _ ha =>
    have ha := Machine.pmmAllocPage_frames ha
    exact ⟨(hB.alloc ha).1, fun _ => .inl (hB.empty ha).2.2⟩
  | noTable _ ha h0 _ ha₂ =>
    have ha := Machine.pmmAllocPage_frames ha
    have ha₂ := Machine.pmmAllocPage_frames ha₂
    have hB₁ := (hB.alloc ha).1
    obtain ⟨hne, hlt, -⟩ := hB.frame ha h0
    exact ⟨(hB₁.alloc ha₂).1.free hne,
      fun _ => .inr ⟨_, Frames.available_free_of_empty (hB₁.empty ha₂).2.2 hlt⟩⟩
  | page _ ha _ hf _ ih => exact ih (batch_of_page hB ha hf)

/-- **A failed call changes nothing.** -/
structure Unchanged (h h' : Heap Machine) : Prop where
  brk : h'.programBreakPoint = h.programBreakPoint
  walk : ∀ v < ptBaseVaddr, h'.env.tables.walk v = h.env.tables.walk v
  available : h'.env.frames.available = h.env.frames.available

/-- There is no frame at all, or one in the batch, and the page at `vaddr` needs a
table before it can have it. -/
def NothingToUndo (h : Heap Machine) (vaddr : Nat) : Prop :=
  h.env.frames.available = ∅ ∨
    ∃ f, h.env.frames.available = {f} ∧ f * 4096 ∈ h.env.frames.waiting ∧
      TableMissing h.env.tables vaddr

/-- A page that is mapped to the only frame had its table. -/
theorem no_table_of_single {h₁ : Heap Machine} {e₁ : Machine} {page f : Nat}
    (hB : h.env.frames.Batch) (ha : h.env.pmmAllocPage = (page, e₁))
    (hf : (¬ TableMissing h.env.tables vaddr ∧ h₁.env.frames = e₁.frames) ∨
      (∃ r e₂, e₁.pmmAllocPage = (r, e₂) ∧ r ≠ 0 ∧ h₁.env.frames = e₂.frames))
    (hav : h.env.frames.available = {f}) (hw : f * 4096 ∈ h.env.frames.waiting) :
    e₁.frames.Refills ∧ e₁.frames.clear.card < 20 ∧ ¬ TableMissing h.env.tables vaddr ∧
      h₁.env.frames = e₁.frames := by
  have hfr := Machine.pmmAllocPage_frames ha
  obtain ⟨-, hr, hc, -⟩ := hB.alloc_last hav hw hfr
  rcases hf with hf | ⟨r, e₂, ha₂, hr0, -⟩
  · exact ⟨hr, hc, hf⟩
  · exact absurd ((hB.alloc hfr).1.null_of_few hr hc (Machine.pmmAllocPage_frames ha₂)) hr0

theorem not_nothingToUndo {h₁ : Heap Machine} {e₁ : Machine} {page : Nat}
    (hB : h.env.frames.Batch) (ha : h.env.pmmAllocPage = (page, e₁)) (h0 : page ≠ 0)
    (hf : (¬ TableMissing h.env.tables vaddr ∧ h₁.env.frames = e₁.frames) ∨
      (∃ r e₂, e₁.pmmAllocPage = (r, e₂) ∧ r ≠ 0 ∧ h₁.env.frames = e₂.frames)) :
    ¬ NothingToUndo h vaddr := by
  rintro (hav | ⟨f, hav, hw, hmiss⟩)
  · have hmem := (hB.frame (Machine.pmmAllocPage_frames ha) h0).2.2
    rw [hav] at hmem
    exact hmem
  · exact (no_table_of_single hB ha hf hav hw).2.2.1 hmiss

/-- **A run of the loop that fails** has changed nothing exactly if there was
nothing to undo. -/
theorem Growth.unchanged_iff (hg : Growth top vaddr h false h') (hB : h.env.frames.Batch) :
    Unchanged h h' ↔ NothingToUndo h vaddr := by
  generalize hok : false = ok at hg
  cases hg with
  | done _ => cases hok
  | noPage hlt ha =>
    have hempty := (hB.empty (Machine.pmmAllocPage_frames ha)).2.2
    have ht := Machine.pmmAllocPage_tables ha
    constructor
    · intro hu
      exact .inl (hu.available.symm.trans hempty)
    · rintro (hav | ⟨f, hav, hw, -⟩)
      · exact ⟨rfl, fun v _ => by dsimp only; rw [ht], hempty.trans hav.symm⟩
      · have := (hB.alloc_last hav hw (Machine.pmmAllocPage_frames ha))
        omega
  | @noTable _ page _ e₁ e₂ hlt ha h0 hmiss ha₂ =>
    have hf := Machine.pmmAllocPage_frames ha
    have hB₁ := (hB.alloc hf).1
    obtain ⟨-, hlt', hmem⟩ := hB.frame hf h0
    have hlast := Frames.available_free_of_empty
      (hB₁.empty (Machine.pmmAllocPage_frames ha₂)).2.2 hlt'
    have ht : (e₂.pmmFreePage page).tables = h.env.tables :=
      (Machine.pmmAllocPage_tables ha₂).trans (Machine.pmmAllocPage_tables ha)
    constructor
    · intro hu
      have hav := hu.available.symm.trans hlast
      exact .inr ⟨_, hav, (hB.waiting_of_single hav hf h0).1, hmiss⟩
    · rintro (hav | ⟨f, hav, hw, -⟩)
      · rw [hav] at hmem
        exact absurd hmem (Set.notMem_empty _)
      · have hpage := (hB.waiting_of_single hav hf h0).2
        refine ⟨rfl, fun v _ => by dsimp only; rw [ht], ?_⟩
        rw [hav]
        refine hlast.trans ?_
        rw [hpage, Nat.mul_div_cancel _ (by decide)]
  | @page _ page _ h₁ _ e₁ _ hlt ha h0 hf hrest =>
    have hfr := Machine.pmmAllocPage_frames ha
    have hmem := (hB.frame hfr h0).2.2
    have hB₁ := (hB.alloc hfr).1
    constructor
    · intro hu
      exfalso
      rcases (hrest.batch (batch_of_page hB ha hf)).2 hok.symm with hempty | ⟨f, hav⟩
      · rw [← hu.available, hempty] at hmem
        exact hmem
      · rw [hu.available] at hav
        obtain ⟨hr, hc, -, hsame⟩ :=
          no_table_of_single hB ha hf hav (hB.waiting_of_single hav hfr h0).1
        rw [← hsame] at hr hc hB₁
        have hnull := fun {r e'} (ha' : h₁.env.pmmAllocPage = (r, e')) =>
          hB₁.null_of_few hr hc (Machine.pmmAllocPage_frames ha')
        generalize u32 (vaddr + pageSize) = next at hrest
        cases hrest with
        | done _ => cases hok
        | noPage _ ha' =>
          have hempty := (hB₁.empty (Machine.pmmAllocPage_frames ha')).2.2
          rw [← hu.available] at hmem
          exact absurd (hempty ▸ hmem) (Set.notMem_empty _)
        | noTable _ ha' hne _ _ => exact hne (hnull ha')
        | page _ ha' hne _ _ => exact hne (hnull ha')
    · exact fun hn => absurd hn (not_nothingToUndo hB ha h0 hf)

end Growth

/-! ### Whole runs -/

/-- The calls that change the frames, the tables or the break. -/
inductive MemoryCall
  | sbrk (increment result : Nat)
  | pmmAllocPage (result : Nat)
  | pmmFreePage (a : Nat)
  | vmmPageMap (phys virt flags : Nat)
  | vmmPageUnmap (virt : Nat)
  | write

/-- One call; any frame but the first may be given back, whoever has it. -/
inductive MemoryStep : Heap Machine → MemoryCall → Heap Machine → Prop
  | sbrk {h h' : Heap Machine} {increment r : Nat} : sbrk increment h = some (r, h') →
      MemoryStep h (.sbrk increment r) h'
  | pmmAllocPage {h : Heap Machine} {r : Nat} {e : Machine} : h.env.pmmAllocPage = (r, e) →
      MemoryStep h (.pmmAllocPage r) { h with env := e }
  | pmmFreePage {h : Heap Machine} {a : Nat} : 4096 ≤ a →
      MemoryStep h (.pmmFreePage a) { h with env := h.env.pmmFreePage a }
  | vmmPageMap {h : Heap Machine} {phys virt flags : Nat} {res : Int} {e : Machine} :
      h.env.vmmPageMap phys virt flags = some (res, e) →
      MemoryStep h (.vmmPageMap phys virt flags) { h with env := e }
  | vmmPageUnmap {h : Heap Machine} {virt : Nat} {res : Int} {e : Machine} :
      h.env.vmmPageUnmap virt = some (res, e) →
      MemoryStep h (.vmmPageUnmap virt) { h with env := e }
  | write {h : Heap Machine} (m : ByteMem) (ram : Nat → UInt8) :
      MemoryStep h .write { h with mem := m, env := { h.env with ram := ram } }

section Runs

variable {h h' h₀ : Heap Machine} {new n increment r : Nat} {c : MemoryCall}

theorem vmmPageUnmap_frames {e e' : Machine} {virt : Nat} {res : Int}
    (hu : e.vmmPageUnmap virt = some (res, e')) : e'.frames = e.frames := by
  obtain ⟨⟨res', t⟩, -, hu⟩ := Option.bind_eq_some_iff.mp hu
  obtain ⟨-, rfl⟩ := Prod.mk.inj (Option.some.inj hu)
  rfl

/-- The loop of `decrement_brk` frees no frame of the first MiB. -/
theorem UnmapRun.batch {as : List Nat} (hrun : UnmapRun new h as h') (hB : h.env.frames.Batch)
    (hnew : 3222274048 ≤ new) : h'.env.frames.Batch := by
  induction hrun with
  | done _ => exact hB
  | @page h h' as res e hpage hu _ ih =>
    have hframe : v2p (sub32 h.programBreakPoint pageSize) / 4096 ≠ 0 := by
      have hlt : sub32 h.programBreakPoint pageSize < 4294967296 := Nat.mod_lt _ (by decide)
      generalize sub32 h.programBreakPoint pageSize = a at hpage hlt
      simp only [v2p, sub32, u32, kernelVirtOffset]
      omega
    refine ih ?_
    dsimp only
    rw [vmmPageUnmap_frames hu]
    exact hB.free hframe

theorem sbrk_batch (hB : h.env.frames.Batch) (hlo : 3222274048 ≤ h.heapStart)
    (hs : sbrk increment h = some (r, h')) : h'.env.frames.Batch := by
  cases sbrk_done hs with
  | zero _ => exact hB
  | noPages _ _ _ => exact hB
  | grown _ _ _ hrun => exact (hrun.growth.batch hB).1
  | failed _ _ _ hrun => exact (hrun.growth.batch hB).1
  | refused _ _ => exact hB
  | shrunk _ hroom hrun => exact hrun.batch hB (by omega)

theorem MemoryStep.batch (hB : h.env.frames.Batch ∧ 3222274048 ≤ h.heapStart)
    (hs : MemoryStep h c h') : h'.env.frames.Batch ∧ 3222274048 ≤ h'.heapStart := by
  obtain ⟨hB, hlo⟩ := hB
  cases hs with
  | sbrk hs =>
    rw [sbrk_heapStart hs]
    exact ⟨sbrk_batch hB hlo hs, hlo⟩
  | pmmAllocPage ha => exact ⟨(hB.alloc (Machine.pmmAllocPage_frames ha)).1, hlo⟩
  | pmmFreePage ha => exact ⟨hB.free (by omega), hlo⟩
  | vmmPageMap hm =>
    refine ⟨?_, hlo⟩
    dsimp only
    rcases Machine.vmmPageMap_cases hm with ⟨-, -, hf⟩ | ⟨-, _, _, ha, -, -, hf⟩ | ⟨-, ha, -⟩
    · rw [hf]
      exact hB
    · rw [hf]
      exact (hB.alloc (Machine.pmmAllocPage_frames ha)).1
    · exact (hB.alloc (Machine.pmmAllocPage_frames ha)).1
  | vmmPageUnmap hu =>
    refine ⟨?_, hlo⟩
    dsimp only
    rw [vmmPageUnmap_frames hu]
    exact hB
  | write m ram => exact ⟨hB, hlo⟩

theorem BootedHeap.batch {kernelEnd : Nat} {mbd : Multiboot} (hb : BootedHeap kernelEnd mbd h₀) :
    h₀.env.frames.Batch ∧ 3222274048 ≤ h₀.heapStart := by
  have hlo := hb.inBounds.1.kernel
  obtain ⟨-, magic, mem, s, t, ram, m, hdir, hinit⟩ := hb
  obtain ⟨bitmap, d, e, -, hI, -, -, -, -, hal⟩ := pmmDirectoryInit_eq hdir
  have hr : s.Refills := .inr hal
  rw [heapInit_env hinit]
  exact ⟨⟨hI.owned.reserved 0 hI.owned.null, hI.pframe, fun hn => absurd hr hn,
    fun hn => absurd hr hn⟩, hlo⟩

/-- **A failed growth has changed nothing exactly if there was nothing to undo**, in
every state that any calls lead to and for every increment.  The loop is entered
whenever the call fails and the break is not itself `(void *)-1`. -/
theorem failed_growth_unchanged {kernelEnd : Nat} {mbd : Multiboot} {cs : List MemoryCall}
    (hb : BootedHeap kernelEnd mbd h₀) (hrun : Trace MemoryStep h₀ cs h) (hpos : 0 < increment)
    (hlt : increment < 2147483648) (hs : sbrk increment h = some (sbrkFailed, h')) :
    Unchanged h h' ↔
      pageRoundUp h.programBreakPoint < pageRoundUp (u32 (h.programBreakPoint + increment)) ∧
        NothingToUndo h (pageRoundUp h.programBreakPoint) := by
  have hB : h.env.frames.Batch :=
    (hrun.invariant hb.batch fun _ _ _ hB hs => hs.batch hB).1
  -- a call that is granted moves the break
  have hmoved : ∀ {h'' : Heap Machine}, h.programBreakPoint = sbrkFailed →
      h''.programBreakPoint = u32 (h.programBreakPoint + increment) → ¬ Unchanged h h'' := by
    intro h'' hmax hbrk hu
    have := hbrk.symm.trans hu.brk
    rw [hmax, sbrkFailed, u32] at this
    omega
  have hdone := sbrk_done hs
  generalize hr : sbrkFailed = r at hdone
  cases hdone with
  | zero _ => omega
  | noPages _ _ hmap =>
    exact ⟨fun hu => absurd hu (hmoved hr.symm rfl), fun hn => absurd hn.1 hmap⟩
  | grown _ _ hmap hrun =>
    refine ⟨fun hu => absurd hu (hmoved hr.symm rfl), fun hn => ?_⟩
    have hg := hrun.growth
    replace hn := hn.2
    generalize pageRoundUp h.programBreakPoint = vaddr at hg hmap hn
    cases hg with
    | done hge => exact absurd hmap hge
    | page _ ha h0 hf _ => exact absurd hn (not_nothingToUndo hB ha h0 hf)
  | failed _ _ hmap hrun =>
    rw [hrun.growth.unchanged_iff hB]
    exact ⟨fun hn => ⟨hmap, hn⟩, fun hn => hn.2⟩
  | refused _ _ => omega
  | shrunk _ _ _ => omega

theorem Backed.sbrk_fails (hb : Backed h) (hr : h.env.frames.Refills)
    (hc : h.env.frames.clear.card < 20) (hpos : 0 < increment) (hlt : increment < 2147483648)
    (hwin : h.programBreakPoint + increment ≤ 4290772992)
    (hmap : pageRoundUp h.programBreakPoint < pageRoundUp (h.programBreakPoint + increment)) :
    ∃ h', sbrk increment h = some (sbrkFailed, h') ∧ Backed h' ∧ h'.env.frames.Refills ∧
      h'.env.frames.clear = ∅ ∧ h'.programBreakPoint = h.programBreakPoint := by
  obtain ⟨⟨hlo, hpage, hle, hhi⟩, hK, held, hO⟩ := hb
  obtain ⟨s', ha, hr', -, -, hempty⟩ := pmmAllocPage_null hO.null hr hc
  have hnull : ∀ {page e₁}, h.env.pmmAllocPage = (page, e₁) → page = 0 ∧ e₁.frames = s' := by
    intro page e₁ ha'
    have := (Machine.pmmAllocPage_frames ha').symm.trans ha
    exact Prod.mk.inj this
  obtain ⟨r, h', hs, hrun⟩ := InBounds.sbrk_run ⟨hlo, hpage, hle, hhi⟩ hO hK
    (show increment < 4294967296 by omega) fun _ => hwin
  cases hrun with
  | zero _ => omega
  | @grow ok h' _ _ hrun hO' hK' hst hbrk =>
    have hfail : ok = false ∧ h'.env.frames = s' := by
      generalize pageRoundUp h.programBreakPoint = vaddr at hrun hmap
      generalize h'.env = e' at hrun
      cases hrun with
      | done hge => omega
      | noPage _ ha' => exact ⟨rfl, (hnull ha').2⟩
      | noTable _ ha' h0 _ _ => exact absurd (hnull ha').1 h0
      | page _ ha' h0 _ _ _ => exact absurd (hnull ha').1 h0
    obtain ⟨rfl, hframes⟩ := hfail
    rw [← hframes] at hr' hempty
    have hbrk : h'.programBreakPoint = h.programBreakPoint := hbrk
    exact ⟨h', hs, ⟨⟨by omega, by omega, by omega, by rw [hbrk]; exact hhi⟩, hK', hO'⟩, hr', hempty,
      hbrk⟩
  | refused _ _ => omega
  | shrink _ _ _ _ _ _ => omega

theorem exists_short : ∃ h₀ h₁, BootedHeap 0xC0120000 (entryMap 21) h₀ ∧
    sbrk 10 h₀ = some (sbrkFailed, h₁) ∧ h₀.env.frames.clear.card = 19 ∧ Backed h₁ ∧
    h₁.env.frames.Refills ∧ h₁.env.frames.clear = ∅ ∧ h₁.programBreakPoint = 0xC0400000 := by
  obtain ⟨h₀, hboot, -, hbrk, hr, -, hcard⟩ := exists_bootedHeap (n := 21) (by decide) (by decide)
  obtain ⟨h₁, hs, hb₁, hr₁, hc₁, hbrk₁⟩ := hboot.backed.1.sbrk_fails hr (by omega)
    (show 0 < 10 by decide) (by decide) (by omega) (by rw [hbrk]; decide)
  exact ⟨h₀, h₁, hboot, hs, by omega, hb₁, hr₁, hc₁, hbrk₁.trans hbrk⟩

theorem failed_growth_unchanged_empty : ∃ h₀ h₁ h₂, BootedHeap 0xC0120000 (entryMap 21) h₀ ∧
    Trace MemoryStep h₀ [.sbrk 10 sbrkFailed] h₁ ∧ sbrk 10 h₁ = some (sbrkFailed, h₂) ∧
    Unchanged h₁ h₂ := by
  obtain ⟨h₀, h₁, hboot, hs, -, hb₁, hr₁, hc₁, hbrk₁⟩ := exists_short
  have hmap : pageRoundUp h₁.programBreakPoint < pageRoundUp (h₁.programBreakPoint + 10) := by
    rw [hbrk₁]
    decide
  obtain ⟨h₂, hs₂, -⟩ := hb₁.sbrk_fails hr₁ (by rw [hc₁]; decide) (show 0 < 10 by decide)
    (by decide) (by omega) hmap
  have hrun : Trace MemoryStep h₀ [.sbrk 10 sbrkFailed] h₁ := .single (.sbrk hs)
  refine ⟨h₀, h₁, h₂, hboot, hrun, hs₂,
    (failed_growth_unchanged hboot hrun (by decide) (by decide) hs₂).mpr ⟨?_, .inl ?_⟩⟩
  · rw [u32_of_lt (by omega)]
    exact hmap
  · exact Frames.available_of_refills hr₁ hc₁

/-- `sbrk(10)` fails, and 19 frames that were free are gone. -/
theorem failed_growth_loses_frames : ∃ h₀ h₁, BootedHeap 0xC0120000 (entryMap 21) h₀ ∧
    sbrk 10 h₀ = some (sbrkFailed, h₁) ∧ ¬ Unchanged h₀ h₁ := by
  obtain ⟨h₀, h₁, hboot, hs, hcard, -, hr₁, hc₁, -⟩ := exists_short
  refine ⟨h₀, h₁, hboot, hs, fun hu => ?_⟩
  obtain ⟨f, hf⟩ : h₀.env.frames.clear.Nonempty := Finset.card_pos.mp (by omega)
  have hmem : f ∈ h₀.env.frames.available := .inl hf
  rw [← hu.available, Frames.available_of_refills hr₁ hc₁] at hmem
  exact hmem

end Runs

end ChoOS
