import ChoOS.Heap.Break
import ChoOS.Paging.HeapPages

/-!
# The two loops of `brk.c`

`MapRun top vaddr e ok e'` is a run of the loop of `increment_brk`, from the
page at `vaddr` on: it maps page after page until it reaches `top`, or it gives
up at one of them, without a frame for the page or without one for its table.
`mapPages_run` says that the code does this, from every state in which the
tables are safe, so what the loop does is proved by induction on `MapRun`.

`decrement_brk` goes down from the break.  Page `q` is unmapped when it is one
of the whole pages between the old break and the new one, counted from the page
that the old break is in, and with it the frame `q - 0xC0000` is freed:
`unmapPages_spec`.
-/

namespace ChoOS

open Tables

/-- A run of the loop of `increment_brk`. -/
inductive MapRun (top : Nat) : Nat → Machine → Bool → Machine → Prop
  | done {vaddr : Nat} {e : Machine} : top ≤ vaddr → MapRun top vaddr e true e
  | noPage {vaddr : Nat} {e e₁ : Machine} : vaddr < top → e.pmmAllocPage = (0, e₁) →
      MapRun top vaddr e false e₁
  | noTable {vaddr page : Nat} {e e₁ e₂ : Machine} : vaddr < top →
      e.pmmAllocPage = (page, e₁) → page ≠ 0 →
      (e.tables.pde (vaddr / 4194304)).present = false → e₁.pmmAllocPage = (0, e₂) →
      MapRun top vaddr e false (e₂.pmmFreePage page)
  | page {vaddr page : Nat} {e e₁ e₂ e' : Machine} {ok : Bool} : vaddr < top →
      e.pmmAllocPage = (page, e₁) → page ≠ 0 → HeapMap page vaddr e₁ 0 e₂ → e₂.tables.Inv →
      MapRun top (vaddr + 4096) e₂ ok e' → MapRun top vaddr e ok e'

section Map

variable {h h' : Heap Machine} {e e₁ e₂ : Machine} {held : Set Nat} {n vaddr top page : Nat}

/-- **The loop of `increment_brk`** returns, and is a run of `MapRun`. -/
theorem mapPages_run (hO : h.env.Ok held) (hK : h.env.tables.KernelTable) (hal : vaddr % 4096 = 0)
    (hlo : 3221225472 ≤ vaddr) (htop : top ≤ 4290772992) (hn : top ≤ vaddr + n * 4096) :
    ∃ ok h', mapPages top (n + 1) vaddr h = some (ok, h') ∧ MapRun top vaddr h.env ok h'.env ∧
      (∃ held', h'.env.Ok held') ∧ h'.env.tables.KernelTable := by
  refine mapPages_rule
    (I := fun v h => (∃ held, h.env.Ok held) ∧ h.env.tables.KernelTable ∧ v % 4096 = 0 ∧
      3221225472 ≤ v)
    (Q := fun v h ok h' => MapRun top v h.env ok h'.env ∧ (∃ held', h'.env.Ok held') ∧
      h'.env.tables.KernelTable) htop ?_ ?_ ?_ ⟨⟨held, hO⟩, hK, hal, hlo⟩ hn
  · rintro v h ⟨hO, hK, -, -⟩ hge
    exact ⟨.done (Nat.le_of_not_lt hge), hO, hK⟩
  · rintro v h ⟨⟨held, hO⟩, hK, -, -⟩ hlt h0
    obtain ⟨hO₁, ht₁, -, -⟩ := hO.pmmAllocPage Prod.mk.eta.symm
    exact ⟨.noPage hlt (Prod.ext h0 rfl), ⟨_, hO₁⟩, by dsimp only; rw [ht₁]; exact hK⟩
  · rintro v h ⟨⟨held, hO⟩, hK, hal, hlo⟩ hlt h0
    obtain ⟨hO₁, ht₁, -, hnew⟩ := hO.pmmAllocPage Prod.mk.eta.symm
    obtain ⟨res, e₂, hm, hres, hI₂, hK₂⟩ :=
      hO₁.heapMap (by rw [ht₁]; exact hK) ⟨hlo, by omega⟩ h.env.pmmAllocPage.1
    obtain ⟨held₂, hO₂, hsub, hold⟩ := hO₁.of_heapMap hres hI₂
    refine ⟨res, e₂, hm, fun hr => ?_, ?_⟩
    · cases hres with
      | entry _ _ _ => exact absurd rfl hr
      | table _ _ _ _ _ => exact absurd rfl hr
      | noMemory hp ha₂ =>
        -- the page goes back; no table was made
        rw [heldAfter, if_neg h0] at hsub hold
        have hnot : ∀ f, f * 4096 = h.env.pmmAllocPage.1 → ¬ e₂.tables.InUse f := by
          intro f hf hu
          have hu₁ := hold f (hf ▸ Set.mem_insert _ _) hu
          rw [ht₁] at hu₁
          exact (hnew h0).1 (hf ▸ hO.inUse f hu₁)
        rw [ht₁] at hp
        exact ⟨.noTable hlt Prod.mk.eta.symm h0 hp ha₂,
          ⟨_, hO₂.pmmFreePage (hsub (Set.mem_insert _ _)) hnot⟩, hK₂⟩
    · rintro rfl h₁ rfl
      refine ⟨⟨⟨held₂, hO₂⟩, hK₂, by omega, by omega⟩, ?_⟩
      rintro ok h' ⟨hrun, hend⟩
      exact ⟨.page hlt Prod.mk.eta.symm h0 hres hI₂ hrun, hend⟩

theorem MapRun.mapped {ok : Bool} {e' : Machine} (hrun : MapRun top vaddr e ok e')
    (hal : vaddr % 4096 = 0) :
    (∀ v, HeapPage v → v < vaddr → e'.tables.walk v = e.tables.walk v) ∧
      (ok = true → ∀ v, HeapPage v → vaddr ≤ v → v < top → (e'.tables.walk v).isSome) := by
  induction hrun with
  | done hle => exact ⟨fun _ _ _ => rfl, fun _ v _ hv hv' => by omega⟩
  | noPage _ ha =>
    refine ⟨fun v _ _ => ?_, fun h => by cases h⟩
    rw [Machine.pmmAllocPage_tables ha]
  | noTable _ ha _ _ ha₂ =>
    refine ⟨fun v _ _ => ?_, fun h => by cases h⟩
    rw [Machine.pmmFreePage, Machine.pmmAllocPage_tables ha₂, Machine.pmmAllocPage_tables ha]
  | @page vaddr page e e₁ e₂ e' ok hlt ha _ hm _ _ ih =>
    obtain ⟨hsame, hall⟩ := ih (by omega)
    have hmap := hm.mapped rfl
    refine ⟨fun v hv hlt => ?_, fun hok v hv hge hlt => ?_⟩
    · rw [hsame v hv (by omega), hmap.others v hv (by omega), Machine.pmmAllocPage_tables ha]
    · by_cases hpage : v < vaddr + 4096
      · rw [hsame v hv hpage, hmap.page v (by omega)]
        rfl
      · exact hall hok v hv (by omega) hlt

theorem two_frames (h0 : e.frames.bitmap.testBit 0) (hr : e.frames.Refills)
    (hc : 20 ≤ e.frames.clear.card) :
    (∃ f ∈ e.frames.clear, e.pmmAllocPage.1 = f * 4096) ∧ e.pmmAllocPage.1 ≠ 0 ∧
      e.pmmAllocPage.2.pmmAllocPage.1 ≠ 0 := by
  obtain ⟨s', ha', hp, hal, -, hfrom, -⟩ := pmmAllocPage_of_refills h0 hr hc
  have hne : ∀ k < 20, s'.preFrames k ≠ 0 := by
    intro k hk hz
    obtain ⟨f, hf, -, he⟩ := hfrom k hk
    rw [show f = 0 by omega] at hf
    rw [Frames.mem_clear, h0] at hf
    exact absurd hf.2 (by decide)
  have hfst : e.pmmAllocPage.1 = s'.preFrames 0 := by rw [Machine.pmmAllocPage, ha']
  have hsnd : e.pmmAllocPage.2.frames = s' := by rw [Machine.pmmAllocPage, ha']
  refine ⟨?_, ?_, ?_⟩
  · obtain ⟨f, hf, -, he⟩ := hfrom 0 (by decide)
    exact ⟨f, hf, hfst.trans he⟩
  · rw [hfst]
    exact hne 0 (by decide)
  · have hlive : ¬ s'.Refills := by
      rintro (h | h)
      · exact absurd (hp.symm.trans h) (by decide)
      · exact absurd (hal.symm.trans h) (by decide)
    have hsecond : e.pmmAllocPage.2.pmmAllocPage.1 = (pmmAllocPage s').1 := by
      rw [Machine.pmmAllocPage, hsnd]
    rw [hsecond, pmmAllocPage_of_not_refills hlive, issue, hp]
    exact hne 1 (by decide)

theorem MapRun.of_batch {ok : Bool} {e' : Machine} (hrun : MapRun (vaddr + 4096) vaddr e ok e')
    (h0 : e.frames.bitmap.testBit 0) (hr : e.frames.Refills) (hc : 20 ≤ e.frames.clear.card) :
    ok = true ∧ ∃ f ∈ e.frames.clear,
      e'.tables.walk vaddr = some ⟨frameOf (f * 4096), true, false⟩ := by
  obtain ⟨⟨f, hf, he⟩, hpage, htable⟩ := two_frames h0 hr hc
  cases hrun with
  | done hle => omega
  | noPage _ ha =>
    rw [ha] at hpage
    exact absurd rfl hpage
  | noTable _ ha _ _ ha₂ =>
    rw [ha, ha₂] at htable
    exact absurd rfl htable
  | page _ ha _ hm _ hrest =>
    rw [ha] at he
    cases hrest with
    | done _ =>
      refine ⟨rfl, f, hf, ?_⟩
      rw [(hm.mapped rfl).page vaddr rfl, ← he]
    | noPage hlt _ => omega
    | noTable hlt _ _ _ _ => omega
    | page hlt _ _ _ _ _ => omega

end Map

section Unmap

variable {h h' : Heap Machine} {n new lo hi q f : Nat} {t t' t'' : Tables} {virt : Nat}

/-- The pages from `lo` to `hi` are gone, and no table with them. -/
structure PagesUnmapped (t t' : Tables) (lo hi : Nat) : Prop where
  inv : t'.Inv
  walk : ∀ v, HeapPage v → t'.walk v = if lo ≤ v / 4096 ∧ v / 4096 < hi then none else t.walk v
  cr3 : t'.cr3 = t.cr3
  fixed : ∀ i < 1024, t'.pde i = t.pde i

/-- The bits of the frames under the pages from `lo` to `hi` are clear. -/
structure FramesFreed (s s' : Frames) (lo hi : Nat) : Prop where
  bits : ∀ f, s'.bitmap.testBit f
    = (!decide (lo ≤ f + 786432 ∧ f + 786432 < hi) && s.bitmap.testBit f)
  same : s' = { s with bitmap := s'.bitmap }

theorem PagesUnmapped.empty (hI : t.Inv) (hle : hi ≤ lo) : PagesUnmapped t t lo hi := by
  refine ⟨hI, fun v _ => ?_, rfl, fun _ _ => rfl⟩
  rw [if_neg (by omega)]

theorem FramesFreed.empty {s : Frames} (hle : hi ≤ lo) : FramesFreed s s lo hi := by
  refine ⟨fun f => ?_, rfl⟩
  rw [decide_eq_false (by omega), Bool.not_false, Bool.true_and]

theorem PagesUnmapped.cons (h' : PagesUnmapped t' t'' lo hi) (h : HeapUnmapped t t' virt)
    (hq : virt / 4096 = hi) (hle : lo ≤ hi) : PagesUnmapped t t'' lo (hi + 1) := by
  refine ⟨h'.inv, fun v hv => ?_, h'.cr3.trans h.cr3, fun i hi => (h'.fixed i hi).trans (h.fixed i hi)⟩
  rw [h'.walk v hv]
  by_cases hp : v / 4096 = virt / 4096
  · rw [h.page v hp, ite_self, if_pos ⟨by omega, by omega⟩]
  · rw [h.others v hv hp]
    exact if_congr (by omega) rfl rfl

theorem FramesFreed.cons {s s' : Frames} {a : Nat} (h : FramesFreed (pmmFreePage a s) s' lo hi)
    (hf : a / 4096 + 786432 = hi) (hle : lo ≤ hi) : FramesFreed s s' lo (hi + 1) := by
  refine ⟨fun f => ?_, h.same⟩
  have hb : (pmmFreePage a s).bitmap.testBit f = (!decide (a / 4096 = f) && s.bitmap.testBit f) :=
    Bitmap.testBit_clearBit ..
  rw [h.bits, hb, ← Bool.and_assoc, ← Bool.not_or, ← Bool.decide_or]
  congr 2
  exact decide_eq_decide.mpr (by omega)

/-- **The loop of `decrement_brk`** returns; it unmaps the whole pages between the
old break and the new one, counted from the page of the old one. -/
theorem unmapPages_spec (hI : h.env.tables.Inv) (hK : h.env.tables.KernelTable)
    (hnew : 3222274048 ≤ new) (hle : new ≤ h.programBreakPoint)
    (hhi : h.programBreakPoint ≤ 4290772992) (hn : h.programBreakPoint ≤ new + n * 4096) :
    ∃ h', unmapPages new (n + 1) h = some h' ∧
      PagesUnmapped h.env.tables h'.env.tables
        (h.programBreakPoint / 4096 - (h.programBreakPoint - new) / 4096)
        (h.programBreakPoint / 4096) ∧
      FramesFreed h.env.frames h'.env.frames
        (h.programBreakPoint / 4096 - (h.programBreakPoint - new) / 4096)
        (h.programBreakPoint / 4096) := by
  induction n generalizing h with
  | zero =>
    have hsub : sub32 h.programBreakPoint pageSize = h.programBreakPoint - 4096 :=
      sub32_of_le (by rw [pageSize]; omega) (by omega)
    refine ⟨h, ?_, .empty hI (by omega), .empty (by omega)⟩
    rw [unmapPages]
    dsimp only
    rw [hsub, if_neg (by omega)]
  | succ n ih =>
    have hsub : sub32 h.programBreakPoint pageSize = h.programBreakPoint - 4096 :=
      sub32_of_le (by rw [pageSize]; omega) (by omega)
    rw [unmapPages]
    dsimp only
    rw [hsub]
    by_cases hpage : new ≤ h.programBreakPoint - 4096
    · have hframe : v2p (h.programBreakPoint - 4096) / 4096 + 786432
          = (h.programBreakPoint - 4096) / 4096 := by
        simp only [v2p, sub32, u32, kernelVirtOffset]
        omega
      obtain ⟨res, t', hun, hI', hu⟩ := hI.heapUnmap hK
        (show HeapPage (h.programBreakPoint - 4096) from ⟨by omega, by omega⟩)
      have hvmm : (h.env.pmmFreePage (v2p (h.programBreakPoint - 4096))).vmmPageUnmap
          (h.programBreakPoint - 4096) = some (res, { h.env.pmmFreePage
            (v2p (h.programBreakPoint - 4096)) with tables := t' }) := by
        rw [Machine.vmmPageUnmap, Machine.pmmFreePage, hun]
        rfl
      have hK' : t'.KernelTable := by
        rw [KernelTable, hu.fixed 768 (by decide)]
        exact hK
      obtain ⟨h', hrun, htab, hfr⟩ := ih (h := { h with
          env := { h.env.pmmFreePage (v2p (h.programBreakPoint - 4096)) with tables := t' }
          programBreakPoint := h.programBreakPoint - 4096 })
        hI' hK' hpage (by dsimp only; omega) (by dsimp only; omega)
      dsimp only at htab hfr
      have hlo : (h.programBreakPoint - 4096) / 4096 - (h.programBreakPoint - 4096 - new) / 4096
          = h.programBreakPoint / 4096 - (h.programBreakPoint - new) / 4096 := by omega
      have htop : (h.programBreakPoint - 4096) / 4096 + 1 = h.programBreakPoint / 4096 := by omega
      rw [hlo] at htab hfr
      have htab' := htab.cons hu rfl (by omega)
      have hfr' := hfr.cons hframe (by omega)
      rw [htop] at htab' hfr'
      rw [if_pos hpage, hvmm, Option.bind_eq_bind, Option.bind_some]
      exact ⟨h', hrun, htab', hfr'⟩
    · rw [if_neg hpage]
      exact ⟨h, rfl, .empty hI (by omega), .empty (by omega)⟩

/-- **A shrink keeps the invariant** when the frames that it frees are spare. -/
theorem Machine.Ok.shrink {e e' : Machine} {held : Set Nat} (hO : e.Ok held)
    (ht : PagesUnmapped e.tables e'.tables lo hi) (hf : FramesFreed e.frames e'.frames lo hi)
    (hlo : 786432 < lo) (hs : ∀ q, lo ≤ q → q < hi → e.Spare (q - 786432)) :
    e'.Ok (held \ {a | lo ≤ a / 4096 + 786432 ∧ a / 4096 + 786432 < hi}) := by
  obtain ⟨res, hI⟩ := hO.frames
  have hbit : ∀ {f}, ¬ (lo ≤ f + 786432 ∧ f + 786432 < hi) → e.frames.bitmap.testBit f →
      e'.frames.bitmap.testBit f := by
    intro f hout hset
    rw [hf.bits, decide_eq_false hout, hset]
    rfl
  refine hO.of_bits Set.sdiff_subset (by rw [hf.same]) (by rw [hf.same]) ?_ (fun a ha => ?_)
    (fun k hk hne => ?_) ht.inv (fun f hu => ?_)
  · exact hbit (by omega) hO.null
  · exact hbit ha.2 (hI.owned.heldTaken a ha.1).set
  · have ht := (hI.owned.waiting k hk hne).1
    refine hbit (fun hin => (hs (e.frames.preFrames k / 4096 + 786432) hin.1 hin.2).waiting k hk ?_)
      ht.set
    have := ht.aligned
    omega
  · have hu' := inUse_of_same ht.cr3 ht.fixed hu
    refine ⟨hO.inUse f hu', fun hin => ?_⟩
    rw [Set.mem_ofPred_eq, Nat.mul_div_cancel _ (by decide)] at hin
    have := (hs (f + 786432) hin.1 hin.2).table
    rw [Nat.add_sub_cancel] at this
    exact this hu'

end Unmap

/-! ### One call -/

/-- What a call of `sbrk` can do while it stays below the recursive window. -/
inductive SbrkRun (h : Heap Machine) (increment : Nat) : Nat → Heap Machine → Prop
  | zero : increment = 0 → SbrkRun h increment h.programBreakPoint h
  | grow {ok : Bool} {h' : Heap Machine} : 0 < increment → increment < 2147483648 →
      MapRun (pageRoundUp (h.programBreakPoint + increment)) (pageRoundUp h.programBreakPoint)
        h.env ok h'.env →
      (∃ held', h'.env.Ok held') → h'.env.tables.KernelTable → h'.heapStart = h.heapStart →
      h'.programBreakPoint = (if ok then h.programBreakPoint + increment else h.programBreakPoint) →
      SbrkRun h increment (if ok then h.programBreakPoint else sbrkFailed) h'
  | refused : 2147483648 ≤ increment →
      h.programBreakPoint < h.heapStart + (4294967296 - increment) →
      SbrkRun h increment sbrkFailed h
  | shrink {h' : Heap Machine} : 2147483648 ≤ increment →
      h.heapStart + (4294967296 - increment) ≤ h.programBreakPoint →
      PagesUnmapped h.env.tables h'.env.tables
        (h.programBreakPoint / 4096 - (4294967296 - increment) / 4096)
        (h.programBreakPoint / 4096) →
      FramesFreed h.env.frames h'.env.frames
        (h.programBreakPoint / 4096 - (4294967296 - increment) / 4096)
        (h.programBreakPoint / 4096) →
      h'.heapStart = h.heapStart →
      h'.programBreakPoint
        = h.programBreakPoint - (4294967296 - increment) / 4096 * 4096 →
      SbrkRun h increment h.programBreakPoint h'

section Call

variable {h : Heap Machine} {held : Set Nat} {increment a : Nat}

theorem pageRoundUp_bounds (ha : a ≤ 4290772992) :
    pageRoundUp a % 4096 = 0 ∧ a ≤ pageRoundUp a ∧ pageRoundUp a < a + 4096 ∧
      pageRoundUp a ≤ 4290772992 := by
  rw [pageRoundUp, u32_of_lt (by omega)]
  omega

/-- **`sbrk`** returns, and does one of these. -/
theorem InBounds.sbrk_run (hb : InBounds h) (hO : h.env.Ok held) (hK : h.env.tables.KernelTable)
    (hw : increment < 4294967296)
    (hwin : increment < 2147483648 → h.programBreakPoint + increment ≤ ptBaseVaddr) :
    ∃ r h', sbrk increment h = some (r, h') ∧ SbrkRun h increment r h' := by
  obtain ⟨hlo, hal, hle, hhi⟩ := hb
  have hhi : h.programBreakPoint ≤ 4290772992 := hhi
  by_cases h0 : increment = 0
  · exact ⟨_, h, by rw [sbrk, if_pos h0], .zero h0⟩
  rw [sbrk, if_neg h0]
  by_cases hpos : increment < 2147483648
  · have hend : h.programBreakPoint + increment ≤ 4290772992 := hwin hpos
    obtain ⟨hcal, hcle, -, -⟩ := pageRoundUp_bounds hhi
    obtain ⟨-, -, -, htop⟩ := pageRoundUp_bounds hend
    rw [if_pos hpos, incrementBrk]
    dsimp only
    rw [u32_of_lt (show h.programBreakPoint + increment < 4294967296 by omega)]
    by_cases hmap : pageRoundUp h.programBreakPoint < pageRoundUp (h.programBreakPoint + increment)
    · obtain ⟨ok, h', hm, hrun, hO', hK'⟩ := mapPages_run (n := 1048576) hO hK hcal (by omega) htop
        (by omega)
      obtain ⟨hbrk, hst⟩ := (mapPages_rounds hm).break_eq
      rw [if_pos hmap, show pageFuel = 1048576 + 1 from rfl, hm, Option.bind_eq_bind,
        Option.bind_some]
      cases ok with
      | true =>
        exact ⟨_, _, rfl, @SbrkRun.grow h increment true _ (by omega) hpos hrun hO' hK' hst rfl⟩
      | false =>
        exact ⟨_, _, rfl, @SbrkRun.grow h increment false _ (by omega) hpos hrun hO' hK' hst hbrk⟩
    · rw [if_neg hmap]
      exact ⟨_, _, rfl, @SbrkRun.grow h increment true _ (by omega) hpos (.done (by omega))
        ⟨held, hO⟩ hK rfl rfl⟩
  · have hnew : sub32 h.programBreakPoint (4294967296 - increment)
        = h.programBreakPoint - (4294967296 - increment) := sub32_of_le (by omega) (by omega)
    rw [if_neg hpos, decrementBrk, hnew]
    by_cases hroom : h.programBreakPoint - (4294967296 - increment) < h.heapStart
    · rw [if_pos hroom]
      exact ⟨_, _, rfl, .refused (by omega) (by omega)⟩
    · obtain ⟨h', hm, htab, hfr⟩ := unmapPages_spec (n := 1048576) hO.tables hK
        (show 3222274048 ≤ h.programBreakPoint - (4294967296 - increment) by omega) (by omega)
        hhi (by omega)
      obtain ⟨as, hrun⟩ := unmapPages_unmapRun hm
      have hbrk := hrun.break_eq (by omega) (by omega) (by omega) (by omega)
      have hst := hrun.heapStart_eq
      have hdec : h.programBreakPoint - (h.programBreakPoint - (4294967296 - increment))
          = 4294967296 - increment := by omega
      rw [hdec] at htab hfr hbrk
      rw [if_neg hroom, show pageFuel = 1048576 + 1 from rfl, hm]
      exact ⟨_, _, rfl, .shrink (by omega) (by omega) htab hfr hst hbrk⟩

end Call

end ChoOS
