import ChoOS.Heap.Mapped
import ChoOS.Paging.Below

/-!
# What a growth maps

`Drawn top vaddr e v p` says that the loop of `increment_brk`, begun at `vaddr` on the
machine `e`, draws the frame `p` for the page at `v` and maps it there; `AllocFails`
says that one of its allocations returns `NULL`, the one for a page or the one that
`vmm_page_map` makes for a table.

`mapPages_drawn` is what the loop does at any address from 3 GiB on: it maps just the
pages it has drawn a frame for, each to its own frame, and no such frame was held
before or holds a table afterwards.  `growth_fresh` is this for the call, in every state
that allocations, mappings and growths below the recursive window lead to.  A mapping
inside the window is a store to the directory; `window_mapping_aliases` shows what
becomes of the next growth after one.
-/

namespace ChoOS

open Tables

/-- The loop of `increment_brk` maps the page at `v` to the frame `p`. -/
inductive Drawn (top : Nat) : Nat → Machine → Nat → Nat → Prop
  | here {vaddr : Nat} {e e' : Machine} : vaddr < top → e.pmmAllocPage.1 ≠ 0 →
      e.pmmAllocPage.2.vmmPageMap e.pmmAllocPage.1 vaddr 3 = some (0, e') →
      Drawn top vaddr e vaddr e.pmmAllocPage.1
  | later {vaddr v p : Nat} {e e' : Machine} : vaddr < top → e.pmmAllocPage.1 ≠ 0 →
      e.pmmAllocPage.2.vmmPageMap e.pmmAllocPage.1 vaddr 3 = some (0, e') →
      Drawn top (vaddr + 4096) e' v p → Drawn top vaddr e v p

/-- An allocation of the loop returns `NULL`. -/
inductive AllocFails (top : Nat) : Nat → Machine → Prop
  | page {vaddr : Nat} {e : Machine} : vaddr < top → e.pmmAllocPage.1 = 0 →
      AllocFails top vaddr e
  | table {vaddr : Nat} {e : Machine} : vaddr < top → e.pmmAllocPage.1 ≠ 0 →
      e.pmmAllocPage.2.NoTable vaddr → AllocFails top vaddr e
  | later {vaddr : Nat} {e e' : Machine} : vaddr < top → e.pmmAllocPage.1 ≠ 0 →
      e.pmmAllocPage.2.vmmPageMap e.pmmAllocPage.1 vaddr 3 = some (0, e') →
      AllocFails top (vaddr + 4096) e' → AllocFails top vaddr e

/-- The loop, seen from both ends.  `held` are the frames in use before, and `held'` those
in use afterwards. -/
structure GrowRun (top vaddr : Nat) (e : Machine) (held : Set Nat) (ok : Bool) (e' : Machine)
    (held' : Set Nat) : Prop where
  machine : e'.Ok held'
  kept : held ⊆ held'
  tables : ∀ f, f * 4096 ∈ held → e'.tables.InUse f → e.tables.InUse f
  shared : e'.tables.SharedTable
  range : ∀ v p, Drawn top vaddr e v p → vaddr ≤ v ∧ v < top
  frame : ∀ v p, Drawn top vaddr e v p →
    (frameOf p : Nat) * 4096 = p ∧ p ∉ held ∧ p ∈ held' ∧ ¬ e'.tables.InUse (frameOf p)
  walk : ∀ v p, Drawn top vaddr e v p → ∀ u < ptBaseVaddr, SamePage u v →
    e'.tables.walk u = some ⟨frameOf p, true, false⟩
  distinct : ∀ v p v', Drawn top vaddr e v p → Drawn top vaddr e v' p → v = v'
  others : ∀ u < ptBaseVaddr, (∀ v p, Drawn top vaddr e v p → ¬ SamePage u v) →
    e'.tables.walk u = e.tables.walk u
  all : ok = true → ∀ u, vaddr ≤ u → u < top → ∃ p, Drawn top vaddr e (u / 4096 * 4096) p
  fails : ok = false → AllocFails top vaddr e

section Loop

variable {h h' : Heap Machine} {e e₁ e₂ e' : Machine} {held held₂ held' : Set Nat}
variable {n vaddr top page v p : Nat} {ok : Bool}

theorem Drawn.lt (hd : Drawn top vaddr e v p) : vaddr < top := by
  cases hd <;> assumption

theorem Drawn.cases (hd : Drawn top vaddr e v p)
    (hm : e.pmmAllocPage.2.vmmPageMap e.pmmAllocPage.1 vaddr 3 = some (0, e₂)) :
    (v = vaddr ∧ p = e.pmmAllocPage.1) ∨ Drawn top (vaddr + 4096) e₂ v p := by
  cases hd with
  | here _ _ _ => exact .inl ⟨rfl, rfl⟩
  | later _ _ hm' hd =>
    obtain ⟨-, rfl⟩ := Prod.mk.inj (Option.some.inj (hm.symm.trans hm'))
    exact .inr hd

theorem GrowRun.done (hO : e.Ok held) (hS : e.tables.SharedTable) (hle : top ≤ vaddr) :
    GrowRun top vaddr e held true e held := by
  have hno : ∀ v p, ¬ Drawn top vaddr e v p := fun v p hd => Nat.not_lt.mpr hle hd.lt
  exact ⟨hO, subset_rfl, fun _ _ hu => hu, hS, fun v p hd => absurd hd (hno v p),
    fun v p hd => absurd hd (hno v p), fun v p hd => absurd hd (hno v p),
    fun v p _ hd => absurd hd (hno v p), fun _ _ _ => rfl, fun _ u hu hu' => by omega,
    fun hok => absurd hok (by decide)⟩

theorem GrowRun.failed (hO : e'.Ok held') (hsub : held ⊆ held') (hS : e.tables.SharedTable)
    (ht : e'.tables = e.tables) (hf : AllocFails top vaddr e)
    (hno : ∀ v p, ¬ Drawn top vaddr e v p) : GrowRun top vaddr e held false e' held' := by
  exact ⟨hO, hsub, fun f _ hu => by rwa [ht] at hu, by rw [ht]; exact hS,
    fun v p hd => absurd hd (hno v p), fun v p hd => absurd hd (hno v p),
    fun v p hd => absurd hd (hno v p), fun v p _ hd => absurd hd (hno v p),
    fun _ _ _ => by rw [ht], fun hok => absurd hok (by decide), fun _ => hf⟩

theorem pageBase_eq {u : Nat} (hal : vaddr % 4096 = 0) (hu : vaddr ≤ u) (hu' : u < vaddr + 4096) :
    u / 4096 * 4096 = vaddr := by
  omega

theorem GrowRun.cons (hO : e.Ok held) (hlo : 3221225472 ≤ vaddr) (hal : vaddr % 4096 = 0)
    (hlt : vaddr < top) (h0 : e.pmmAllocPage.1 ≠ 0)
    (hm : e.pmmAllocPage.2.vmmPageMap e.pmmAllocPage.1 vaddr 3 = some (0, e₂))
    (hsub : insert e.pmmAllocPage.1 held ⊆ held₂)
    (huse : ∀ f, f * 4096 ∈ insert e.pmmAllocPage.1 held → e₂.tables.InUse f → e.tables.InUse f)
    (hmaps : MapsTo e.tables e₂.tables e.pmmAllocPage.1 vaddr 3)
    (hrun : GrowRun top (vaddr + 4096) e₂ held₂ ok e' held') :
    GrowRun top vaddr e held ok e' held' := by
  obtain ⟨-, -, -, hnew⟩ := hO.pmmAllocPage Prod.mk.eta.symm
  obtain ⟨hfresh, hframe, -⟩ := hnew h0
  have hin : e.pmmAllocPage.1 ∈ insert e.pmmAllocPage.1 held := Set.mem_insert _ _
  -- the pages above are other pages
  have hother : ∀ u v p, Drawn top (vaddr + 4096) e₂ v p → SamePage u vaddr → ¬ SamePage u v := by
    intro u v p hd hs hs'
    obtain ⟨hv, hv'⟩ := hrun.range v p hd
    rw [SamePage] at hs hs'
    rcases kernelAddr_cases v with ⟨hl, hk⟩ | ⟨hl, hk⟩ <;>
      rcases kernelAddr_cases vaddr with ⟨hl', hk'⟩ | ⟨hl', hk'⟩ <;> rw [hk] at hs' <;>
        rw [hk'] at hs <;> omega
  refine ⟨hrun.machine, ((Set.subset_insert _ _).trans hsub).trans hrun.kept, ?_, hrun.shared,
    ?_, ?_, ?_, ?_, ?_, ?_, ?_⟩
  · intro f hf hu
    have hf' : f * 4096 ∈ insert e.pmmAllocPage.1 held := Set.mem_insert_of_mem _ hf
    exact huse f hf' (hrun.tables f (hsub hf') hu)
  · intro v p hd
    rcases hd.cases hm with ⟨rfl, -⟩ | hd
    · exact ⟨Nat.le_refl _, hlt⟩
    · obtain ⟨hv, hv'⟩ := hrun.range v p hd
      exact ⟨by omega, hv'⟩
  · intro v p hd
    rcases hd.cases hm with ⟨-, rfl⟩ | hd
    · refine ⟨hframe, hfresh, hrun.kept (hsub hin), fun hu => ?_⟩
      have hf : (frameOf e.pmmAllocPage.1 : Nat) * 4096 ∈ insert e.pmmAllocPage.1 held := by
        rw [hframe]
        exact hin
      have hu := huse _ hf (hrun.tables _ (hsub hf) hu)
      exact hO.not_inUse hfresh hframe hu
    · obtain ⟨hfr, hnot, hheld, hu⟩ := hrun.frame v p hd
      exact ⟨hfr, fun hp => hnot (hsub (Set.mem_insert_of_mem _ hp)), hheld, hu⟩
  · intro v p hd u hu hs
    rcases hd.cases hm with ⟨rfl, rfl⟩ | hd
    · obtain ⟨user, hw⟩ := hmaps.page u hu hs
      rw [hrun.others u hu fun v' p' hd' => hother u v' p' hd' hs, hw]
      exact congrArg (fun b => some (Translation.mk _ true b)) (Bool.and_false user)
    · exact hrun.walk v p hd u hu hs
  · intro v p v' hd hd'
    rcases hd.cases hm with ⟨rfl, rfl⟩ | hd <;> rcases hd'.cases hm with ⟨rfl, hp⟩ | hd'
    · rfl
    · exact absurd (hsub hin) (hrun.frame _ _ hd').2.1
    · rw [hp] at hd
      exact absurd (hsub hin) (hrun.frame _ _ hd).2.1
    · exact hrun.distinct v p v' hd hd'
  · intro u hu hno
    rw [hrun.others u hu fun v p hd => hno v p (.later hlt h0 hm hd)]
    exact hmaps.others u hu (hno vaddr _ (.here hlt h0 hm))
  · intro hok u hu hu'
    by_cases hpage : u < vaddr + 4096
    · rw [pageBase_eq hal hu hpage]
      exact ⟨_, .here hlt h0 hm⟩
    · obtain ⟨p, hp⟩ := hrun.all hok u (by omega) hu'
      exact ⟨p, .later hlt h0 hm hp⟩
  · intro hok
    exact .later hlt h0 hm (hrun.fails hok)

theorem Drawn.aligned (hd : Drawn top vaddr e v p) (hal : vaddr % 4096 = 0) : v % 4096 = 0 := by
  induction hd with
  | here _ _ _ => exact hal
  | later _ _ _ _ ih => exact ih (by omega)

theorem GrowRun.heapPage (hG : GrowRun top vaddr e held ok e' held') (hlo : 3221225472 ≤ vaddr)
    (htop : top ≤ 4290772992) (hd : Drawn top vaddr e v p) : HeapPage v := by
  obtain ⟨hge, hlt⟩ := hG.range v p hd
  exact ⟨by omega, by omega⟩

theorem GrowRun.walk_drawn (hG : GrowRun top vaddr e held ok e' held') (hp : HeapPage v)
    (hd : Drawn top vaddr e (v / 4096 * 4096) p) :
    e'.tables.walk v = some ⟨frameOf p, true, false⟩ := by
  have hv := hp.kernel
  exact hG.walk _ p hd v hp.window ((samePage_iff (by omega) (by omega)).mpr (by omega))

theorem GrowRun.walk_other (hG : GrowRun top vaddr e held ok e' held') (hp : HeapPage v)
    (hal : vaddr % 4096 = 0) (hlo : 3221225472 ≤ vaddr)
    (hno : ∀ p, ¬ Drawn top vaddr e (v / 4096 * 4096) p) :
    e'.tables.walk v = e.tables.walk v := by
  have hv := hp.kernel
  refine hG.others v hp.window fun w p hd hsame => hno p ?_
  have hge := (hG.range w p hd).1
  have hw := hd.aligned hal
  have hsame := (samePage_iff (by omega) (by omega)).mp hsame
  rw [show v / 4096 * 4096 = w by omega]
  exact hd

theorem Machine.Ok.growRound (hO : e.Ok held) (hS : e.tables.SharedTable) (hv : v < ptBaseVaddr)
    (h0 : e.pmmAllocPage.1 ≠ 0) : ∃ res e₂ held₂,
    e.pmmAllocPage.2.vmmPageMap e.pmmAllocPage.1 v 3 = some (res, e₂) ∧ e₂.Ok held₂ ∧
      insert e.pmmAllocPage.1 held ⊆ held₂ ∧ e₂.tables.SharedTable ∧
      (∀ f, f * 4096 ∈ insert e.pmmAllocPage.1 held → e₂.tables.InUse f → e.tables.InUse f) ∧
      ((res = 0 ∧ MapsTo e.tables e₂.tables e.pmmAllocPage.1 v 3) ∨
        (res = enomem ∧ e.pmmAllocPage.2.NoTable v ∧ e₂.tables = e.tables)) := by
  obtain ⟨hO₁, ht₁, -, -⟩ := hO.pmmAllocPage Prod.mk.eta.symm
  rw [heldAfter, if_neg h0] at hO₁
  obtain ⟨res, e₂, held₂, hm, hO₂, hsub, hS₂, huse, hres⟩ :=
    hO₁.mapBelow (by rw [ht₁]; exact hS) hv e.pmmAllocPage.1 3
  rw [ht₁] at huse hres
  exact ⟨res, e₂, held₂, hm, hO₂, hsub, hS₂, huse, hres⟩

theorem mapPages_drawn (hO : h.env.Ok held) (hS : h.env.tables.SharedTable)
    (hal : vaddr % 4096 = 0) (hlo : 3221225472 ≤ vaddr) (htop : top ≤ 4290772992)
    (hn : top ≤ vaddr + n * 4096) :
    ∃ ok h' held', mapPages top (n + 1) vaddr h = some (ok, h') ∧
      GrowRun top vaddr h.env held ok h'.env held' := by
  suffices hrule : ∃ ok h', mapPages top (n + 1) vaddr h = some (ok, h') ∧ ∀ held,
      h.env.Ok held → ∃ held', GrowRun top vaddr h.env held ok h'.env held' by
    obtain ⟨ok, h', hm, hrun⟩ := hrule
    obtain ⟨held', hrun⟩ := hrun held hO
    exact ⟨ok, h', held', hm, hrun⟩
  refine mapPages_rule
    (I := fun v h => (∃ held, h.env.Ok held) ∧ h.env.tables.SharedTable ∧ v % 4096 = 0 ∧
      3221225472 ≤ v)
    (Q := fun v h ok h' => ∀ held, h.env.Ok held → ∃ held', GrowRun top v h.env held ok h'.env held')
    htop ?_ ?_ ?_ ⟨⟨held, hO⟩, hS, hal, hlo⟩ hn
  · rintro v h ⟨-, hS, -, -⟩ hge held hO
    exact ⟨held, .done hO hS (Nat.le_of_not_lt hge)⟩
  · rintro v h ⟨-, hS, -, -⟩ hlt h0 held hO
    obtain ⟨hO₁, ht₁, -, -⟩ := hO.pmmAllocPage Prod.mk.eta.symm
    rw [heldAfter, if_pos h0] at hO₁
    refine ⟨held, .failed hO₁ subset_rfl hS ht₁ (.page hlt h0) fun v p hd => ?_⟩
    cases hd with
    | here _ hne _ => exact hne h0
    | later _ hne _ _ => exact hne h0
  · rintro v h ⟨⟨held, hO⟩, hS, hal, hlo⟩ hlt h0
    have hv : v < ptBaseVaddr := by
      rw [ptBaseVaddr]
      omega
    obtain ⟨res, e₂, held₂, hm, hO₂, -, hS₂, -, hres⟩ := hO.growRound hS hv h0
    refine ⟨res, e₂, hm, fun hr held hO => ?_, ?_⟩
    · -- the page goes back, and no table was made
      obtain ⟨res', e', held', hm', hO', hsub, -, huse, hres'⟩ := hO.growRound hS hv h0
      obtain ⟨rfl, rfl⟩ := Prod.mk.inj (Option.some.inj (hm.symm.trans hm'))
      rcases hres' with ⟨hz, -⟩ | ⟨rfl, hno, ht⟩
      · exact absurd hz hr
      have hfresh : h.env.pmmAllocPage.1 ∉ held := ((hO.pmmAllocPage Prod.mk.eta.symm).2.2.2 h0).1
      refine ⟨_, .failed (hO'.pmmFreePage (hsub (Set.mem_insert _ _)) fun f hf hu => ?_)
        (fun a ha => ⟨hsub (Set.mem_insert_of_mem _ ha), fun he => hfresh ?_⟩) hS ht
        (.table hlt h0 hno) fun v' p hd => ?_⟩
      · rw [ht] at hu
        exact hfresh (hf ▸ hO.inUse f hu)
      · rw [← Set.mem_singleton_iff.mp he]
        exact ha
      · cases hd with
        | here _ _ hd => exact absurd (Prod.mk.inj (Option.some.inj (hm.symm.trans hd))).1 hr
        | later _ _ hd _ => exact absurd (Prod.mk.inj (Option.some.inj (hm.symm.trans hd))).1 hr
    · rintro rfl h₁ rfl
      refine ⟨⟨⟨held₂, hO₂⟩, hS₂, by omega, by omega⟩, fun ok h' hback held hO => ?_⟩
      obtain ⟨res', e', held', hm', hO', hsub, -, huse, hres'⟩ := hO.growRound hS hv h0
      obtain ⟨rfl, rfl⟩ := Prod.mk.inj (Option.some.inj (hm.symm.trans hm'))
      rcases hres' with ⟨-, hmaps⟩ | ⟨hz, -⟩
      · obtain ⟨held'', hrun⟩ := hback held' hO'
        exact ⟨held'', hrun.cons hO hlo hal hlt h0 hm hsub huse hmaps⟩
      · exact absurd hz (by decide)

theorem incrementBrk_drawn (hO : h.env.Ok held) (hS : h.env.tables.SharedTable)
    (hlo : 3221225472 ≤ h.programBreakPoint) (hhi : h.programBreakPoint + n ≤ 4290772992) :
    ∃ ok h' held', incrementBrk n h = some (if ok then h.programBreakPoint else sbrkFailed, h') ∧
      h'.heapStart = h.heapStart ∧
      h'.programBreakPoint = (if ok then h.programBreakPoint + n else h.programBreakPoint) ∧
      GrowRun (pageRoundUp (h.programBreakPoint + n)) (pageRoundUp h.programBreakPoint) h.env held
        ok h'.env held' ∧
      (pageRoundUp h.programBreakPoint = pageRoundUp (h.programBreakPoint + n) → h'.env = h.env) := by
  obtain ⟨hcal, hcle, -, -⟩ := pageRoundUp_bounds (show h.programBreakPoint ≤ 4290772992 by omega)
  obtain ⟨-, -, -, htop⟩ := pageRoundUp_bounds hhi
  rw [incrementBrk]
  dsimp only
  rw [u32_of_lt (show h.programBreakPoint + n < 4294967296 by omega)]
  by_cases hmap : pageRoundUp h.programBreakPoint < pageRoundUp (h.programBreakPoint + n)
  · obtain ⟨ok, h', held', hm, hrun⟩ := mapPages_drawn (n := 1048576) hO hS hcal
      (show 3221225472 ≤ pageRoundUp h.programBreakPoint by omega) htop (by omega)
    obtain ⟨hbrk, hst⟩ := (mapPages_rounds hm).break_eq
    rw [if_pos hmap, show pageFuel = 1048576 + 1 from rfl, hm, Option.bind_eq_bind,
      Option.bind_some]
    cases ok with
    | true => exact ⟨true, _, held', rfl, hst, rfl, hrun, fun he => absurd he (by omega)⟩
    | false => exact ⟨false, _, held', rfl, hst, hbrk, hrun, fun he => absurd he (by omega)⟩
  · rw [if_neg hmap]
    exact ⟨true, _, held, rfl, rfl, rfl, .done hO hS (by omega), fun _ => rfl⟩

end Loop

/-! ### Runs -/

/-- The pages from `lo` to `hi` are mapped, each to a frame of its own that is `fresh`, and
every other page is as it was. -/
structure Grown (t t' : Tables) (fresh : Fin 1048576 → Prop) (lo hi : Nat) : Prop where
  pages : ∀ v, lo ≤ v → v < hi → ∃ f, t'.walk v = some ⟨f, true, false⟩ ∧ fresh f
  distinct : ∀ u v, lo ≤ u → u < hi → lo ≤ v → v < hi → ∀ tr tr', t'.walk u = some tr →
    t'.walk v = some tr' → tr.frame = tr'.frame → u / 4096 = v / 4096
  others : ∀ v < ptBaseVaddr, ¬ (lo ≤ v ∧ v < hi) → t'.walk v = t.walk v

/-- The kernel, with the frames that somebody holds: callers of `pmm_alloc_page`, and the
heap for the pages that it has mapped. -/
structure FrameHolders where
  heap : Heap Machine
  held : Set Nat

inductive FrameCall
  | pmmAllocPage (r : Nat)
  | pmmFreePage (a : Nat)
  | vmmPageMap (phys virt flags : Nat) (res : Int)
  | vmmPageUnmap (virt : Nat) (res : Int)
  | incrementBrk (programBreak increment r : Nat)

/-- One call.  Only held frames are freed, and a growth may begin at any break from 4 MiB
above `KERNEL_VIRT_OFFSET` on. -/
inductive FrameCallStep : FrameHolders → FrameCall → FrameHolders → Prop
  | pmmAllocPage {c : FrameHolders} {r : Nat} {e : Machine} : c.heap.env.pmmAllocPage = (r, e) →
      FrameCallStep c (.pmmAllocPage r) ⟨{ c.heap with env := e }, heldAfter c.held r⟩
  | pmmFreePage {c : FrameHolders} {a : Nat} : a ∈ c.held →
      FrameCallStep c (.pmmFreePage a)
        ⟨{ c.heap with env := c.heap.env.pmmFreePage a }, c.held \ {a}⟩
  | vmmPageMap {c : FrameHolders} {phys virt flags : Nat} {res : Int} {h' : Heap Machine} :
      heapPageMap phys virt flags c.heap = some (res, h') →
      FrameCallStep c (.vmmPageMap phys virt flags res) ⟨h', c.held⟩
  | vmmPageUnmap {c : FrameHolders} {virt : Nat} {res : Int} {e : Machine} :
      c.heap.env.vmmPageUnmap virt = some (res, e) →
      FrameCallStep c (.vmmPageUnmap virt res) ⟨{ c.heap with env := e }, c.held⟩
  | incrementBrk {c : FrameHolders} {b n r : Nat} {h' : Heap Machine} : 3225419776 ≤ b → 0 < n →
      n < 2147483648 → incrementBrk n { c.heap with programBreakPoint := b } = some (r, h') →
      FrameCallStep c (.incrementBrk b n r)
        ⟨h', c.held ∪ {p | ∃ v, Drawn (pageRoundUp (u32 (b + n))) (pageRoundUp b) c.heap.env v p}⟩

/-- The call stays below the recursive window. -/
def FrameCall.Below : FrameCall → Prop
  | .vmmPageMap _ virt _ _ => virt < ptBaseVaddr
  | .vmmPageUnmap virt _ => virt < ptBaseVaddr
  | .incrementBrk b n _ => b + n ≤ ptBaseVaddr
  | _ => True

def BelowStep (c : FrameHolders) (e : FrameCall) (c' : FrameHolders) : Prop :=
  FrameCallStep c e c' ∧ e.Below

/-- No held frame holds a table. -/
structure FrameHolders.Ok (c : FrameHolders) (held : Set Nat) : Prop where
  machine : c.heap.env.Ok held
  held : c.held ⊆ held
  apart : ∀ f, f * 4096 ∈ c.held → ¬ c.heap.env.tables.InUse f
  shared : c.heap.env.tables.SharedTable

/-- Frames that are held, but by none of the callers, stay so and become no tables. -/
structure LeavesHeld (c c' : FrameHolders) (held held' : Set Nat) : Prop where
  kept : held \ c.held ⊆ held' \ c'.held
  tables : ∀ f, f * 4096 ∈ held → c'.heap.env.tables.InUse f → c.heap.env.tables.InUse f

/-- A frame that nobody holds, and that holds no table before or after the call. -/
structure FreshFor (c : FrameHolders) (t' : Tables) (f : Fin 1048576) : Prop where
  held : (f : Nat) * 4096 ∉ c.held
  table : ¬ c.heap.env.tables.InUse f
  new : ¬ t'.InUse f

section Runs

variable {c c' : FrameHolders} {ev : FrameCall} {h₀ : Heap Machine} {held : Set Nat}

theorem BelowStep.ok (hO : c.Ok held) (hs : BelowStep c ev c') :
    ∃ held', c'.Ok held' ∧ LeavesHeld c c' held held' := by
  obtain ⟨hM, hsub, hap, hS⟩ := hO
  obtain ⟨hs, hbelow⟩ := hs
  cases hs with
  | @pmmAllocPage r e h =>
    obtain ⟨hM', ht, -, hnew⟩ := hM.pmmAllocPage h
    have huse : ∀ f, e.tables.InUse f → c.heap.env.tables.InUse f := fun f hu => ht ▸ hu
    by_cases h0 : r = 0
    · rw [heldAfter, if_pos h0] at hM' ⊢
      exact ⟨_, ⟨hM', hsub, fun f hf hu => hap f hf (huse f hu), by dsimp only; rw [ht]; exact hS⟩,
        subset_rfl, fun f _ hu => huse f hu⟩
    · rw [heldAfter, if_neg h0] at hM' ⊢
      have hr : r ∉ held := (hnew h0).1
      refine ⟨_, ⟨hM', Set.insert_subset_insert hsub, ?_, by dsimp only; rw [ht]; exact hS⟩, ?_,
        fun f _ hu => huse f hu⟩
      · rintro f (hf | hf) hu
        · exact hr (hf ▸ hM.inUse f (huse f hu))
        · exact hap f hf (huse f hu)
      · rintro a ⟨ha, hno⟩
        refine ⟨.inr ha, ?_⟩
        rintro (rfl | ha')
        · exact hr ha
        · exact hno ha'
  | @pmmFreePage a ha =>
    have hfree := hM.pmmFreePage (hsub ha) fun f he => hap f (he ▸ ha)
    refine ⟨_, ⟨hfree, Set.sdiff_subset_sdiff_left hsub, fun f hf => hap f hf.1, hS⟩, ?_,
      fun f _ hu => hu⟩
    rintro b ⟨hb, hno⟩
    exact ⟨⟨hb, fun he => hno ((show b = a from he) ▸ ha)⟩, fun hb' => hno hb'.1⟩
  | @vmmPageMap phys virt flags res h' h =>
    obtain ⟨⟨res, e⟩, hm, h⟩ := Option.bind_eq_some_iff.mp h
    obtain ⟨rfl, rfl⟩ := Prod.mk.inj (Option.some.inj h)
    obtain ⟨res', e', held', hm', hM', hsub', hS', huse, -⟩ := hM.mapBelow hS hbelow phys flags
    obtain ⟨-, rfl⟩ := Prod.mk.inj (Option.some.inj (hm.symm.trans hm'))
    exact ⟨held', ⟨hM', hsub.trans hsub', fun f hf hu => hap f hf (huse f (hsub hf) hu), hS'⟩,
      Set.sdiff_subset_sdiff_left hsub', huse⟩
  | @vmmPageUnmap virt res e h =>
    obtain ⟨res', e', hm', hM', hS', huse, -⟩ := hM.unmapBelow hS hbelow
    obtain ⟨-, rfl⟩ := Prod.mk.inj (Option.some.inj (h.symm.trans hm'))
    exact ⟨held, ⟨hM', hsub, fun f hf hu => hap f hf (huse f hu), hS'⟩, subset_rfl,
      fun f _ hu => huse f hu⟩
  | @incrementBrk b n r h' hb _ _ h =>
    have hbelow : b + n ≤ 4290772992 := hbelow
    obtain ⟨ok, h₁, held', hk, -, -, hrun, -⟩ :=
      incrementBrk_drawn (h := { c.heap with programBreakPoint := b }) (n := n) hM hS
        (show 3221225472 ≤ b by omega) hbelow
    obtain ⟨-, rfl⟩ := Prod.mk.inj (Option.some.inj (h.symm.trans hk))
    dsimp only at hrun
    rw [u32_of_lt (show b + n < 4294967296 by omega)]
    refine ⟨held', ⟨hrun.machine, Set.union_subset (hsub.trans hrun.kept) ?_, ?_, hrun.shared⟩, ?_,
      hrun.tables⟩
    · rintro p ⟨v, hd⟩
      exact (hrun.frame v p hd).2.2.1
    · rintro f (hf | ⟨v, hd⟩) hu
      · exact hap f hf (hrun.tables f (hsub hf) hu)
      · obtain ⟨hfr, -, -, hnot⟩ := hrun.frame v _ hd
        rw [show (frameOf (f * 4096) : Nat) = f by omega] at hnot
        exact hnot hu
    · rintro a ⟨ha, hno⟩
      refine ⟨hrun.kept ha, ?_⟩
      rintro (ha' | ⟨v, hd⟩)
      · exact hno ha'
      · exact (hrun.frame v a hd).2.1 ha

theorem GrowRun.grown {top vaddr : Nat} {e e' : Machine} {held' : Set Nat}
    {fresh : Fin 1048576 → Prop} (hrun : GrowRun top vaddr e held true e' held')
    (hlo : 3225419776 ≤ vaddr) (hal : vaddr % 4096 = 0) (htop : top % 4096 = 0)
    (hhi : top ≤ 4290772992)
    (hfresh : ∀ f : Fin 1048576, (f : Nat) * 4096 ∉ held → ¬ e'.tables.InUse f → fresh f) :
    Grown e.tables e'.tables fresh vaddr top := by
  have hdrawn : ∀ v, vaddr ≤ v → v < top → ∃ p, Drawn top vaddr e (v / 4096 * 4096) p ∧
      e'.tables.walk v = some ⟨frameOf p, true, false⟩ := by
    intro v hv hv'
    obtain ⟨p, hd⟩ := hrun.all rfl v hv hv'
    exact ⟨p, hd, hrun.walk_drawn ⟨by omega, by omega⟩ hd⟩
  refine ⟨fun v hv hv' => ?_, fun u v hu hu' hv hv' tr tr' hw hw' he => ?_, fun v hv hout => ?_⟩
  · obtain ⟨p, hd, hw⟩ := hdrawn v hv hv'
    obtain ⟨hfr, hnot, -, huse⟩ := hrun.frame _ p hd
    exact ⟨_, hw, hfresh _ (by rwa [hfr]) huse⟩
  · obtain ⟨p, hd, hwu⟩ := hdrawn u hu hu'
    obtain ⟨p', hd', hwv⟩ := hdrawn v hv hv'
    obtain rfl := Option.some.inj (hw.symm.trans hwu)
    obtain rfl := Option.some.inj (hw'.symm.trans hwv)
    have hframe : (frameOf p : Nat) * 4096 = (frameOf p' : Nat) * 4096 := congrArg
      (fun f : Fin 1048576 => (f : Nat) * 4096) he
    rw [(hrun.frame _ p hd).1, (hrun.frame _ p' hd').1] at hframe
    subst hframe
    have := hrun.distinct _ _ _ hd hd'
    omega
  · refine hrun.others v hv fun v' p hd hs => ?_
    obtain ⟨hge, hlt⟩ := hrun.range v' p hd
    rw [SamePage] at hs
    rcases kernelAddr_cases v with ⟨hl, hk⟩ | ⟨hl, hk⟩ <;>
      rcases kernelAddr_cases v' with ⟨hl', hk'⟩ | ⟨hl', hk'⟩ <;> rw [hk, hk'] at hs <;> omega

theorem frames_run_ok {magic kernelEnd : Nat} {mbd : Multiboot} {mem : Nat → Page} {s : Frames}
    {t₀ : Tables} {ram : Nat → UInt8} {es : List FrameCall}
    (hinit : pmmDirectoryInit magic kernelEnd mbd mem = some (s, t₀))
    (hstart : h₀.env = Machine.start s t₀ ram) (hrun : Trace BelowStep ⟨h₀, ∅⟩ es c) :
    ∃ held, c.Ok held := by
  obtain ⟨d, t, hd⟩ := pmmDirectoryInit_spec hinit
  have hok : FrameHolders.Ok ⟨h₀, ∅⟩ {t * 4096, d * 4096} := by
    refine ⟨?_, Set.empty_subset _, fun f hf => absurd hf (Set.notMem_empty _), ?_⟩
    · dsimp only
      rw [hstart]
      exact Machine.start_ok hd ram
    · dsimp only
      rw [hstart]
      exact pmmDirectoryInit_shared hinit
  refine hrun.invariant (I := fun c => ∃ held, c.Ok held) ⟨_, hok⟩ ?_
  rintro c ev c' ⟨held, hO⟩ hs
  obtain ⟨held', hO', -⟩ := hs.ok hO
  exact ⟨held', hO'⟩

/-- **A growth maps exactly the new pages, to fresh frames**, in every state that
allocations, and mappings and growths below the recursive window lead to, if none of its
allocations fails.  When there are no new pages nothing is taken. -/
theorem growth_fresh {magic kernelEnd b n : Nat} {mbd : Multiboot} {mem : Nat → Page} {s : Frames}
    {t₀ : Tables} {ram : Nat → UInt8} {es : List FrameCall}
    (hinit : pmmDirectoryInit magic kernelEnd mbd mem = some (s, t₀))
    (hstart : h₀.env = Machine.start s t₀ ram) (hrun : Trace BelowStep ⟨h₀, ∅⟩ es c)
    (hb : 3225419776 ≤ b) (hend : b + n ≤ ptBaseVaddr)
    (hmem : ¬ AllocFails (pageRoundUp (b + n)) (pageRoundUp b) c.heap.env) :
    ∃ h', incrementBrk n { c.heap with programBreakPoint := b } = some (b, h') ∧
      h'.programBreakPoint = b + n ∧
      Grown c.heap.env.tables h'.env.tables (FreshFor c h'.env.tables) (pageRoundUp b)
        (pageRoundUp (b + n)) ∧
      (pageRoundUp b = pageRoundUp (b + n) → h'.env = c.heap.env) := by
  have hend : b + n ≤ 4290772992 := hend
  obtain ⟨held, hO⟩ := frames_run_ok hinit hstart hrun
  obtain ⟨hcal, hcle, -, -⟩ := pageRoundUp_bounds (show b ≤ 4290772992 by omega)
  obtain ⟨htal, -, -, htop⟩ := pageRoundUp_bounds hend
  obtain ⟨ok, h', held', hk, -, hbrk, hgrow, hsame⟩ :=
    incrementBrk_drawn (h := { c.heap with programBreakPoint := b }) (n := n) hO.machine hO.shared
      (show 3221225472 ≤ b by omega) hend
  cases ok with
  | false => exact absurd (hgrow.fails rfl) hmem
  | true =>
    refine ⟨h', hk, hbrk, ?_, hsame⟩
    refine hgrow.grown (show 3225419776 ≤ pageRoundUp b by omega) hcal htal htop fun f hf hu => ?_
    exact ⟨fun hh => hf (hO.held hh), fun hu => hf (hO.machine.inUse f hu), hu⟩

theorem not_allocFails_page {vaddr : Nat} {e : Machine} (hpage : e.pmmAllocPage.1 ≠ 0)
    (htable : e.pmmAllocPage.2.pmmAllocPage.1 ≠ 0) : ¬ AllocFails (vaddr + 4096) vaddr e := by
  intro hf
  cases hf with
  | page _ hz => exact hpage hz
  | table _ _ hno => exact htable hno.2
  | later _ _ _ hf =>
    have hle : ∀ e', ¬ AllocFails (vaddr + 4096) (vaddr + 4096) e' := by
      intro e' hf
      cases hf <;> omega
    exact hle _ hf

theorem not_allocFails_of_batch {vaddr : Nat} {e : Machine} (h0 : e.frames.bitmap.testBit 0)
    (hr : e.frames.Refills) (hc : 20 ≤ e.frames.clear.card) :
    ¬ AllocFails (vaddr + 4096) vaddr e := by
  obtain ⟨-, hpage, htable⟩ := two_frames h0 hr hc
  exact not_allocFails_page hpage htable

theorem exists_growable : ∃ s t₀, ∃ h₀ : Heap Machine,
    pmmDirectoryInit multibootBootloaderMagic 0xC0120000 (entryMap 64) (fun _ => .zero)
      = some (s, t₀) ∧ h₀.env = Machine.start s t₀ (fun _ => 0) ∧ s.bitmap.testBit 0 ∧
      s.Refills ∧ 20 ≤ s.clear.card := by
  obtain ⟨s, t₀, hdir, hr, -, hcard⟩ := pmmDirectoryInit_entryMap (n := 64) (by decide) (by decide)
    fun _ => .zero
  obtain ⟨h₀, hh⟩ : ∃ h₀, heapInit 0xC0120000 (fun _ => 0) (Machine.start s t₀ fun _ => 0)
      = some h₀ := ⟨_, rfl⟩
  have hstart := heapInit_env hh
  obtain ⟨held, hO⟩ := frames_run_ok hdir hstart .nil
  have hbit := hO.machine.null
  dsimp only at hbit
  rw [hstart] at hbit
  exact ⟨s, t₀, h₀, hdir, hstart, hbit, hr, by omega⟩

theorem growth_fresh_page : ∃ s t₀ h₀ h',
    pmmDirectoryInit multibootBootloaderMagic 0xC0120000 (entryMap 64) (fun _ => .zero)
      = some (s, t₀) ∧ h₀.env = Machine.start s t₀ (fun _ => 0) ∧
    incrementBrk 10 { h₀ with programBreakPoint := 0xC0400000 } = some (0xC0400000, h') ∧
    Grown t₀ h'.env.tables (FreshFor ⟨h₀, ∅⟩ h'.env.tables) 0xC0400000 0xC0401000 := by
  obtain ⟨s, t₀, h₀, hdir, hstart, h0, hr, hc⟩ := exists_growable
  have hmem : ¬ AllocFails (0xC0400000 + 4096) 0xC0400000 h₀.env :=
    not_allocFails_of_batch (by rw [hstart]; exact h0) (by rw [hstart]; exact hr)
      (by rw [hstart]; exact hc)
  obtain ⟨h', hk, -, hgrown, -⟩ := growth_fresh (b := 0xC0400000) (n := 10) (c := ⟨h₀, ∅⟩) hdir
    hstart .nil (by decide) (by decide) hmem
  refine ⟨s, t₀, h₀, h', hdir, hstart, hk, ?_⟩
  have ht : h₀.env.tables = t₀ := by rw [hstart]; rfl
  rw [← ht]
  exact hgrown

theorem incrementBrk_page {h : Heap Machine} {b : Nat} {e' : Machine} (hbrk : h.programBreakPoint = b)
    (hal : b % 4096 = 0) (hlt : b + 4096 ≤ 4290772992) (h0 : h.env.pmmAllocPage.1 ≠ 0)
    (hm : h.env.pmmAllocPage.2.vmmPageMap h.env.pmmAllocPage.1 b 3 = some (0, e')) :
    ∃ h', incrementBrk 4096 h = some (b, h') ∧ h'.env = e' := by
  have hround : ∀ a, a % 4096 = 0 → a ≤ 4290772992 → pageRoundUp a = a := by
    intro a ha hle
    obtain ⟨hal, hge, hlt, -⟩ := pageRoundUp_bounds hle
    omega
  have hmap : heapPageMap h.env.pmmAllocPage.1 b 3 { h with env := h.env.pmmAllocPage.2 }
      = some (0, { h with env := e', mem := showFrame e'.ram h.env.pmmAllocPage.1 b h.mem }) := by
    rw [heapPageMap, hm]
    rfl
  have hnext : u32 (b + 4096) = b + 4096 := u32_of_lt (by omega)
  have hloop : ∃ h', mapPages (b + 4096) (1048575 + 1 + 1) b h = some (true, h') ∧ h'.env = e' := by
    rw [mapPages, if_pos (by omega)]
    dsimp only
    rw [if_neg h0, hmap, Option.bind_eq_bind, Option.bind_some]
    dsimp only
    rw [if_neg (by decide), pageSize, hnext, mapPages, if_neg (by omega)]
    exact ⟨_, rfl, rfl⟩
  obtain ⟨h', hloop, henv⟩ := hloop
  rw [incrementBrk]
  dsimp only
  rw [hbrk, hnext, hround b hal (by omega), hround (b + 4096) (by omega) hlt, if_pos (by omega),
    show pageFuel = 1048575 + 1 + 1 from rfl, hloop]
  exact ⟨_, rfl, henv⟩

/-- The frame `F` becomes the table of `0xC0400000` by a mapping inside the recursive window,
and the page there by an ordinary one. -/
theorem window_alias {t : Tables} {F : Nat} (hI : t.Inv) (hF : ¬ t.InUse (frameOf F)) :
    ∃ t₁ t₂, writeEntry F 0xFFF01000 3 t = some t₁ ∧ t₁.Recursive ∧ (t₁.pde 769).present ∧
      writeEntry F 0xC0400000 3 t₁ = some t₂ ∧ t₂.InUse (frameOf F) ∧
      ∀ tr, t₂.walk 0xC0400000 = some tr → tr.frame = frameOf F := by
  have hwrite := writeEntry_window (k := 769) hI.recursive (show 0xFFF01000 < 4294967296 by decide)
    (by decide) (by decide) (by decide) F 3
  obtain ⟨t₁, ht₁⟩ : ∃ t₁, t₁ = t.set (t.cr3 * 1024 + 769) (mappedPte (t.pde 769) F 3) := ⟨_, rfl⟩
  rw [← ht₁] at hwrite
  have hcr₁ : t₁.cr3 = t.cr3 := by rw [ht₁, set_cr3]
  have hR₁ : t₁.Recursive := by
    rw [ht₁]
    exact hI.recursive.set (by omega)
  have hpde₁ : t₁.pde 769 = mappedPte (t.pde 769) F 3 := by
    rw [ht₁]
    exact set_pde_self
  have hp₁ : (t₁.pde 769).present := by rw [hpde₁]; rfl
  have hrw₁ : (t₁.pde 769).rw := by rw [hpde₁]; rfl
  have hframe₁ : (t₁.pde 769).frame = frameOf F := by rw [hpde₁]; rfl
  have hne : ((t₁.pde 769).frame : Nat) ≠ t₁.cr3 := by
    rw [hframe₁, hcr₁]
    exact fun he => hF (.inl he)
  have hentry := writeEntry_spec (v := 0xC0400000) hR₁ (by decide) hp₁ hrw₁ (by decide) hne F 3
  obtain ⟨p, hp⟩ : ∃ p, p = mappedPte (t₁.mem (t₁.pteWord 0xC0400000)) F 3 := ⟨_, rfl⟩
  rw [← hp] at hentry
  -- the second store is not to the directory
  have hword : t₁.pteWord 0xC0400000 = (t₁.pde 769).frame * 1024 + 0 := rfl
  have hpde₂ : (t₁.set (t₁.pteWord 0xC0400000) p).pde 769 = t₁.pde 769 :=
    set_pde_of_ne (by omega)
  refine ⟨t₁, _, hwrite, hR₁, hp₁, hentry, .inr ⟨769, by decide, ?_, ?_⟩, fun tr hw => ?_⟩
  · rw [hpde₂]
    exact hp₁
  · rw [hpde₂, hframe₁]
  · have hmem : (t₁.set (t₁.pteWord 0xC0400000) p).mem ((t₁.pde 769).frame * 1024 + 0) = p :=
      set_mem_self
    simp only [walk, show 0xC0400000 / 4194304 % 1024 = 769 from rfl,
      show 0xC0400000 / 4096 % 1024 = 0 from rfl, hpde₂, hp₁, hmem, if_true] at hw
    rw [hp] at hw
    obtain rfl := Option.some.inj hw
    rfl

/-- A frame that the next `pmm_alloc_page` returns is made a page table by a mapping inside
the recursive window, and the growth maps its page to that table. -/
theorem window_mapping_aliases : ∃ s t₀ h₀ c F h',
    pmmDirectoryInit multibootBootloaderMagic 0xC0120000 (entryMap 64) (fun _ => .zero)
      = some (s, t₀) ∧ h₀.env = Machine.start s t₀ (fun _ => 0) ∧
    Trace FrameCallStep ⟨h₀, ∅⟩ [.vmmPageMap F 0xFFF01000 3 0] c ∧
    ¬ AllocFails 0xC0401000 0xC0400000 c.heap.env ∧
    incrementBrk 4096 { c.heap with programBreakPoint := 0xC0400000 } = some (0xC0400000, h') ∧
    ¬ Grown c.heap.env.tables h'.env.tables (FreshFor c h'.env.tables) 0xC0400000 0xC0401000 := by
  obtain ⟨s, t₀, h₀, hdir, hstart, hbit, hr, hc⟩ := exists_growable
  obtain ⟨held, hO⟩ := frames_run_ok hdir hstart .nil
  obtain ⟨e, he⟩ : ∃ e, e = h₀.env := ⟨_, rfl⟩
  have hM : e.Ok held := he ▸ hO.machine
  have hbit : e.frames.bitmap.testBit 0 := by rw [he, hstart]; exact hbit
  have hr : e.frames.Refills := by rw [he, hstart]; exact hr
  have hc : 20 ≤ e.frames.clear.card := by rw [he, hstart]; exact hc
  obtain ⟨-, ht, -, hnew⟩ := hM.pmmAllocPage Prod.mk.eta.symm
  obtain ⟨-, h0, -⟩ := two_frames hbit hr hc
  obtain ⟨hfresh, hframe, -⟩ := hnew h0
  obtain ⟨t₁, t₂, hwrite, hR₁, hp₁, hentry, hu, hwalk⟩ :=
    window_alias hM.tables (hM.not_inUse hfresh hframe)
  have hmap := Machine.vmmPageMap_entry hM.tables.recursive (by decide)
    hM.tables.recursive.present hwrite
  have hcall : ∃ h₁ : Heap Machine, heapPageMap e.pmmAllocPage.1 0xFFF01000 3 h₀ = some (0, h₁) ∧
      h₁.env = { e with tables := t₁ } := by
    rw [heapPageMap, ← he, hmap]
    exact ⟨_, rfl, rfl⟩
  obtain ⟨h₁, hcall, henv₁⟩ := hcall
  -- the map has taken no frame
  have hsecond : (h₁.env.pmmAllocPage.2).vmmPageMap h₁.env.pmmAllocPage.1 0xC0400000 3
      = some (0, { h₁.env.pmmAllocPage.2 with tables := t₂ }) := by
    rw [henv₁]
    exact Machine.vmmPageMap_entry hR₁ (by decide) hp₁ hentry
  obtain ⟨h', hk, henv'⟩ := incrementBrk_page (h := { h₁ with programBreakPoint := 0xC0400000 })
    (b := 0xC0400000) rfl (by decide) (by decide) (by dsimp only; rw [henv₁]; exact h0) hsecond
  refine ⟨s, t₀, h₀, ⟨h₁, ∅⟩, _, h', hdir, hstart, .single (.vmmPageMap hcall), ?_, hk, ?_⟩
  · exact not_allocFails_of_batch (by dsimp only; rw [henv₁]; exact hbit)
      (by dsimp only; rw [henv₁]; exact hr) (by dsimp only; rw [henv₁]; exact hc)
  · intro hg
    obtain ⟨f, hw, hfr⟩ := hg.pages 0xC0400000 (by decide) (by decide)
    have hnew := hfr.new
    rw [henv'] at hw hnew
    rw [show f = frameOf e.pmmAllocPage.1 from hwalk _ hw] at hnew
    exact hnew hu

end Runs

end ChoOS
