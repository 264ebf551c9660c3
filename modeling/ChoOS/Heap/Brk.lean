import ChoOS.Heap.Spec
import ChoOS.Paging.Machine

/-!
# The program break

The code of `memory_manager/brk.c`, on the heap with the `Machine` behind it.
The argument of `sbrk` is the machine word that is passed, so an increment from
`2 ^ 31` on is a negative one.  A page that is mapped shows the bytes of its
frame from then on.

`SbrkDone` lists the ways in which a call returns, from any state, with the rounds of
the two loops as `MapRounds` and `UnmapRun`; the other way round, `mapPages_rule`
says that the loop of `increment_brk` returns where a round always does.

`sbrk_grows` is what the heap relies on: while the break stays below the
recursive window, a positive increment either fails or moves the break by
exactly that much, and the bytes below the break stay.  `sbrk_refused` is the
negative increment that would put the break below `heap_start`.
-/

namespace ChoOS

/-- More pages than there are in the address space. -/
def pageFuel : Nat := 1048577

/-- The memory when the page of `virt` shows the frame of `phys`. -/
def showFrame (ram : Nat → UInt8) (phys virt : Nat) (m : ByteMem) : ByteMem := fun x =>
  if x / 4096 = virt / 4096 then ram (phys / 4096 * 4096 + x % 4096) else m x

/-- `vmm_page_map`, with what the kernel sees of it. -/
def heapPageMap (phys virt flags : Nat) (h : Heap Machine) : Option (Int × Heap Machine) := do
  let (res, e) ← h.env.vmmPageMap phys virt flags
  return (res, { h with
    env := e
    mem := if res = 0 then showFrame e.ram phys virt h.mem else h.mem })

/-- The loop of `increment_brk`; `false` when a page could not be had. -/
def mapPages (newMappedTop : Nat) : Nat → Nat → Heap Machine → Option (Bool × Heap Machine)
  | 0, _, _ => none
  | fuel + 1, vaddr, h =>
    if vaddr < newMappedTop then do
      let (page, e) := h.env.pmmAllocPage
      if page = 0 then return (false, { h with env := e })
      else
        let (res, h) ← heapPageMap page vaddr 3 { h with env := e }
        if res ≠ 0 then return (false, { h with env := h.env.pmmFreePage page })
        else mapPages newMappedTop fuel (u32 (vaddr + pageSize)) h
    else some (true, h)

def incrementBrk (increment : Nat) (h : Heap Machine) : Option (Nat × Heap Machine) := do
  let oldProgramBreak := h.programBreakPoint
  let newProgramBreak := u32 (h.programBreakPoint + increment)
  let currentMappedTop := pageRoundUp h.programBreakPoint
  let newMappedTop := pageRoundUp newProgramBreak
  if currentMappedTop < newMappedTop then
    let (ok, h) ← mapPages newMappedTop pageFuel currentMappedTop h
    if ok then return (oldProgramBreak, { h with programBreakPoint := newProgramBreak })
    else return (sbrkFailed, h)
  else return (oldProgramBreak, { h with programBreakPoint := newProgramBreak })

/-- The loop of `decrement_brk`. -/
def unmapPages (newProgramBreak : Nat) : Nat → Heap Machine → Option (Heap Machine)
  | 0, _ => none
  | fuel + 1, h =>
    let pageAddr := sub32 h.programBreakPoint pageSize
    if newProgramBreak ≤ pageAddr then do
      let (_, e) ← (h.env.pmmFreePage (v2p pageAddr)).vmmPageUnmap pageAddr
      unmapPages newProgramBreak fuel { h with env := e, programBreakPoint := pageAddr }
    else some h

def decrementBrk (decrement : Nat) (h : Heap Machine) : Option (Nat × Heap Machine) := do
  let oldProgramBreak := h.programBreakPoint
  let newProgramBreak := sub32 h.programBreakPoint decrement
  if newProgramBreak < h.heapStart then return (sbrkFailed, h)
  else
    let h ← unmapPages newProgramBreak pageFuel h
    return (oldProgramBreak, h)

def sbrk (increment : Nat) (h : Heap Machine) : Option (Nat × Heap Machine) :=
  if increment = 0 then some (h.programBreakPoint, h)
  else if increment < 2147483648 then incrementBrk increment h
  else decrementBrk (4294967296 - increment) h

/-! ### What a call has done -/

/-- The rounds of the loop of `increment_brk`, from any state. -/
inductive MapRounds (top : Nat) : Nat → Heap Machine → Bool → Heap Machine → Prop
  | done {vaddr : Nat} {h : Heap Machine} : ¬ vaddr < top → MapRounds top vaddr h true h
  | noPage {vaddr : Nat} {h : Heap Machine} : vaddr < top → h.env.pmmAllocPage.1 = 0 →
      MapRounds top vaddr h false { h with env := h.env.pmmAllocPage.2 }
  | noTable {vaddr : Nat} {h : Heap Machine} {res : Int} {e : Machine} : vaddr < top →
      h.env.pmmAllocPage.1 ≠ 0 →
      h.env.pmmAllocPage.2.vmmPageMap h.env.pmmAllocPage.1 vaddr 3 = some (res, e) → res ≠ 0 →
      MapRounds top vaddr h false { h with env := e.pmmFreePage h.env.pmmAllocPage.1 }
  | page {vaddr : Nat} {h h' : Heap Machine} {e : Machine} {ok : Bool} : vaddr < top →
      h.env.pmmAllocPage.1 ≠ 0 →
      h.env.pmmAllocPage.2.vmmPageMap h.env.pmmAllocPage.1 vaddr 3 = some (0, e) →
      MapRounds top (u32 (vaddr + pageSize))
        { h with env := e, mem := showFrame e.ram h.env.pmmAllocPage.1 vaddr h.mem } ok h' →
      MapRounds top vaddr h ok h'

/-- A run of the loop of `decrement_brk`, with the values of `page_addr`. -/
inductive UnmapRun (new : Nat) : Heap Machine → List Nat → Heap Machine → Prop
  | done {h : Heap Machine} : ¬ new ≤ sub32 h.programBreakPoint pageSize → UnmapRun new h [] h
  | page {h h' : Heap Machine} {as : List Nat} {res : Int} {e : Machine} :
      new ≤ sub32 h.programBreakPoint pageSize →
      (h.env.pmmFreePage (v2p (sub32 h.programBreakPoint pageSize))).vmmPageUnmap
        (sub32 h.programBreakPoint pageSize) = some (res, e) →
      UnmapRun new { h with env := e, programBreakPoint := sub32 h.programBreakPoint pageSize }
        as h' →
      UnmapRun new h (sub32 h.programBreakPoint pageSize :: as) h'

/-- The ways in which `sbrk` returns. -/
inductive SbrkDone (h : Heap Machine) (increment : Nat) : Nat → Heap Machine → Prop
  | zero : increment = 0 → SbrkDone h increment h.programBreakPoint h
  | noPages : 0 < increment → increment < 2147483648 →
      ¬ pageRoundUp h.programBreakPoint < pageRoundUp (u32 (h.programBreakPoint + increment)) →
      SbrkDone h increment h.programBreakPoint
        { h with programBreakPoint := u32 (h.programBreakPoint + increment) }
  | grown {h₁ : Heap Machine} : 0 < increment → increment < 2147483648 →
      pageRoundUp h.programBreakPoint < pageRoundUp (u32 (h.programBreakPoint + increment)) →
      MapRounds (pageRoundUp (u32 (h.programBreakPoint + increment)))
        (pageRoundUp h.programBreakPoint) h true h₁ →
      SbrkDone h increment h.programBreakPoint
        { h₁ with programBreakPoint := u32 (h.programBreakPoint + increment) }
  | failed {h₁ : Heap Machine} : 0 < increment → increment < 2147483648 →
      pageRoundUp h.programBreakPoint < pageRoundUp (u32 (h.programBreakPoint + increment)) →
      MapRounds (pageRoundUp (u32 (h.programBreakPoint + increment)))
        (pageRoundUp h.programBreakPoint) h false h₁ →
      SbrkDone h increment sbrkFailed h₁
  | refused : 2147483648 ≤ increment →
      sub32 h.programBreakPoint (4294967296 - increment) < h.heapStart →
      SbrkDone h increment sbrkFailed h
  | shrunk {h₁ : Heap Machine} {as : List Nat} : 2147483648 ≤ increment →
      h.heapStart ≤ sub32 h.programBreakPoint (4294967296 - increment) →
      UnmapRun (sub32 h.programBreakPoint (4294967296 - increment)) h as h₁ →
      SbrkDone h increment h.programBreakPoint h₁

section Done

variable {h h' : Heap Machine} {n vaddr top new increment r : Nat} {ok : Bool}

theorem mapPages_rounds (hm : mapPages top n vaddr h = some (ok, h')) :
    MapRounds top vaddr h ok h' := by
  induction n generalizing vaddr h with
  | zero => exact absurd hm (by simp [mapPages])
  | succ n ih =>
    rw [mapPages] at hm
    split at hm
    · rename_i hlt
      dsimp only at hm
      split at hm
      · rename_i h0
        obtain ⟨rfl, rfl⟩ := Prod.mk.inj (Option.some.inj hm)
        exact .noPage hlt h0
      · rename_i h0
        obtain ⟨⟨res, h₁⟩, hp, hm⟩ := Option.bind_eq_some_iff.mp hm
        obtain ⟨⟨res', e⟩, hv, hp⟩ := Option.bind_eq_some_iff.mp hp
        obtain ⟨rfl, rfl⟩ := Prod.mk.inj (Option.some.inj hp)
        dsimp only at hm
        split at hm
        · rename_i hres
          obtain ⟨rfl, rfl⟩ := Prod.mk.inj (Option.some.inj hm)
          exact .noTable hlt h0 hv hres
        · rename_i hres
          rw [not_not] at hres
          rw [if_pos hres] at hm
          exact .page hlt h0 (by rw [← hres]; exact hv) (ih hm)
    · rename_i hlt
      obtain ⟨rfl, rfl⟩ := Prod.mk.inj (Option.some.inj hm)
      exact .done hlt

theorem unmapPages_unmapRun (hm : unmapPages new n h = some h') : ∃ as, UnmapRun new h as h' := by
  induction n generalizing h with
  | zero => exact absurd hm (by simp [unmapPages])
  | succ n ih =>
    rw [unmapPages] at hm
    dsimp only at hm
    split at hm
    · rename_i hpage
      obtain ⟨⟨res, e⟩, hu, hm⟩ := Option.bind_eq_some_iff.mp hm
      obtain ⟨as, hrun⟩ := ih hm
      exact ⟨_, .page hpage hu hrun⟩
    · rename_i hpage
      obtain rfl := Option.some.inj hm
      exact ⟨[], .done hpage⟩

/-- **A call of `sbrk`** that returns has done one of these. -/
theorem sbrk_done (hs : sbrk increment h = some (r, h')) : SbrkDone h increment r h' := by
  rw [sbrk] at hs
  split at hs
  · rename_i h0
    obtain ⟨rfl, rfl⟩ := Prod.mk.inj (Option.some.inj hs)
    exact .zero h0
  rename_i h0
  split at hs
  · rename_i hlt
    rw [incrementBrk] at hs
    dsimp only at hs
    split at hs
    · rename_i hmap
      obtain ⟨⟨ok, h₁⟩, hm, hs⟩ := Option.bind_eq_some_iff.mp hs
      have hrun := mapPages_rounds hm
      cases ok with
      | true =>
        obtain ⟨rfl, rfl⟩ := Prod.mk.inj (Option.some.inj hs)
        exact .grown (by omega) hlt hmap hrun
      | false =>
        obtain ⟨rfl, rfl⟩ := Prod.mk.inj (Option.some.inj hs)
        exact .failed (by omega) hlt hmap hrun
    · rename_i hmap
      obtain ⟨rfl, rfl⟩ := Prod.mk.inj (Option.some.inj hs)
      exact .noPages (by omega) hlt hmap
  · rename_i hge
    rw [decrementBrk] at hs
    split at hs
    · rename_i hlow
      obtain ⟨rfl, rfl⟩ := Prod.mk.inj (Option.some.inj hs)
      exact .refused (by omega) hlow
    · rename_i hroom
      obtain ⟨h₁, hm, hs⟩ := Option.bind_eq_some_iff.mp hs
      obtain ⟨rfl, rfl⟩ := Prod.mk.inj (Option.some.inj hs)
      obtain ⟨as, hrun⟩ := unmapPages_unmapRun hm
      exact .shrunk (by omega) (Nat.le_of_not_lt hroom) hrun

/-- **The rule for the loop of `increment_brk`** below the recursive window: `I` is kept by a
round that maps its page, and `Q` is passed back from the round after. -/
theorem mapPages_rule {I : Nat → Heap Machine → Prop}
    {Q : Nat → Heap Machine → Bool → Heap Machine → Prop} (htop : top ≤ 4290772992)
    (hdone : ∀ v h, I v h → ¬ v < top → Q v h true h)
    (hnoPage : ∀ v h, I v h → v < top → h.env.pmmAllocPage.1 = 0 →
      Q v h false { h with env := h.env.pmmAllocPage.2 })
    (hround : ∀ v h, I v h → v < top → h.env.pmmAllocPage.1 ≠ 0 → ∃ res e,
      h.env.pmmAllocPage.2.vmmPageMap h.env.pmmAllocPage.1 v 3 = some (res, e) ∧
      (res ≠ 0 → Q v h false { h with env := e.pmmFreePage h.env.pmmAllocPage.1 }) ∧
      (res = 0 → ∀ h₁, h₁ = { h with
          env := e, mem := showFrame e.ram h.env.pmmAllocPage.1 v h.mem } →
        I (v + 4096) h₁ ∧ ∀ ok h', Q (v + 4096) h₁ ok h' → Q v h ok h'))
    (hI : I vaddr h) (hn : top ≤ vaddr + n * 4096) :
    ∃ ok h', mapPages top (n + 1) vaddr h = some (ok, h') ∧ Q vaddr h ok h' := by
  induction n generalizing vaddr h with
  | zero =>
    refine ⟨true, h, ?_, hdone vaddr h hI (by omega)⟩
    rw [mapPages, if_neg (by omega)]
  | succ n ih =>
    by_cases hlt : vaddr < top
    · rw [mapPages, if_pos hlt]
      dsimp only
      by_cases h0 : h.env.pmmAllocPage.1 = 0
      · rw [if_pos h0]
        exact ⟨false, _, rfl, hnoPage vaddr h hI hlt h0⟩
      · obtain ⟨res, e, hm, hfail, hnext⟩ := hround vaddr h hI hlt h0
        have hmap : heapPageMap h.env.pmmAllocPage.1 vaddr 3 { h with env := h.env.pmmAllocPage.2 }
            = some (res, { h with
              env := e
              mem := if res = 0 then showFrame e.ram h.env.pmmAllocPage.1 vaddr h.mem
                else h.mem }) := by
          rw [heapPageMap, hm]
          rfl
        rw [if_neg h0, hmap, Option.bind_eq_bind, Option.bind_some]
        dsimp only
        by_cases hr : res ≠ 0
        · rw [if_pos hr, if_neg hr]
          exact ⟨false, _, rfl, hfail hr⟩
        · have hz := not_not.mp hr
          obtain ⟨hI', hback⟩ := hnext hz _ rfl
          rw [if_neg hr, if_pos hz, show u32 (vaddr + pageSize) = vaddr + 4096 from
            u32_of_lt (by rw [pageSize]; omega)]
          obtain ⟨ok, h', hk, hQ⟩ := ih hI' (by omega)
          exact ⟨ok, h', hk, hback ok h' hQ⟩
    · refine ⟨true, h, ?_, hdone vaddr h hI hlt⟩
      rw [mapPages, if_neg hlt]

end Done

variable {h h' : Heap Machine} {held : Set Nat} {n vaddr top increment : Nat}

/-- A round of the loop, where every page is mappable.  The frame of a page that could not be
mapped goes back; it is held, and a new table is another frame. -/
theorem Machine.Ok.mapRound {e : Machine} (hO : e.Ok held) (hv : Tables.Mappable vaddr)
    (h0 : e.pmmAllocPage.1 ≠ 0) : ∃ res e' held',
    e.pmmAllocPage.2.vmmPageMap e.pmmAllocPage.1 vaddr 3 = some (res, e') ∧ e'.Ok held' ∧
      ∃ held'', (e'.pmmFreePage e.pmmAllocPage.1).Ok held'' := by
  obtain ⟨hO₁, ht₁, -, hnew⟩ := hO.pmmAllocPage Prod.mk.eta.symm
  rw [heldAfter, if_neg h0] at hO₁
  obtain ⟨res, e', held', hm, hO', hsub, -, hold⟩ := hO₁.vmmPageMap hv e.pmmAllocPage.1 3
  refine ⟨res, e', held', hm, hO', _, hO'.pmmFreePage (hsub (Set.mem_insert _ _)) ?_⟩
  intro f hf hu
  have hu := hold f (hf ▸ Set.mem_insert _ _) hu
  rw [ht₁] at hu
  exact (hnew h0).1 (hf ▸ hO.inUse f hu)

/-- **The mapping loop** changes no byte below the first page it maps. -/
theorem mapPages_spec (hO : h.env.Ok held) (hal : vaddr % 4096 = 0) (hlo : 3225419776 ≤ vaddr)
    (htop : top ≤ 4290772992) (hn : top ≤ vaddr + n * 4096) :
    ∃ ok h' held', mapPages top (n + 1) vaddr h = some (ok, h') ∧ h'.heapStart = h.heapStart ∧
      h'.programBreakPoint = h.programBreakPoint ∧ (∀ x < vaddr, h'.mem x = h.mem x) ∧
      h'.env.Ok held' := by
  suffices hrule : ∃ ok h', mapPages top (n + 1) vaddr h = some (ok, h') ∧ ∃ held',
      h'.heapStart = h.heapStart ∧ h'.programBreakPoint = h.programBreakPoint ∧
      (∀ x < vaddr, h'.mem x = h.mem x) ∧ h'.env.Ok held' by
    obtain ⟨ok, h', hm, held', hst, hb, hx, hO'⟩ := hrule
    exact ⟨ok, h', held', hm, hst, hb, hx, hO'⟩
  refine mapPages_rule
    (I := fun v h => (∃ held, h.env.Ok held) ∧ v % 4096 = 0 ∧ 3225419776 ≤ v)
    (Q := fun v h _ h' => ∃ held', h'.heapStart = h.heapStart ∧
      h'.programBreakPoint = h.programBreakPoint ∧ (∀ x < v, h'.mem x = h.mem x) ∧
      h'.env.Ok held') htop ?_ ?_ ?_ ⟨⟨held, hO⟩, hal, hlo⟩ hn
  · rintro v h ⟨⟨held, hO⟩, -, -⟩ -
    exact ⟨held, rfl, rfl, fun _ _ => rfl, hO⟩
  · rintro v h ⟨⟨held, hO⟩, -, -⟩ - -
    exact ⟨_, rfl, rfl, fun _ _ => rfl, (hO.pmmAllocPage Prod.mk.eta.symm).1⟩
  · rintro v h ⟨⟨held, hO⟩, hal, hlo⟩ hlt h0
    obtain ⟨res, e', held', hm, hO', held'', hfree⟩ := hO.mapRound
      (show Tables.Mappable v from ⟨by omega, by omega, by omega, by omega⟩) h0
    refine ⟨res, e', hm, fun _ => ⟨held'', rfl, rfl, fun _ _ => rfl, hfree⟩, ?_⟩
    rintro - h₁ rfl
    refine ⟨⟨⟨held', hO'⟩, by omega, by omega⟩, ?_⟩
    rintro ok h' ⟨held₂, hst, hb, hx, hO₂⟩
    refine ⟨held₂, hst, hb, fun x hlt => (hx x (by omega)).trans ?_, hO₂⟩
    exact if_neg (by omega)

/-- **A positive increment** below the window fails or moves the break. -/
theorem sbrk_grows (hO : h.env.Ok held) (hpos : 0 < increment) (hlt : increment < 2147483648)
    (hlo : 3225419776 ≤ h.programBreakPoint)
    (hle : h.programBreakPoint + increment ≤ 4290772992) :
    ∃ r h' held', sbrk increment h = some (r, h') ∧ SbrkReturns h increment r h' ∧
      h'.env.Ok held' := by
  have hnew : u32 (h.programBreakPoint + increment) = h.programBreakPoint + increment :=
    u32_of_lt (by omega)
  have hgrown : SbrkReturns h increment h.programBreakPoint
      { h with programBreakPoint := h.programBreakPoint + increment } :=
    ⟨rfl, fun _ _ => rfl, .inr ⟨rfl, rfl, hle⟩⟩
  rw [sbrk, if_neg (by omega), if_pos hlt, incrementBrk]
  dsimp only
  rw [hnew]
  by_cases hmap : pageRoundUp h.programBreakPoint < pageRoundUp (h.programBreakPoint + increment)
  · rw [if_pos hmap]
    have hcur : pageRoundUp h.programBreakPoint % 4096 = 0 ∧
        h.programBreakPoint ≤ pageRoundUp h.programBreakPoint := by
      rw [pageRoundUp, u32_of_lt (by omega)]
      omega
    have htop : pageRoundUp (h.programBreakPoint + increment) ≤ 4290772992 := by
      rw [pageRoundUp, u32_of_lt (by omega)]
      omega
    obtain ⟨ok, h', held', hk, hs, hb, hx, hO'⟩ := mapPages_spec (n := 1048576) hO hcur.1
      (by omega) htop (by omega)
    rw [show pageFuel = 1048576 + 1 from rfl, hk, Option.bind_eq_bind, Option.bind_some]
    have hbelow : ∀ x < h.programBreakPoint, h'.mem x = h.mem x := fun x hlt => hx x (by omega)
    cases ok with
    | true =>
      exact ⟨_, _, held', rfl, ⟨hs, hbelow, .inr ⟨rfl, rfl, hle⟩⟩, hO'⟩
    | false => exact ⟨_, _, held', rfl, ⟨hs, hbelow, .inl ⟨rfl, hb⟩⟩, hO'⟩
  · rw [if_neg hmap]
    exact ⟨_, _, held, rfl, hgrown, hO⟩

/-- **A negative increment** that leads below the heap is refused. -/
theorem sbrk_refused (hlo : 3225419776 ≤ h.programBreakPoint)
    (hge : 2147483648 ≤ increment) (hlt : increment < 4294967296)
    (hbelow : h.programBreakPoint + increment < h.heapStart + 4294967296)
    (hbrk : h.programBreakPoint < 4294967296) :
    sbrk increment h = some (sbrkFailed, h) := by
  have hnew : sub32 h.programBreakPoint (4294967296 - increment)
      = h.programBreakPoint + increment - 4294967296 := by
    simp only [sub32, u32]
    omega
  rw [sbrk, if_neg (by omega), if_neg (by omega), decrementBrk, hnew, if_pos (by omega)]
  rfl

end ChoOS
