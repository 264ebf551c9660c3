import ChoOS.Paging.Directory

/-!
# The paging side of the kernel

`Machine` is what stands behind the heap: the frame allocator, the page tables
and the bytes of the frames.  `issued` is history, the frames that were handed
out since `pmm_directory_init`, its own two included.

`Machine.Ok` joins the two invariants: every frame that holds a table is held,
so that `pmm_alloc_page` never returns one and `vmm_page_map` always finds a
frame of its own for a new table.  Each operation keeps it.
-/

namespace ChoOS

structure Machine where
  frames : Frames
  tables : Tables
  ram : Nat → UInt8
  issued : List Nat

namespace Machine

def pmmAllocPage (e : Machine) : Nat × Machine :=
  let (r, s) := ChoOS.pmmAllocPage e.frames
  (r, { e with frames := s, issued := if r = 0 then e.issued else r :: e.issued })

def pmmFreePage (a : Nat) (e : Machine) : Machine :=
  { e with frames := ChoOS.pmmFreePage a e.frames }

def vmmPageMap (phys virt flags : Nat) (e : Machine) : Option (Int × Machine) := do
  let (res, t, e') ← ChoOS.vmmPageMap pmmAllocPage phys virt flags e.tables e
  return (res, { e' with tables := t })

def vmmPageUnmap (virt : Nat) (e : Machine) : Option (Int × Machine) := do
  let (res, t) ← ChoOS.vmmPageUnmap virt e.tables
  return (res, { e with tables := t })

/-- The machine after `pmm_directory_init`. -/
def start (s : Frames) (t : Tables) (ram : Nat → UInt8) : Machine :=
  ⟨s, t, ram, [(t.pde 0).frame * 4096, t.cr3 * 4096]⟩

/-- The invariant: `held` are the frames in use, tables among them. -/
structure Ok (e : Machine) (held : Set Nat) : Prop where
  frames : ∃ res, e.frames.Inv res held
  tables : e.tables.Inv
  inUse : ∀ f, e.tables.InUse f → f * 4096 ∈ held

variable {e e' : Machine} {held : Set Nat} {r a phys virt flags f : Nat}

theorem start_ok {kernelEnd : Nat} {mbd : Multiboot} {s : Frames} {t : Tables} {d c : Nat}
    (h : Initialised kernelEnd mbd s t d c) (ram : Nat → UInt8) :
    (start s t ram).Ok {c * 4096, d * 4096} := by
  obtain ⟨bitmap, _, hI⟩ := h.owned
  refine ⟨⟨bitmap, hI⟩, h.inv, fun f hf => ?_⟩
  rcases h.inUse hf with rfl | rfl
  · exact .inr rfl
  · exact .inl rfl

theorem frameOf_of_aligned (h : a % 4096 = 0) (hlt : a / 4096 < 1048576) :
    (frameOf a : Nat) * 4096 = a := by
  rw [frameOf, Fin.val_ofNat, Nat.mod_eq_of_lt hlt]
  omega

theorem Ok.null (hO : e.Ok held) : e.frames.bitmap.testBit 0 := by
  obtain ⟨res, hI⟩ := hO.frames
  exact hI.owned.reserved 0 hI.owned.null

/-- **`pmm_alloc_page`** hands out a frame that was not held. -/
theorem Ok.pmmAllocPage (hO : e.Ok held) (h : e.pmmAllocPage = (r, e')) :
    e'.Ok (heldAfter held r) ∧ e'.tables = e.tables ∧ e'.ram = e.ram ∧
      (r ≠ 0 → r ∉ held ∧ (frameOf r : Nat) * 4096 = r ∧ r / 4096 < 1048576) := by
  obtain ⟨res, hI⟩ := hO.frames
  have h1 : (ChoOS.pmmAllocPage e.frames).1 = r := congrArg Prod.fst h
  obtain ⟨s, hs⟩ : ∃ s, ChoOS.pmmAllocPage e.frames = (r, s) := ⟨_, Prod.ext h1 rfl⟩
  obtain ⟨hI', hf⟩ := pmmAllocPage_spec hI hs
  have he' : e' = { e with frames := s, issued := if r = 0 then e.issued else r :: e.issued } := by
    have := congrArg Prod.snd h
    simp only [Machine.pmmAllocPage, hs] at this
    exact this.symm
  rw [he']
  refine ⟨⟨⟨res, hI'⟩, hO.tables, fun f hf => ?_⟩, rfl, rfl, fun h0 => ?_⟩
  · have := hO.inUse f hf
    rw [heldAfter]
    split
    · exact this
    · exact .inr this
  · have ht := (hf h0).taken
    exact ⟨(hf h0).not_held, frameOf_of_aligned ht.aligned ht.lt, ht.lt⟩

theorem Ok.not_inUse (hO : e.Ok held) (ha : a ∉ held) (hf : (frameOf a : Nat) * 4096 = a) :
    ¬ e.tables.InUse (frameOf a) := fun hu => ha (hf ▸ hO.inUse _ hu)

/-- **`vmm_page_map`** returns; what was held stays held, and no held frame
becomes a table. -/
theorem Ok.vmmPageMap (hO : e.Ok held) (hv : Tables.Mappable virt) (phys flags : Nat) :
    ∃ res e' held', e.vmmPageMap phys virt flags = some (res, e') ∧ e'.Ok held' ∧
      held ⊆ held' ∧ e'.ram = e.ram ∧
      (∀ f, f * 4096 ∈ held → e'.tables.InUse f → e.tables.InUse f) := by
  obtain ⟨r, e₁, h₁⟩ : ∃ r e₁, e.pmmAllocPage = (r, e₁) := ⟨_, _, rfl⟩
  obtain ⟨hO₁, ht₁, hr₁, hnew⟩ := hO.pmmAllocPage h₁
  have hfresh : e.pmmAllocPage.1 ≠ 0 → ¬ e.tables.InUse (frameOf e.pmmAllocPage.1) := by
    rw [h₁]
    exact fun h0 => hO.not_inUse (hnew h0).1 (hnew h0).2.1
  obtain ⟨res, t', e₂, hm, hI', hres⟩ :=
    Tables.vmmPageMap_spec Machine.pmmAllocPage e hO.tables hv hfresh phys flags
  have hrun : e.vmmPageMap phys virt flags = some (res, { e₂ with tables := t' }) := by
    rw [Machine.vmmPageMap, hm]
    rfl
  have hi := hv.dir_lt
  cases hres with
  | entry hp hmap hd =>
    have hused : ∀ f, t'.InUse f → e.tables.InUse f := by
      intro f hu
      rcases hu with rfl | ⟨i, hi', hpi, rfl⟩
      · exact .inl (by rw [hmap.cr3])
      · have hsame : t'.pde i = e.tables.pde i := by
          by_cases hiv : i = virt / 4194304
          · rw [hiv, hd]
          · exact hmap.fixed i (by omega) hiv
        rw [hsame] at hpi ⊢
        exact .inr ⟨i, hi', hpi, rfl⟩
    exact ⟨0, _, held, hrun, ⟨hO.frames, hI', fun f hu => hO.inUse f (hused f hu)⟩, subset_rfl,
      rfl, fun f _ hu => hused f hu⟩
  | table hp h0 hmap hd =>
    rw [h₁] at h0 hd hrun
    have hused : ∀ f, t'.InUse f → e.tables.InUse f ∨ f = frameOf r := by
      intro f hu
      rcases hu with rfl | ⟨i, hi', hpi, rfl⟩
      · exact .inl (.inl (by rw [hmap.cr3]))
      · by_cases hiv : i = virt / 4194304
        · rw [hiv, hd]
          exact .inr rfl
        · rw [hmap.fixed i (by omega) hiv] at hpi ⊢
          exact .inl (.inr ⟨i, hi', hpi, rfl⟩)
    have hsub : held ⊆ heldAfter held r := by
      rw [heldAfter, if_neg h0]
      exact Set.subset_insert _ _
    refine ⟨0, _, heldAfter held r, hrun, ⟨hO₁.frames, hI', fun f hu => ?_⟩, hsub, hr₁,
      fun f hf hu => ?_⟩
    · rcases hused f hu with hu | rfl
      · exact hsub (hO.inUse f hu)
      · rw [(hnew h0).2.1, heldAfter, if_neg h0]
        exact Set.mem_insert _ _
    · rcases hused f hu with hu | rfl
      · exact hu
      · rw [(hnew h0).2.1] at hf
        exact absurd hf (hnew h0).1
  | noMemory hp h0 =>
    rw [h₁] at h0 hrun
    rw [heldAfter, if_pos h0] at hO₁
    exact ⟨enomem, _, held, hrun, ⟨hO₁.frames, hI', hO.inUse⟩, subset_rfl, hr₁, fun f _ hu => hu⟩

/-- **`pmm_free_page`** of a held frame that is not a table. -/
theorem Ok.pmmFreePage (hO : e.Ok held) (ha : a ∈ held)
    (hu : ∀ f, f * 4096 = a → ¬ e.tables.InUse f) : (e.pmmFreePage a).Ok (held \ {a}) := by
  obtain ⟨res, hI⟩ := hO.frames
  exact ⟨⟨res, pmmFreePage_spec hI ha⟩, hO.tables,
    fun f hf => ⟨hO.inUse f hf, fun he => hu f he hf⟩⟩

end Machine

end ChoOS
