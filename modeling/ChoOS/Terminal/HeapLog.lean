import ChoOS.Heap.Run
import ChoOS.Libc.Decimal
import ChoOS.Terminal.Console

/-!
# The log of the heap

`kernel_debug_log_heap_info` walks the blocks of the heap and prints a line for each.
`%d` of a `size_t` and `%x` of a pointer take the word that was passed.

`heap_log` is the text for every heap that a run of the allocator leads to: the walk
ends at the end block, a line has the number, the address and the room of its block
in digits, it says `USED` for the blocks that a client holds, and the rooms and the
headers add up to the whole heap.
-/

namespace ChoOS

variable {ε : Type}

/-! ### The code -/

/-- `node->free ? "FREE" : "USED"` -/
def freeOrUsed (m : ByteMem) (node : Nat) : CString :=
  if blockFree m node ≠ 0 then ⟨bytes "FREE", by decide⟩ else ⟨bytes "USED", by decide⟩

/-- The call of `printf` in the loop. -/
def heapLogLine (m : ByteMem) (i node : Nat) : PrintCall :=
  printf ⟨bytes "idx: %d; ptr: 0x%x; free: %s; available space: %d\n", by decide⟩
    [.int (Int32.ofNat i), .unsigned (UInt32.ofNat node), .string (freeOrUsed m node),
      .int (Int32.ofNat (internalHeapBlockGetAvailableSpace m node))]

/-- `while (!node->EOM)` -/
def heapLogLoop (m : ByteMem) : Nat → Nat → Nat → Option (List PrintCall)
  | 0, _, _ => none
  | fuel + 1, i, node =>
    if blockEOM m node ≠ 0 then some []
    else (heapLogLoop m fuel (i + 1) (blockNext m node)).map (heapLogLine m i node :: ·)

def kernelDebugLogHeapInfo (filename : CString) (line : Int32) (h : Heap ε) :
    Option (List PrintCall) := do
  let lines ← heapLogLoop h.mem walkFuel 0 h.heapStart
  return printf ⟨bytes "%s:%d: logged heap\n", by decide⟩ [.string filename, .int line] ::
    printf ⟨bytes "------HEAPBLOCKS------\n", by decide⟩ [] ::
    (lines ++ [printf ⟨bytes "----END-HEAPBLOCKS----\n", by decide⟩ []])

/-! ### Numbers in a format -/

/-- The numeral of a number, `Numeral base n` of `Numeral.lean`. -/
def numeralChars (base n : Nat) : List UInt8 := (digitChars base n).reverse

theorem textOf_prints {g : CharArray → Option CharArray} {t : List UInt8} (h : Prints g t) :
    Conversion.textOf g = some t := by
  have hb := h.eq fun _ => 0
  rw [Conversion.textOf, hb, Option.map_some, h.chars hb]

theorem text_d {n : Nat} (h : n < 2147483648) :
    Conversion.text .d (.int (Int32.ofNat n)) = some (numeralChars 10 n) := by
  have hint : (Int32.ofNat n).toInt = n := Int32.toInt_ofNat_of_lt h
  refine textOf_prints ?_
  rcases Nat.eq_zero_or_pos n with rfl | hpos
  · exact itoa_prints_zero rfl
  · have hprints : Prints (itoa (Int32.ofNat n) 10) (remChars 10 33 (Int32.ofNat n).toInt).reverse :=
      itoa_prints_pos (by omega)
    rwa [hint, remChars_natCast 33 n hpos (by omega)] at hprints

theorem text_x {n : Nat} (h : n < 4294967296) :
    Conversion.text .x (.unsigned (UInt32.ofNat n)) = some (numeralChars 16 n) := by
  have hprints := utoa_prints (UInt32.ofNat n) (show 1 < 16 by decide) (by decide)
  rw [UInt32.toNat_ofNat_of_lt' h] at hprints
  exact textOf_prints hprints

theorem numeralChars_length {base n : Nat} (hb : 1 < base) (hb' : base ≤ 36) (hn : n < base ^ 32) :
    (numeralChars base n).length ≤ 32 := by
  rw [numeralChars, List.length_reverse]
  exact (digitChars_spec n hb hb').2 32 (by decide) hn

/-! ### The text -/

/-- The line of a block. -/
def blockLine (i b room : Nat) (used : Bool) : List UInt8 :=
  bytes "idx: " ++ numeralChars 10 i ++ bytes "; ptr: 0x" ++ numeralChars 16 b ++ bytes "; free: " ++
    (if used then bytes "USED" else bytes "FREE") ++ bytes "; available space: " ++
    numeralChars 10 room ++ bytes "\n"

theorem blockLine_length {i b room : Nat} {used : Bool} (hi : i < 2147483648)
    (hb : b < 4294967296) (hroom : room < 2147483648) :
    (blockLine i b room used).length ≤ intMax := by
  have h1 := numeralChars_length (show 1 < 10 by decide) (by decide) (show i < 10 ^ 32 by omega)
  have h2 := numeralChars_length (show 1 < 16 by decide) (by decide) (show b < 16 ^ 32 by omega)
  have h3 := numeralChars_length (show 1 < 10 by decide) (by decide) (show room < 10 ^ 32 by omega)
  have hlens : (bytes "idx: ").length = 5 ∧ (bytes "; ptr: 0x").length = 9 ∧
      (bytes "; free: ").length = 8 ∧ (bytes "; available space: ").length = 19 ∧
      (bytes "\n").length = 1 ∧
      ∀ used : Bool, (if used then bytes "USED" else bytes "FREE").length = 4 := by
    decide
  simp only [blockLine, List.length_append, hlens, intMax]
  omega

theorem says_heapLogLine {m : ByteMem} {i b : Nat} (hi : i < 2147483648) (hb : b < 4294967296)
    (hroom : internalHeapBlockGetAvailableSpace m b < 2147483648) :
    (heapLogLine m i b).Says
      (blockLine i b (internalHeapBlockGetAvailableSpace m b) (blockFree m b == 0)) := by
  have hformat : bytes "idx: %d; ptr: 0x%x; free: %s; available space: %d\n" = bytes "idx: " ++
      0x25 :: (Conversion.d.spelling ++ (bytes "; ptr: 0x" ++ 0x25 :: (Conversion.x.spelling ++
        (bytes "; free: " ++ 0x25 :: (Conversion.s.spelling ++ (bytes "; available space: " ++
          0x25 :: (Conversion.d.spelling ++ bytes "\n"))))))) := by decide
  have hs : (freeOrUsed m b).chars
      = if blockFree m b == 0 then bytes "USED" else bytes "FREE" := by
    by_cases hf : blockFree m b = 0 <;> simp [freeOrUsed, hf]
  have hknown : Known (heapLogLine m i b).format.chars (heapLogLine m i b).args
      (blockLine i b (internalHeapBlockGetAvailableSpace m b) (blockFree m b == 0)) [] := by
    simp only [blockLine, ← hs, List.append_assoc]
    change Known (bytes "idx: %d; ptr: 0x%x; free: %s; available space: %d\n") _ _ _
    rw [hformat]
    exact .literals (by decide) <| .conversion (text_d hi) <| .literals (by decide) <|
      .conversion (text_x hb) <| .literals (by decide) <| .conversion rfl <|
      .literals (by decide) <| .conversion (text_d hroom) <| .last (by decide)
  exact .of_known hknown (blockLine_length hi hb hroom)

/-- The text of the whole log. -/
def heapLogText (filename : CString) (line : Nat) (h : Heap ε) (live : Live) (bs : List Nat) :
    List UInt8 :=
  filename.chars ++ bytes ":" ++ numeralChars 10 line ++ bytes ": logged heap\n" ++
    bytes "------HEAPBLOCKS------\n" ++
    (bs.zipIdx.flatMap fun (b, i) => blockLine i b (blockNext h.mem b - b - 8) (live (b + 8)).isSome) ++
    bytes "----END-HEAPBLOCKS----\n"

/-! ### The walk -/

/-- **The loop visits the blocks.** -/
theorem heapLogLoop_eq {m : ByteMem} {stop : Nat} (hstop : blockEOM m stop ≠ 0) :
    ∀ (bs : List Nat) (fuel i start : Nat), Seg (blockNext m) start bs stop →
      (∀ b ∈ bs, blockEOM m b = 0) → bs.length < fuel →
      heapLogLoop m fuel i start = some ((bs.zipIdx i).map fun (b, k) => heapLogLine m k b) := by
  intro bs
  induction bs with
  | nil =>
    intro fuel i start hseg _ hfuel
    obtain ⟨fuel, rfl⟩ : ∃ n, fuel = n + 1 := ⟨fuel - 1, by simp at hfuel; omega⟩
    obtain rfl : start = stop := hseg
    rw [heapLogLoop, if_pos hstop]
    rfl
  | cons b bs ih =>
    intro fuel i start hseg hEOM hfuel
    obtain ⟨fuel, rfl⟩ : ∃ n, fuel = n + 1 := ⟨fuel - 1, by simp at hfuel; omega⟩
    obtain ⟨rfl, hseg⟩ := hseg
    have hb : ¬ blockEOM m start ≠ 0 := not_not.mpr (hEOM start (by simp))
    rw [heapLogLoop, if_neg hb, ih fuel (i + 1) _ hseg (fun x hx => hEOM x (by simp [hx]))
      (by simpa using hfuel)]
    rfl

theorem Seg.sum_eq {next : Nat → Nat} {stop : Nat} : ∀ (bs : List Nat) (start : Nat),
    Seg next start bs stop → (∀ b ∈ bs, b ≤ next b) →
    (bs.map fun b => next b - b).sum + start = stop := by
  intro bs
  induction bs with
  | nil =>
    intro start hseg _
    obtain rfl : start = stop := hseg
    exact Nat.zero_add _
  | cons b bs ih =>
    intro start hseg hle
    obtain ⟨rfl, hseg⟩ := hseg
    have hrest := ih _ hseg fun x hx => hle x (by simp [hx])
    have hfirst := hle start (by simp)
    rw [List.map_cons, List.sum_cons]
    omega

theorem says_heapLogHeader {filename : CString} {line : Nat} (hline : line < 2147483648)
    (hname : filename.chars.length + 64 ≤ intMax) :
    (printf ⟨bytes "%s:%d: logged heap\n", by decide⟩ [.string filename, .int (Int32.ofNat line)]).Says
      (filename.chars ++ bytes ":" ++ numeralChars 10 line ++ bytes ": logged heap\n") := by
  have hformat : bytes "%s:%d: logged heap\n" = 0x25 :: (Conversion.s.spelling ++ (bytes ":" ++
      0x25 :: (Conversion.d.spelling ++ bytes ": logged heap\n"))) := by decide
  have hknown : Known (bytes "%s:%d: logged heap\n") [.string filename, .int (Int32.ofNat line)]
      (filename.chars ++ (bytes ":" ++ (numeralChars 10 line ++ bytes ": logged heap\n"))) [] := by
    rw [hformat]
    exact .conversion rfl <| .literals (by decide) <| .conversion (text_d hline) <| .last (by decide)
  have hnum := numeralChars_length (show 1 < 10 by decide) (by decide) (show line < 10 ^ 32 by omega)
  have hlens : (bytes ":").length = 1 ∧ (bytes ": logged heap\n").length = 14 := by decide
  rw [List.append_assoc, List.append_assoc]
  refine .of_known hknown ?_
  simp only [List.length_append, hlens]
  omega

theorem says_literal {s : String} (h0 : 0 ∉ bytes s) (h : 0x25 ∉ bytes s)
    (hs : (bytes s).length ≤ intMax) : (printf ⟨bytes s, h0⟩ []).Says (bytes s) :=
  .of_known (.last h) hs

/-! ### The log -/

section Log

variable {h : Heap ε} {live : Live} {bs : List Nat}

theorem says_heapLogLines (hI : h.Inv live bs) (hstart : 2147483648 ≤ h.heapStart) :
    List.Forall₂ PrintCall.Says (bs.zipIdx.map fun (b, k) => heapLogLine h.mem k b)
      (bs.zipIdx.map fun (b, k) =>
        blockLine k b (blockNext h.mem b - b - 8) (live (b + 8)).isSome) := by
  have hseg := hI.blocks.seg.le hI.blocks.step
  have hbrk := HeapInv.brk_le hI
  rw [List.forall₂_map_left_iff, List.forall₂_map_right_iff, List.forall₂_same]
  rintro ⟨b, k⟩ hmem
  obtain ⟨-, hk, hget⟩ := List.mem_zipIdx hmem
  have hb : b ∈ bs := hget ▸ List.getElem_mem _
  have hbounds := HeapInv.bounds hI hb
  have hroom := hI.blocks.availableSpace hb
  have hused : (blockFree h.mem b == 0) = (live (b + 8)).isSome := by
    rw [Bool.eq_iff_iff, beq_iff_eq]
    exact hI.used b hb
  dsimp only
  rw [← hroom, ← hused]
  exact says_heapLogLine (by omega) (by omega) (by omega)

/-- **The log of a heap** whose blocks lie in the higher half. -/
theorem heapLog_of_inv (hI : h.Inv live bs) (hstart : 2147483648 ≤ h.heapStart)
    {filename : CString} {line : Nat} (hline : line < 2147483648)
    (hname : filename.chars.length + 64 ≤ intMax) :
    ∃ calls, kernelDebugLogHeapInfo filename (Int32.ofNat line) h = some calls ∧
      ∀ stack t, PrintCall.runAll stack calls t
        = some (t.terminalWrite (heapLogText filename line h live bs)) := by
  have hend : blockEOM h.mem (h.programBreakPoint - 8) ≠ 0 := by
    rw [hI.blocks.endEOM]
    decide
  have hloop := heapLogLoop_eq hend bs walkFuel 0 _ hI.blocks.seg hI.blocks.notEOM
    hI.blocks.length_lt
  refine ⟨_, by rw [kernelDebugLogHeapInfo, hloop]; rfl, ?_⟩
  intro stack t
  have htop : 0 ∉ bytes "------HEAPBLOCKS------\n" ∧ 0x25 ∉ bytes "------HEAPBLOCKS------\n" ∧
      (bytes "------HEAPBLOCKS------\n").length ≤ intMax := by decide
  have hbottom : 0 ∉ bytes "----END-HEAPBLOCKS----\n" ∧ 0x25 ∉ bytes "----END-HEAPBLOCKS----\n" ∧
      (bytes "----END-HEAPBLOCKS----\n").length ≤ intMax := by decide
  have hlast := List.rel_append (says_heapLogLines hI hstart)
    (.cons (says_literal hbottom.1 hbottom.2.1 hbottom.2.2) .nil)
  have htexts := List.Forall₂.cons (says_heapLogHeader hline hname)
    (.cons (says_literal htop.1 htop.2.1 htop.2.2) hlast)
  refine (PrintCall.runAll_eq htexts stack t).trans ?_
  simp only [heapLogText, List.flatten_cons, List.flatten_append, List.flatten_nil,
    List.append_nil, List.append_assoc, List.flatMap]

end Log

theorem heapStart_higher {kernelEnd : Nat} (h : 0xC0100000 ≤ kernelEnd ∧ kernelEnd < 0xC0400000) :
    2147483648 ≤ heapStartAddr kernelEnd := by
  have hu : u32 (kernelEnd + pageSize) = kernelEnd + 4096 :=
    u32_of_lt (by simp only [pageSize]; omega)
  rw [heapStartAddr]
  split
  · rw [hu, pageRoundDown]
    omega
  · omega

theorem heapStart_run {h₀ : Heap ε} {es : List HeapEvent} {c : Client ε}
    (hI : Client.Inv ⟨h₀, fun _ => none⟩)
    (hrun : Trace (HeapStep smallCalls) ⟨h₀, fun _ => none⟩ es c) :
    c.heap.heapStart = h₀.heapStart := by
  have hboth : c.Inv ∧ c.heap.heapStart = h₀.heapStart := by
    refine hrun.invariant (I := fun c => c.Inv ∧ c.heap.heapStart = h₀.heapStart) ⟨hI, rfl⟩ ?_
    rintro c e c' ⟨hI, hstart⟩ hstep
    exact ⟨hstep.inv legalCalls_small hI, (hstep.heapStart legalCalls_small hI).trans hstart⟩
  exact hboth.2

/-- **The log of every heap that a run leads to** is the list of its blocks.  What the
lines say is free or used adds up to the heap, with eight bytes for each header and
the end block. -/
theorem heap_log {kernelEnd : Nat} {m : ByteMem} {env : ε} {h₀ : Heap ε} {es : List HeapEvent}
    {c : Client ε} (hinit : heapInit kernelEnd m env = some h₀)
    (himage : 0xC0100000 ≤ kernelEnd ∧ kernelEnd < 0xC0400000)
    (hrun : Trace (HeapStep smallCalls) ⟨h₀, fun _ => none⟩ es c)
    {filename : CString} {line : Nat} (hline : line < 2147483648)
    (hname : filename.chars.length + 64 ≤ intMax) :
    ∃ bs, HeapShape c.heap c.live bs ∧
      c.heap.heapStart + (bs.map fun b => 8 + (blockNext c.heap.mem b - b - 8)).sum + 8
        = c.heap.programBreakPoint ∧
      ∃ calls, kernelDebugLogHeapInfo filename (Int32.ofNat line) c.heap = some calls ∧
        ∀ stack t, PrintCall.runAll stack calls t
          = some (t.terminalWrite (heapLogText filename line c.heap c.live bs)) := by
  obtain ⟨hstart₀, -, hI₀⟩ := heapInit_spec hinit
  obtain ⟨bs, hI⟩ := heap_run_inv legalCalls_small ⟨_, hI₀⟩ hrun
  have hI : c.heap.Inv c.live bs := hI
  have hstart : c.heap.heapStart = heapStartAddr kernelEnd :=
    (heapStart_run ⟨_, hI₀⟩ hrun).trans hstart₀
  refine ⟨bs, hI.shape, ?_, heapLog_of_inv hI (hstart ▸ heapStart_higher himage) hline hname⟩
  have hsum := Seg.sum_eq bs _ hI.blocks.seg fun b hb => by
    have := hI.blocks.step b hb
    omega
  have hrooms : (bs.map fun b => 8 + (blockNext c.heap.mem b - b - 8))
      = bs.map fun b => blockNext c.heap.mem b - b := by
    refine List.map_congr_left fun b hb => ?_
    have := hI.blocks.step b hb
    omega
  have h8 := HeapInv.le_brk hI
  rw [hrooms]
  omega

/-- The log behind a run that grows the heap. -/
theorem heap_log_unbounded : ∃ h₀ c, heapInit 0xC0120000 (fun _ => 0) () = some h₀ ∧
    Trace (HeapStep smallCalls) ⟨h₀, fun _ => none⟩
      [.kmalloc 0x400000 0xC0400000, .kmalloc 10 0xC0120008, .write 0xC0120008 3 7,
        .read 0xC0120008 3 7, .kfree 0xC0120008] c ∧
    ∃ calls, kernelDebugLogHeapInfo ⟨bytes "kernel.c", by decide⟩ 67 c.heap = some calls := by
  obtain ⟨h₀, c, hinit, hrun⟩ := sbrkUnbounded_run
  have hname : (⟨bytes "kernel.c", by decide⟩ : CString).chars.length + 64 ≤ intMax := by decide
  obtain ⟨bs, -, -, calls, hcalls, -⟩ :=
    heap_log hinit (by decide) hrun (show 67 < 2147483648 by decide) hname
  exact ⟨h₀, c, hinit, hrun, calls, hcalls⟩

end ChoOS
