import ChoOS.Interrupts.Idt
import ChoOS.Terminal.Console

/-!
# Exceptions

From the processor through the table, a stub and `isr_handler` to `abort`.

The processor pushes an error code for some exceptions and for no `int`, and the
macro of a stub makes up for it or not.  `trap_frame` is what `struct Registers` is
laid over in each of the four cases: the number and the general registers are
always right, and the words from `err_code` on are shifted when the macro does not
fit.  That is so for the alignment check, and for an `int` of user code to a vector
whose stub expects an error code.  The message of `abort` needs the number only,
so every exception ends with its own (`exception_panics`).
-/

namespace ChoOS

/-- The exceptions for which the processor pushes an error code. -/
def pushesErrorCode (num : BitVec 32) : Bool := [8, 10, 11, 12, 13, 14, 17].contains num

namespace I386

/-- The interrupt and the macro. -/
def trap (isr : BitVec 32 × Bool) (err : Option (BitVec 32)) (c : I386) : I386 :=
  let c := c.interrupt err
  if isr.2 then c.isrErrCode isr.1 else c.isrNoErrCode isr.1

/-- What they push, the first word first. -/
def trapWords (isr : BitVec 32 × Bool) (err : Option (BitVec 32)) (c : I386) : List (BitVec 32) :=
  [c.eflags, c.cs.setWidth 32, c.eip] ++ err.toList ++ if isr.2 then [isr.1] else [0, isr.1]

/-- What a handler reads that was called for `num`: the general registers of `c`, and
the words from `err_code` to `eflags`. -/
structure Trapped (c : I386) (num errCode eip cs eflags : BitVec 32) (regs : Registers) : Prop where
  cr2 : regs.cr2 = c.cr2
  ds : regs.ds = c.ds.setWidth 32
  edi : regs.edi = c.edi
  esi : regs.esi = c.esi
  ebp : regs.ebp = c.ebp
  ebx : regs.ebx = c.ebx
  edx : regs.edx = c.edx
  ecx : regs.ecx = c.ecx
  eax : regs.eax = c.eax
  intNo : regs.intNo = num
  errCode : regs.errCode = errCode
  eip : regs.eip = eip
  cs : regs.cs = cs
  eflags : regs.eflags = eflags

variable {c s : I386} {isr : BitVec 32 × Bool} {ret num v₁ v₂ v₃ v₄ : BitVec 32}
  {err : Option (BitVec 32)}

/-- The general registers are still those of `c`. -/
structure Untouched (c s : I386) : Prop where
  cr2 : s.cr2 = c.cr2
  ds : s.ds = c.ds
  edi : s.edi = c.edi
  esi : s.esi = c.esi
  ebp : s.ebp = c.ebp
  ebx : s.ebx = c.ebx
  edx : s.edx = c.edx
  ecx : s.ecx = c.ecx
  eax : s.eax = c.eax

theorem Untouched.pushl (h : Untouched c s) (v : BitVec 32) : Untouched c (s.pushl v) :=
  ⟨h.cr2, h.ds, h.edi, h.esi, h.ebp, h.ebx, h.edx, h.ecx, h.eax⟩

theorem Untouched.interrupt (err : Option (BitVec 32)) (c : I386) :
    Untouched c (c.interrupt err) := by
  have hnone : Untouched c (c.interrupt none) := ⟨rfl, rfl, rfl, rfl, rfl, rfl, rfl, rfl, rfl⟩
  cases err with
  | none => exact hnone
  | some e => exact hnone.pushl e

theorem trap_untouched (isr : BitVec 32 × Bool) (err : Option (BitVec 32)) (c : I386) :
    Untouched c (c.trap isr err) := by
  have h := Untouched.interrupt err c
  have hcli : Untouched c (c.interrupt err).cli :=
    ⟨h.cr2, h.ds, h.edi, h.esi, h.ebp, h.ebx, h.edx, h.ecx, h.eax⟩
  unfold trap
  dsimp only
  split
  · exact hcli.pushl isr.1
  · exact (hcli.pushl 0).pushl isr.1

theorem trap_mem (isr : BitVec 32 × Bool) (err : Option (BitVec 32)) (c : I386) :
    (c.trap isr err).mem = pushAll c.mem c.esp (c.trapWords isr err) := by
  obtain ⟨num, _ | _⟩ := isr <;> cases err <;> rfl

theorem trap_esp (isr : BitVec 32 × Bool) (err : Option (BitVec 32)) (c : I386) :
    (c.trap isr err).esp = c.esp - BitVec.ofNat 32 (4 * (c.trapWords isr err).length) := by
  obtain ⟨num, _ | _⟩ := isr <;> cases err <;>
    simp only [trap, interrupt, isrErrCode, isrNoErrCode, cli, pushl, trapWords, Option.toList,
      List.length_append, List.length_cons, List.length_nil, if_true, Bool.false_eq_true,
      if_false] <;> bv_omega

theorem stacked_trap (isr : BitVec 32 × Bool) (err : Option (BitVec 32)) (c : I386) :
    Stacked (c.trap isr err).mem (c.trap isr err).esp
      ((c.trapWords isr err).reverse ++ [wordAt c.mem c.esp]) := by
  have hlen : (c.trapWords isr err).length ≤ 6 := by
    obtain ⟨num, _ | _⟩ := isr <;> cases err <;> simp [trapWords]
  have htop : Stacked c.mem c.esp [wordAt c.mem c.esp] := ⟨rfl, trivial⟩
  rw [trap_mem, trap_esp]
  exact stacked_pushAll _ htop (by simp only [List.length_singleton]; omega)

theorem trapped_of_stacked (hs : Untouched c s) (h : Stacked s.mem s.esp [num, v₁, v₂, v₃, v₄])
    (ret : BitVec 32) : c.Trapped num v₁ v₂ v₃ v₄ (s.saveAndCall ret).registers := by
  have hstack := stacked_saveAndCall h (by simp) ret
  have hptr : s.esp - 40 = s.esp - 48 + 8 := by bv_omega
  rw [registers, saveAndCall_argument, hptr]
  simp only [pushed, List.cons_append, List.nil_append, Stacked, BitVec.add_assoc,
    BitVec.reduceAdd] at hstack
  obtain ⟨-, -, hcr2, hds, hedi, hesi, hebp, -, hebx, hedx, hecx, heax, hnum, h₁, h₂, h₃, h₄, -⟩ :=
    hstack
  simp only [Registers.read, BitVec.add_assoc, BitVec.reduceAdd]
  exact ⟨hcr2.trans hs.cr2, hds.trans (congrArg _ hs.ds), hedi.trans hs.edi, hesi.trans hs.esi,
    hebp.trans hs.ebp, hebx.trans hs.ebx, hedx.trans hs.edx, hecx.trans hs.ecx, heax.trans hs.eax,
    hnum, h₁, h₂, h₃, h₄⟩

theorem stacked_take : ∀ {ws us : List (BitVec 32)} {m : ByteMem} {p : BitVec 32},
    Stacked m p (ws ++ us) → Stacked m p ws := by
  intro ws
  induction ws with
  | nil =>
    intro us m p _
    trivial
  | cons w ws ih =>
    intro us m p h
    exact ⟨h.1, ih h.2⟩

theorem trapped_isrEntry (ret : BitVec 32) (c : I386) {l : List (BitVec 32)}
    (h : (c.trapWords isr err).reverse ++ [wordAt c.mem c.esp] = [num, v₁, v₂, v₃, v₄] ++ l) :
    c.Trapped num v₁ v₂ v₃ v₄ (c.isrEntry ret isr err).registers := by
  have hstack := stacked_trap isr err c
  rw [h] at hstack
  exact trapped_of_stacked (trap_untouched isr err c) (stacked_take hstack) ret

/-- **What the handler of an exception reads.**  The macro of every stub but that of
the alignment check fits what the processor pushes.  Of an alignment check the
handler reads the error code for `eip`, and `eip` for `cs`.  An `int` pushes no
error code, so behind a stub that expects one it reads `eip` for `err_code`, and the
topmost word of the interrupted code for `eflags`. -/
theorem trap_frame (hisr : isr ∈ isrs) (ret : BitVec 32) (c : I386) :
    (isr.1 ≠ 17 → ∀ err, err.isSome = pushesErrorCode isr.1 →
      c.Trapped isr.1 (err.getD 0) c.eip (c.cs.setWidth 32) c.eflags
        (c.isrEntry ret isr err).registers) ∧
    (isr.1 = 17 → ∀ e, c.Trapped 17 0 e c.eip (c.cs.setWidth 32)
        (c.isrEntry ret isr (some e)).registers) ∧
    (c.Trapped isr.1 (if pushesErrorCode isr.1 ∧ isr.1 ≠ 17 then c.eip else 0)
      (if pushesErrorCode isr.1 ∧ isr.1 ≠ 17 then c.cs.setWidth 32 else c.eip)
      (if pushesErrorCode isr.1 ∧ isr.1 ≠ 17 then c.eflags else c.cs.setWidth 32)
      (if pushesErrorCode isr.1 ∧ isr.1 ≠ 17 then wordAt c.mem c.esp else c.eflags)
      (c.isrEntry ret isr none).registers) := by
  have hmacro : (isrs.all fun isr => decide (isr.2 ↔ pushesErrorCode isr.1 ∧ isr.1 ≠ 17)) = true := by
    decide
  obtain ⟨num, code⟩ := isr
  have hfit : code ↔ pushesErrorCode num ∧ num ≠ 17 :=
    of_decide_eq_true (List.all_eq_true.mp hmacro _ hisr)
  refine ⟨?_, ?_, ?_⟩
  · intro h17 err herr
    have hcode : code = err.isSome := by
      rw [herr, Bool.eq_iff_iff, hfit]
      exact and_iff_left h17
    subst hcode
    cases err with
    | none => exact trapped_isrEntry ret c (l := [_]) rfl
    | some e => exact trapped_isrEntry ret c (l := [_]) rfl
  · intro h17 e
    obtain rfl : num = 17 := h17
    have hcode : code = false := Bool.eq_false_iff.mpr fun hc => (hfit.mp hc).2 rfl
    subst hcode
    exact trapped_isrEntry ret c (l := [_, _]) rfl
  · by_cases hcode : pushesErrorCode num ∧ num ≠ 17
    · obtain rfl : code = true := hfit.mpr hcode
      simp only [if_pos hcode]
      exact trapped_isrEntry ret c (l := []) rfl
    · obtain rfl : code = false := Bool.eq_false_iff.mpr fun hc => hcode (hfit.mp hc)
      simp only [if_neg hcode]
      exact trapped_isrEntry ret c (l := [_]) rfl

/-- An alignment check of the kernel: `eip` is the error code. -/
theorem trap_frame_alignment : (kernelAt fun _ => 0).Trapped 17 0 0x1234 0x100000 8
    ((kernelAt fun _ => 0).isrEntry 0x100100 (17, false) (some 0x1234)).registers :=
  (trap_frame (show (17, false) ∈ isrs by decide) 0x100100 (kernelAt fun _ => 0)).2.1 rfl 0x1234

end I386

/-! ### The message -/

theorem gate_exception (addr : Stub → BitVec 32) {v : BitVec 8} (hv : v.toNat < 32) :
    (idtInit addr).gate v = some ⟨addr (.isr v), gdtOffsetKernelCode, 3⟩ := by
  have hstubs : ∀ g ∈ idtInitStubs, g.1.toNat < 32 → g.2 = .isr g.1 := by decide
  have hdispatch := idt_dispatch addr v
  rw [if_pos (.inl (by omega))] at hdispatch
  obtain ⟨stub, hmem, -, hgate⟩ := hdispatch
  obtain rfl : stub = .isr v := hstubs _ hmem hv
  exact hgate

theorem exceptionMessages_length : exceptionMessages.length = 32 := by decide

/-- **Every exception ends with its message.**  Whatever was printed before, and
whatever the processor pushed, the vector leads to its stub, `isr_handler` aborts with
the message of the exception, and the screen is a window on the page with the message
behind all else. -/
theorem exception_panics (m : ByteMem) {calls : List ConsoleCall} {texts : List (List UInt8)}
    {t : Tty} (htexts : List.Forall₂ ConsoleCall.Says calls texts) (hb : 0x08 ∉ texts.flatten)
    (htrace : Trace ConsoleStep (Tty.ttyInit m) calls t) {v : BitVec 8} (hv : v.toNat < 32) :
    (∀ addr, (idtInit addr).gate v = some ⟨addr (.isr v), gdtOffsetKernelCode, 3⟩) ∧
    ∃ code, (v.setWidth 32, code) ∈ isrs ∧ ∃ msg : String, ∃ err : CString,
      exceptionMessages[v.toNat]? = some msg ∧ err.chars = bytes msg ∧
      (∀ (c : I386) ret e, isrHandler (c.isrEntry ret (v.setWidth 32, code) e).registers = .error msg) ∧
      ∀ stack, ∃ t' s, PrintCall.runAll stack (abort (some err)) t = some t' ∧
        Window s t' (TextPage.reference
          (texts.flatten ++ (bytes "kernel: panic: " ++ bytes msg ++ bytes "\n"))) := by
  have hlt : v.toNat < exceptionMessages.length := exceptionMessages_length ▸ hv
  have hchars : ∀ msg ∈ exceptionMessages, 0 ∉ bytes msg ∧ 0x08 ∉ bytes msg ∧
      (bytes msg).length ≤ 32 := by decide
  obtain ⟨h0, h8, hlen⟩ := hchars _ (List.getElem_mem hlt)
  have hisrs : ∀ g ∈ idtInitStubs, g.1.toNat < 32 →
      (g.1.setWidth 32, pushesErrorCode (g.1.setWidth 32) && g.1 != 17) ∈ isrs := by decide
  obtain ⟨g, hg, hgv⟩ := List.mem_map.mp ((idtInitStubs_vectors v).mpr (.inl (by omega)))
  refine ⟨fun addr => gate_exception addr hv, _, hgv ▸ hisrs g hg (hgv ▸ hv),
    exceptionMessages[v.toNat], ⟨_, h0⟩, List.getElem?_eq_getElem hlt, rfl, ?_, ?_⟩
  · intro c ret e
    have hv32 : (v.setWidth 32).toNat = v.toNat := by
      rw [BitVec.toNat_setWidth]
      omega
    rw [isrHandler, I386.isrEntry_intNo, hv32, if_pos hv, List.getD_eq_getElem?_getD,
      List.getElem?_eq_getElem hlt, Option.getD_some]
  · intro stack
    obtain rfl := (console_run htexts _ _).mp htrace
    have hpanic : 0x08 ∉ bytes "kernel: panic: " ∧ 0x08 ∉ bytes "\n" := by decide
    have hall : 0x08 ∉ texts.flatten ++ (bytes "kernel: panic: " ++
        bytes exceptionMessages[v.toNat] ++ bytes "\n") := by
      simp only [List.mem_append, not_or]
      exact ⟨hb, ⟨hpanic.1, h8⟩, hpanic.2⟩
    obtain ⟨s, hs⟩ := Window.Ok.terminalWrite _ 0 _ _ (Window.Ok.ttyInit m) hall
    rw [Tty.terminalWrite, List.foldl_append] at hs
    have hshort : (⟨_, h0⟩ : CString).chars.length + 16 ≤ intMax := by
      simp only [intMax]
      omega
    exact ⟨_, s, runAll_abort hshort stack _, hs.window⟩

/-- A page fault behind the first line. -/
theorem exception_panics_pageFault : ∃ t, Trace ConsoleStep (Tty.ttyInit fun _ => 0)
      [.puts ⟨bytes "heap", by decide⟩] t ∧
    ∃ t' s, PrintCall.runAll (fun _ _ => 0) (abort (some ⟨bytes "page fault", by decide⟩)) t
        = some t' ∧
      Window s t' (TextPage.reference (bytes "heap\nkernel: panic: page fault\n")) := by
  have htexts : List.Forall₂ ConsoleCall.Says [.puts ⟨bytes "heap", by decide⟩]
      [bytes "heap" ++ bytes "\n"] := .cons (says_puts (by decide)) .nil
  refine ⟨_, (console_run htexts _ _).mpr rfl, ?_⟩
  obtain ⟨-, _, -, msg, ⟨chars, _⟩, hmsg, hchars, -, hscreen⟩ := exception_panics (fun _ => 0) htexts
    (by decide) ((console_run htexts _ _).mpr rfl) (v := 14) (by decide)
  obtain rfl : "page fault" = msg := Option.some.inj hmsg
  obtain rfl : chars = bytes "page fault" := hchars
  exact hscreen _

end ChoOS
