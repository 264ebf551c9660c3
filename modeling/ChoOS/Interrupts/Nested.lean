import Mathlib.Tactic.IntervalCases
import ChoOS.Lib.Trace
import ChoOS.Interrupts.Stubs

/-!
# Interrupts inside of interrupts

`unlock_scheduler` turns interrupts on inside of a handler, so `irq_handler` is
itself interrupted, to any depth, and so is the way out of `_irq_common_stub`
when the handler returns with interrupts on.  The way in is not: the gate and
`cli` turn them off.

`live` are the interrupts that are not over, the innermost first, with the
processor as it was when they arrived.  While a handler or the code at the
bottom runs, the processor does what it likes (`work`), as long as it leaves the
stack alone at and above the argument of every live handler.  In the exit of the
stub it runs `irqExitCode`, one instruction after the other (`exit`, and `iret`
at the end).  An interrupt can arrive at any time; its pushes do not reach the
stack that the live handlers still need, since whoever runs has its stack pointer
below (`irq`).  Whether the flags let it in plays no part.

The invariant `Unwinds` follows the nesting: every live interrupt finds the rest
of its frame on the stack, and in its exit the registers that it has taken back
are those of the interrupted code.  The latter is about the processor that the
next interrupt arrived in, and that is what this one will return to.
-/

namespace ChoOS

open I386

theorem irqCode_eq : ∀ line : Fin 16, irqCode line = 32 + BitVec.ofNat 32 line := by
  decide

/-- `_irq_common_stub` behind the `call`, up to the `iret`. -/
def irqExitCode : List (I386 → I386) :=
  [fun c => { c with esp := c.esp + 8 },
    fun c => { c.popl.2 with ebx := c.popl.1 },
    fun c => { c with ds := c.ebx.setWidth 16 },
    fun c => { c with es := c.ebx.setWidth 16 },
    fun c => { c with fs := c.ebx.setWidth 16 },
    fun c => { c with gs := c.ebx.setWidth 16 },
    popal,
    fun c => { c with esp := c.esp + 8 },
    sti]

/-- Without an interrupt in between, this is `irqExit`. -/
theorem irqExit_eq (c : I386) : c.irqExit = (irqExitCode.foldl (fun c f => f c) c).iret := rfl

/-- Where an interrupt is: in `irq_handler`, or behind some of its exit. -/
inductive IrqPhase
  | handler
  | exit (k : Nat)

/-- How many words from the argument on are taken from the stack. -/
def IrqPhase.taken : IrqPhase → Nat
  | handler => 0
  | exit 0 => 0
  | exit 1 => 2
  | exit 7 => 11
  | exit 8 => 13
  | exit 9 => 13
  | exit _ => 3

/-- An interrupt that is not over. -/
structure Activation where
  line : Fin 16
  interrupted : I386
  phase : IrqPhase

namespace Activation

/-- The processor at the entry of `irq_handler`. -/
def entry (ret : BitVec 32) (a : Activation) : I386 := a.interrupted.irqEntry ret a.line

/-- The argument of `irq_handler`, and the structure that it leads to. -/
def words (a : Activation) : List (BitVec 32) :=
  a.interrupted.framePtr :: a.interrupted.frame (irqCode a.line)

/-- Where the rest of the words stands. -/
def restAddr (ret : BitVec 32) (a : Activation) : BitVec 32 :=
  (a.entry ret).esp + 4 + BitVec.ofNat 32 (4 * a.phase.taken)

/-- The words that are not taken yet. -/
def rest (a : Activation) : List (BitVec 32) := a.words.drop a.phase.taken

end Activation

structure NestState where
  cpu : I386
  live : List Activation

namespace NestState

/-- A handler, or the code at the bottom. -/
def InCode (s : NestState) : Prop := ∀ a ∈ s.live.head?, a.phase = .handler

/-- The stack is unchanged at and above the argument of every live handler. -/
def Own (ret : BitVec 32) (s : NestState) (c : I386) : Prop :=
  ∀ a ∈ s.live, ∀ i < a.rest.length, wordAt c.mem (a.restAddr ret + BitVec.ofNat 32 (4 * i))
    = wordAt s.cpu.mem (a.restAddr ret + BitVec.ofNat 32 (4 * i))

/-- The seventeen words below the stack pointer are apart from the stack that
the live handlers still need. -/
def Room (ret : BitVec 32) (s : NestState) : Prop :=
  ∀ a ∈ s.live, Beyond s.cpu.esp 0 (a.restAddr ret) (a.rest.length + 17)

end NestState

inductive NestEvent
  | work (c : I386)
  | irq (line : Fin 16)
  | ret
  | exit
  | iret

inductive NestStep (ret : BitVec 32) : NestState → NestEvent → NestState → Prop
  | work {s : NestState} {c : I386} : s.InCode → s.Own ret c →
      NestStep ret s (.work c) { s with cpu := c }
  | irq {s : NestState} {line : Fin 16} : s.Room ret →
      NestStep ret s (.irq line) ⟨s.cpu.irqEntry ret line, ⟨line, s.cpu, .handler⟩ :: s.live⟩
  | ret {c : I386} {a : Activation} {l : List Activation} : a.phase = .handler →
      Cdecl (a.entry ret) c → NestStep ret ⟨c, a :: l⟩ .ret ⟨c, { a with phase := .exit 0 } :: l⟩
  | exit {c : I386} {a : Activation} {l : List Activation} {k : Nat} {f : I386 → I386} :
      a.phase = .exit k → irqExitCode[k]? = some f →
      NestStep ret ⟨c, a :: l⟩ .exit ⟨f c, { a with phase := .exit (k + 1) } :: l⟩
  | iret {c : I386} {a : Activation} {l : List Activation} : a.phase = .exit 9 →
      NestStep ret ⟨c, a :: l⟩ .iret ⟨c.iret, l⟩

variable {ret : BitVec 32} {s s' : NestState} {es : List NestEvent} {a : Activation} {c : I386}
  {l : List Activation} {m m' : ByteMem} {k : Nat}

/-! ### The invariant -/

/-- The registers behind `k` instructions of the exit. -/
structure Progress (ret : BitVec 32) (a : Activation) (k : Nat) (c : I386) : Prop where
  esp : c.esp = a.restAddr ret
  ebx : 2 ≤ k → k < 7 → c.ebx = a.interrupted.ds.setWidth 32
  ds : 3 ≤ k → c.ds = a.interrupted.ds
  general : 7 ≤ k → c.eax = a.interrupted.eax ∧ c.ecx = a.interrupted.ecx ∧
    c.edx = a.interrupted.edx ∧ c.ebx = a.interrupted.ebx ∧ c.ebp = a.interrupted.ebp ∧
    c.esi = a.interrupted.esi ∧ c.edi = a.interrupted.edi

/-- **Every live interrupt can be unwound**, from the processor `c` on. -/
def Unwinds (ret : BitVec 32) (m : ByteMem) : I386 → List Activation → Prop
  | _, [] => True
  | c, a :: l => Stacked m (a.restAddr ret) a.rest ∧
      (∀ k, a.phase = .exit k → Progress ret a k c) ∧ Unwinds ret m a.interrupted l

theorem Unwinds.congr : ∀ {l : List Activation} {c : I386}, Unwinds ret m c l →
    (∀ a ∈ l, Stacked m (a.restAddr ret) a.rest → Stacked m' (a.restAddr ret) a.rest) →
    Unwinds ret m' c l := by
  intro l
  induction l with
  | nil =>
    intro c _ _
    trivial
  | cons a l ih =>
    intro c h hm
    obtain ⟨hs, hp, hl⟩ := h
    exact ⟨hm a List.mem_cons_self hs, hp, ih hl fun b hb => hm b (List.mem_cons_of_mem _ hb)⟩

theorem Progress.resumed {c' : I386} (h : Progress ret a k c) (hr : c.Resumed c') :
    Progress ret a k c' where
  esp := hr.esp.trans h.esp
  ebx h2 h7 := hr.ebx.trans (h.ebx h2 h7)
  ds h3 := hr.ds.trans (h.ds h3)
  general h7 := by
    obtain ⟨heax, hecx, hedx, hebx, hebp, hesi, hedi⟩ := h.general h7
    exact ⟨hr.eax.trans heax, hr.ecx.trans hecx, hr.edx.trans hedx, hr.ebx.trans hebx,
      hr.ebp.trans hebp, hr.esi.trans hesi, hr.edi.trans hedi⟩

theorem Unwinds.resumed {c' : I386} (h : Unwinds ret m c l) (hr : c.Resumed c') :
    Unwinds ret m c' l := by
  cases l with
  | nil => trivial
  | cons a l => exact ⟨h.1, fun k hk => (h.2.1 k hk).resumed hr, h.2.2⟩

theorem Activation.restAddr_eq (ret : BitVec 32) (a : Activation) :
    a.restAddr ret = a.interrupted.framePtr - 4 + BitVec.ofNat 32 (4 * a.phase.taken) := by
  rw [restAddr, entry, irqEntry_eq, enter_esp]
  bv_omega

theorem Activation.restAddr_take {ph : IrqPhase} {d : Nat} (hd : ph.taken = a.phase.taken + d)
    (ret : BitVec 32) : Activation.restAddr ret { a with phase := ph }
      = a.restAddr ret + BitVec.ofNat 32 (4 * d) := by
  have he : Activation.entry ret { a with phase := ph } = a.entry ret := rfl
  rw [restAddr, restAddr, he, hd]
  bv_omega

theorem Activation.stacked_take {ph : IrqPhase} {d : Nat} (hd : ph.taken = a.phase.taken + d)
    (h : Stacked m (a.restAddr ret) a.rest) :
    Stacked m (Activation.restAddr ret { a with phase := ph })
      (Activation.rest { a with phase := ph }) := by
  have hrest : Activation.rest { a with phase := ph } = a.rest.drop d := by
    rw [rest, rest, List.drop_drop, hd]
    rfl
  rw [a.restAddr_take hd, hrest]
  exact h.drop d

/-! ### The exit -/

variable {f : I386 → I386}

theorem exit_lt (hf : irqExitCode[k]? = some f) : k < 9 := (List.getElem?_eq_some_iff.mp hf).1

theorem exit_taken (hf : irqExitCode[k]? = some f) (c : I386) : ∃ d,
    (IrqPhase.exit (k + 1)).taken = (IrqPhase.exit k).taken + d ∧ (f c).mem = c.mem ∧
      (f c).esp = c.esp + BitVec.ofNat 32 (4 * d) := by
  have hk := exit_lt hf
  interval_cases k <;> obtain rfl := Option.some.inj hf
  · exact ⟨2, rfl, rfl, rfl⟩
  · exact ⟨1, rfl, rfl, rfl⟩
  · exact ⟨0, rfl, rfl, (BitVec.add_zero _).symm⟩
  · exact ⟨0, rfl, rfl, (BitVec.add_zero _).symm⟩
  · exact ⟨0, rfl, rfl, (BitVec.add_zero _).symm⟩
  · exact ⟨0, rfl, rfl, (BitVec.add_zero _).symm⟩
  · refine ⟨8, rfl, rfl, ?_⟩
    simp only [popal, popl]
    bv_omega
  · exact ⟨2, rfl, rfl, rfl⟩
  · exact ⟨0, rfl, rfl, (BitVec.add_zero _).symm⟩

theorem Activation.rest_ds (hk : a.phase = .exit 1) (h : Stacked m (a.restAddr ret) a.rest) :
    wordAt m (a.restAddr ret) = a.interrupted.ds.setWidth 32 := by
  rw [rest, hk] at h
  exact h.1

theorem popal_of_rest (hk : a.phase = .exit 6) (h : Stacked c.mem c.esp a.rest) :
    c.popal.eax = a.interrupted.eax ∧ c.popal.ecx = a.interrupted.ecx ∧
      c.popal.edx = a.interrupted.edx ∧ c.popal.ebx = a.interrupted.ebx ∧
      c.popal.ebp = a.interrupted.ebp ∧ c.popal.esi = a.interrupted.esi ∧
      c.popal.edi = a.interrupted.edi := by
  rw [Activation.rest, hk] at h
  obtain ⟨hedi, hesi, hebp, -, hebx, hedx, hecx, heax, -⟩ := h
  exact ⟨heax, hecx, hedx, hebx, hebp, hesi, hedi⟩

theorem Progress.exit (hk : a.phase = .exit k) (hf : irqExitCode[k]? = some f)
    (hs : Stacked c.mem (a.restAddr ret) a.rest) (h : Progress ret a k c) :
    Progress ret { a with phase := .exit (k + 1) } (k + 1) (f c) := by
  obtain ⟨d, hd, -, hesp⟩ := exit_taken hf c
  rw [← hk] at hd
  have hesp' : (f c).esp = Activation.restAddr ret { a with phase := .exit (k + 1) } := by
    rw [hesp, h.esp, a.restAddr_take hd]
  have hlt := exit_lt hf
  interval_cases k <;> obtain rfl := Option.some.inj hf
  · exact ⟨hesp', by omega, by omega, by omega⟩
  · have hebx : wordAt c.mem c.esp = a.interrupted.ds.setWidth 32 := by
      rw [h.esp]
      exact a.rest_ds hk hs
    exact ⟨hesp', fun _ _ => hebx, by omega, by omega⟩
  · have hebx := h.ebx (by omega) (by omega)
    have hds : c.ebx.setWidth 16 = a.interrupted.ds := by simp [hebx]
    exact ⟨hesp', fun _ _ => hebx, fun _ => hds, by omega⟩
  · exact ⟨hesp', fun _ _ => h.ebx (by omega) (by omega), fun _ => h.ds (by omega), by omega⟩
  · exact ⟨hesp', fun _ _ => h.ebx (by omega) (by omega), fun _ => h.ds (by omega), by omega⟩
  · exact ⟨hesp', fun _ _ => h.ebx (by omega) (by omega), fun _ => h.ds (by omega), by omega⟩
  · rw [← h.esp] at hs
    have hgeneral := popal_of_rest hk hs
    exact ⟨hesp', by omega, fun _ => h.ds (by omega), fun _ => hgeneral⟩
  · exact ⟨hesp', by omega, fun _ => h.ds (by omega), fun _ => h.general (by omega)⟩
  · exact ⟨hesp', by omega, fun _ => h.ds (by omega), fun _ => h.general (by omega)⟩

theorem Progress.iret (hk : a.phase = .exit 9) (hs : Stacked c.mem (a.restAddr ret) a.rest)
    (h : Progress ret a 9 c) : a.interrupted.Resumed c.iret := by
  obtain ⟨heax, hecx, hedx, hebx, hebp, hesi, hedi⟩ := h.general (by omega)
  rw [← h.esp, Activation.rest, hk] at hs
  obtain ⟨heip, hcs, hfl, -⟩ := hs
  have hesp : c.esp + 4 + 4 + 4 = a.interrupted.esp := by
    rw [h.esp, a.restAddr_eq, hk, framePtr]
    simp only [IrqPhase.taken]
    bv_omega
  have hcs' : (wordAt c.mem (c.esp + 4)).setWidth 16 = a.interrupted.cs := by
    rw [hcs]
    simp
  exact ⟨heax, hecx, hedx, hebx, hesp, hebp, hesi, hedi, h.ds (by omega), heip, hcs', hfl⟩

/-! ### The steps -/

/-- **The invariant of nesting.** -/
def NestState.Inv (ret : BitVec 32) (s : NestState) : Prop := Unwinds ret s.cpu.mem s.cpu s.live

theorem NestState.Inv.work (hI : s.Inv ret) (hin : s.InCode) (ho : s.Own ret c) :
    NestState.Inv ret { s with cpu := c } := by
  have hmem : Unwinds ret c.mem s.cpu s.live :=
    Unwinds.congr hI fun a ha hs => hs.congr (ho a ha)
  unfold Inv
  -- no exit is under way, so the registers do not matter
  cases hl : s.live with
  | nil => trivial
  | cons a l =>
    rw [hl] at hmem
    have ha : a.phase = .handler := hin a (by simp [hl])
    refine ⟨hmem.1, ?_, hmem.2.2⟩
    intro k hk
    simp [ha] at hk

theorem Activation.stacked_entry (ret : BitVec 32) (line : Fin 16) (c : I386) :
    Stacked (c.irqEntry ret line).mem (Activation.restAddr ret ⟨line, c, .handler⟩)
      (Activation.rest ⟨line, c, .handler⟩) := by
  have h := (stacked_enter ret (irqCode line) c).2
  rw [irqEntry_eq, Activation.restAddr_eq]
  simp only [IrqPhase.taken]
  rw [show c.framePtr - 4 + BitVec.ofNat 32 (4 * 0) = c.framePtr - 8 + 4 by bv_omega]
  exact h

theorem NestState.Inv.irq {line : Fin 16} (hI : s.Inv ret) (hroom : s.Room ret) :
    NestState.Inv ret ⟨s.cpu.irqEntry ret line, ⟨line, s.cpu, .handler⟩ :: s.live⟩ := by
  have hmem : Unwinds ret (s.cpu.irqEntry ret line).mem s.cpu s.live := by
    refine Unwinds.congr hI fun a ha hs => ?_
    rw [irqEntry_eq]
    exact stacked_of_enter hs (hroom a ha) ret (irqCode line)
  refine ⟨Activation.stacked_entry ret line s.cpu, ?_, hmem⟩
  intro k hk
  simp at hk

theorem NestState.Inv.handlerReturn (hI : NestState.Inv ret ⟨c, a :: l⟩) (ha : a.phase = .handler)
    (hc : Cdecl (a.entry ret) c) : NestState.Inv ret ⟨c, { a with phase := .exit 0 } :: l⟩ := by
  obtain ⟨hs, -, hl⟩ := hI
  have htaken : (IrqPhase.exit 0).taken = a.phase.taken + 0 := by rw [ha]; rfl
  refine ⟨a.stacked_take htaken hs, ?_, hl⟩
  intro k hk
  obtain rfl : 0 = k := by simpa using hk
  refine ⟨?_, by omega, by omega, by omega⟩
  rw [hc.esp]
  exact (BitVec.add_zero _).symm

theorem NestState.Inv.exit (hI : NestState.Inv ret ⟨c, a :: l⟩) (hk : a.phase = .exit k)
    (hf : irqExitCode[k]? = some f) :
    NestState.Inv ret ⟨f c, { a with phase := .exit (k + 1) } :: l⟩ := by
  obtain ⟨hs, hp, hl⟩ := hI
  obtain ⟨d, hd, hmem, -⟩ := exit_taken hf c
  rw [← hk] at hd
  have hprogress := (hp k hk).exit hk hf hs
  unfold Inv
  rw [hmem]
  refine ⟨a.stacked_take hd hs, ?_, hl⟩
  intro k' hk'
  obtain rfl : k + 1 = k' := by simpa using hk'
  exact hprogress

theorem NestState.Inv.iret (hI : NestState.Inv ret ⟨c, a :: l⟩) (ha : a.phase = .exit 9) :
    a.interrupted.Resumed c.iret ∧ NestState.Inv ret ⟨c.iret, l⟩ := by
  obtain ⟨hs, hp, hl⟩ := hI
  have hr := (hp 9 ha).iret ha hs
  exact ⟨hr, hl.resumed hr⟩

theorem NestStep.inv {e : NestEvent} (h : NestStep ret s e s') (hI : s.Inv ret) : s'.Inv ret := by
  cases h with
  | work hin ho => exact hI.work hin ho
  | irq hroom => exact hI.irq hroom
  | ret ha hc => exact hI.handlerReturn ha hc
  | exit hk hf => exact hI.exit hk hf
  | iret ha => exact (hI.iret ha).2

theorem nestState_inv {c₀ : I386} (h : Trace (NestStep ret) ⟨c₀, []⟩ es s) : s.Inv ret :=
  h.invariant (I := NestState.Inv ret) trivial fun _ _ _ hI he => he.inv hI

/-! ### What a handler reads and where it returns to -/

theorem Unwinds.stacked : ∀ {l : List Activation} {c : I386}, Unwinds ret m c l → a ∈ l →
    Stacked m (a.restAddr ret) a.rest := by
  intro l
  induction l with
  | nil =>
    intro c _ ha
    simp at ha
  | cons b l ih =>
    intro c h ha
    rcases List.mem_cons.mp ha with rfl | ha
    · exact h.1
    · exact ih h.2.2 ha

theorem NestState.Inv.saved (hI : s.Inv ret) (ha : a ∈ s.live) (hp : a.phase = .handler) :
    a.interrupted.Saved (32 + BitVec.ofNat 32 a.line)
      (Registers.read s.cpu.mem (a.entry ret).argument) := by
  have hs := Unwinds.stacked hI ha
  rw [a.restAddr_eq, Activation.rest, hp] at hs
  simp only [IrqPhase.taken] at hs
  have hframe := hs.2
  rw [show a.interrupted.framePtr - 4 + BitVec.ofNat 32 (4 * 0) + 4 = a.interrupted.framePtr by
    bv_omega] at hframe
  rw [Activation.entry, irqEntry_eq, enter_argument, ← irqCode_eq]
  exact saved_of_stacked hframe

theorem trace_exit (ret : BitVec 32) (c : I386) (a : Activation) (l : List Activation) :
    ∀ k ≤ 9, Trace (NestStep ret) ⟨c, { a with phase := .exit 0 } :: l⟩ (List.replicate k .exit)
      ⟨(irqExitCode.take k).foldl (fun c f => f c) c, { a with phase := .exit k } :: l⟩ := by
  intro k
  induction k with
  | zero =>
    intro _
    exact .nil
  | succ k ih =>
    intro hk
    have hlt : k < irqExitCode.length := hk
    have hf : irqExitCode[k]? = some irqExitCode[k] := List.getElem?_eq_getElem hlt
    rw [List.replicate_succ', List.take_add_one, hf, List.foldl_append]
    exact (ih (by omega)).snoc (.exit (a := { a with phase := .exit k }) rfl hf)

theorem trace_irqExit (ha : a.phase = .handler) (hc : Cdecl (a.entry ret) c)
    (l : List Activation) : ∃ s, Trace (NestStep ret) ⟨c, a :: l⟩ (.ret :: List.replicate 9 .exit) s ∧
      s.live = { a with phase := .exit 9 } :: l ∧ NestStep ret s .iret ⟨c.irqExit, l⟩ := by
  refine ⟨_, (Trace.single (.ret ha hc)).append (trace_exit ret c a l 9 (by omega)), rfl, ?_⟩
  rw [irqExit_eq]
  exact .iret rfl

/-- **Hardware interrupts are transparent**, to any depth.  A handler finds the
registers of the interrupted code in its `struct Registers`, at its entry and as
long as it runs, and the `iret` gives them back. -/
theorem irq_transparent {c₀ : I386} (h : Trace (NestStep ret) ⟨c₀, []⟩ es s) :
    (∀ line s', NestStep ret s (.irq line) s' →
      s.cpu.Saved (32 + BitVec.ofNat 32 line) s'.cpu.registers) ∧
    (∀ a ∈ s.live, a.phase = .handler → a.interrupted.Saved (32 + BitVec.ofNat 32 a.line)
      (Registers.read s.cpu.mem (a.entry ret).argument)) ∧
    (∀ a l s', s.live = a :: l → NestStep ret s .iret s' →
      s'.live = l ∧ a.interrupted.Resumed s'.cpu) := by
  have hI := nestState_inv h
  refine ⟨?_, fun a ha hp => hI.saved ha hp, ?_⟩
  · intro line s' he
    have hI' := he.inv hI
    cases he with
    | irq _ => exact hI'.saved (a := ⟨line, s.cpu, .handler⟩) List.mem_cons_self rfl
  · intro a l s' hl he
    cases he with
    | iret ha =>
      obtain ⟨rfl, rfl⟩ := List.cons.inj hl
      exact ⟨rfl, (hI.iret ha).1⟩

theorem NestStep.work_returned (ret : BitVec 32) (e : I386) (ha : a.phase = .handler) :
    NestStep ret ⟨e, a :: l⟩ (.work e.returned) ⟨e.returned, a :: l⟩ :=
  .work (by simpa [NestState.InCode] using ha) fun _ _ _ _ => rfl

theorem I386.Resumed.returned {e : I386} (h : e.Resumed c) : Cdecl e c.returned :=
  ⟨congrArg (· + 4) h.esp, h.ebx, h.esi, h.edi, h.ebp⟩

theorem NestState.room_entry (ret : BitVec 32) (line : Fin 16) (c : I386) :
    NestState.Room ret ⟨c.irqEntry ret line, [⟨line, c, .handler⟩]⟩ := by
  intro a ha
  obtain rfl := List.mem_singleton.mp ha
  have haddr : Activation.restAddr ret ⟨line, c, .handler⟩ = (c.irqEntry ret line).esp + 4 :=
    BitVec.add_zero _
  have hlen : (Activation.rest ⟨line, c, .handler⟩).length = 16 := rfl
  rw [haddr, hlen]
  unfold Beyond
  constructor
  · omega
  · bv_omega

/-- Line 1 interrupts the handler of line 0. -/
theorem irq_transparent_nested :
    let c := kernelAt fun _ => 0
    let e := c.irqEntry 0x100100 0
    let r := (e.irqEntry 0x100100 1).returned
    ∃ es s, Trace (NestStep 0x100100) ⟨c, []⟩ es s ∧
      NestStep 0x100100 s .iret ⟨r.irqExit.returned.irqExit, []⟩ ∧
      c.Resumed r.irqExit.returned.irqExit := by
  intro c e r
  -- both interrupts, and the handler of the second returns
  have h₀ : NestStep 0x100100 ⟨c, []⟩ (.irq 0) ⟨e, [⟨0, c, .handler⟩]⟩ :=
    .irq (by simp [NestState.Room])
  have h₁ : NestStep 0x100100 ⟨e, [⟨0, c, .handler⟩]⟩ (.irq 1)
      ⟨e.irqEntry 0x100100 1, [⟨1, e, .handler⟩, ⟨0, c, .handler⟩]⟩ :=
    .irq (NestState.room_entry 0x100100 0 c)
  have h₂ : NestStep 0x100100 _ (.work r) ⟨r, [⟨1, e, .handler⟩, ⟨0, c, .handler⟩]⟩ :=
    .work_returned 0x100100 (e.irqEntry 0x100100 1) rfl
  have hrun := ((Trace.single h₀).snoc h₁).snoc h₂
  obtain ⟨s₁, hexit, hl, hiret⟩ := trace_irqExit (a := ⟨1, e, .handler⟩) rfl
    (handlerReturns_returned (e.irqEntry 0x100100 1)).toCdecl [⟨0, c, .handler⟩]
  have hrun₁ := hrun.append hexit
  have hres : e.Resumed r.irqExit := ((irq_transparent hrun₁).2.2 _ _ _ hl hiret).2
  -- the handler of the first returns
  have h₃ := NestStep.work_returned 0x100100 r.irqExit (l := []) (a := ⟨0, c, .handler⟩) rfl
  obtain ⟨s₂, hexit', hl', hiret'⟩ := trace_irqExit (a := ⟨0, c, .handler⟩) rfl hres.returned []
  have hrun₂ := ((hrun₁.snoc hiret).snoc h₃).append hexit'
  exact ⟨_, _, hrun₂, hiret', ((irq_transparent hrun₂).2.2 _ _ _ hl' hiret').2⟩

end ChoOS
