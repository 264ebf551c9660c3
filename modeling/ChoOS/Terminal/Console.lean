import ChoOS.Lib.Trace
import ChoOS.Libc.Result
import ChoOS.Terminal.Window

/-!
# The console

The functions of the kernel that print, with the terminal behind `putchar`.  All
of them are calls of `vprintf`, one after the other (`ConsoleCall.body`).  `Tty` is
the last layer: `vprintf` never looks at it, so what it prints is the text that
`Vprintf.lean` gives it, and `print_eq` is the only place where both meet.

`Says` is the text that a call is meant to print.  `console_screen`: after any
calls the screen is a window on the page of all their texts.  `abort` does not
return; `runAll_abort` is what it prints before it stops the machine.
-/

namespace ChoOS

/-- The characters of a literal. -/
def bytes (s : String) : List UInt8 := s.toList.map fun c => UInt8.ofNat c.toNat

/-! ### The code -/

namespace Tty

def putchar (ic : Int) (t : Tty) : Int × Tty := (ic, t.terminalWrite [UInt8.ofInt ic])

/-- `__print` -/
def print : List UInt8 → Tty → Bool × Tty
  | [], t => (true, t)
  | c :: data, t =>
    let (r, t) := t.putchar c.toNat
    if r = eof then (false, t) else print data t

def terminalWritestring (data : CString) (t : Tty) : Tty :=
  t.terminalWrite (data.chars.take (strlen data.chars))

end Tty

/-- The arguments of a call of `vprintf`. -/
structure PrintCall where
  format : CString
  args : List VaArg

namespace PrintCall

/-- `vprintf` on the terminal. -/
def run (buffer : CharArray) (c : PrintCall) (t : Tty) : Option (Int × Tty) :=
  (vprintf buffer c.format c.args).map fun (r, out) => (r, (t.print out).2)

/-- The calls of a function; `stack i` is what the `i`-th finds in its `buffer`. -/
def runAll (stack : Nat → CharArray) : List PrintCall → Tty → Option Tty
  | [], t => some t
  | c :: cs, t => do
    let (_, t) ← c.run (stack 0) t
    runAll (fun i => stack (i + 1)) cs t

end PrintCall

def printf (format : CString) (args : List VaArg) : PrintCall := ⟨format, args⟩

def puts (string : CString) : List PrintCall :=
  [printf ⟨bytes "%s\n", by decide⟩ [.string string]]

def kernelDebugLogger (filename : CString) (line : Int32) (format : CString) (args : List VaArg) :
    List PrintCall :=
  [printf ⟨bytes "%s:%d: ", by decide⟩ [.string filename, .int line], ⟨format, args⟩,
    printf ⟨bytes "\n", by decide⟩ []]

def kernelTestLogger (format : CString) (args : List VaArg) : List PrintCall :=
  [⟨format, args⟩, printf ⟨bytes "\n", by decide⟩ []]

/-- What `abort` prints. -/
def abort : Option CString → List PrintCall
  | some err => [printf ⟨bytes "kernel: panic: %s\n", by decide⟩ [.string err]]
  | none => [printf ⟨bytes "kernel: panic \n", by decide⟩ []]

/-- The calls that print. -/
inductive ConsoleCall
  | putchar (ic : Int32)
  | terminalWritestring (data : CString)
  | printf (format : CString) (args : List VaArg)
  | puts (string : CString)
  | kernelDebugLogger (filename : CString) (line : Int32) (format : CString) (args : List VaArg)
  | kernelTestLogger (format : CString) (args : List VaArg)

namespace ConsoleCall

/-- The calls of `vprintf`. -/
def body : ConsoleCall → List PrintCall
  | putchar _ => []
  | terminalWritestring _ => []
  | printf format args => [ChoOS.printf format args]
  | puts string => ChoOS.puts string
  | kernelDebugLogger filename line format args => ChoOS.kernelDebugLogger filename line format args
  | kernelTestLogger format args => ChoOS.kernelTestLogger format args

def run (stack : Nat → CharArray) (t : Tty) : ConsoleCall → Option Tty
  | putchar ic => some (t.putchar ic.toInt).2
  | terminalWritestring data => some (t.terminalWritestring data)
  | call => PrintCall.runAll stack call.body t

end ConsoleCall

/-- A call that returns, whatever was on the stack. -/
def ConsoleStep (t : Tty) (call : ConsoleCall) (t' : Tty) : Prop :=
  ∃ stack, call.run stack t = some t'

/-! ### The texts -/

/-- The text of a call of `vprintf` whose format it can do: not longer than `INT_MAX`,
and without a `%ll` that is no conversion. -/
structure PrintCall.Says (c : PrintCall) (text : List UInt8) : Prop where
  renders : ∃ rest, Renders c.format.chars c.args text rest
  short : text.length ≤ intMax
  complete : ∀ u, UnknownFrom c.format.chars u → ¬ [0x25, 0x6C, 0x6C] <+: u

/-- The text of a call. -/
inductive ConsoleCall.Says : ConsoleCall → List UInt8 → Prop
  | putchar {ic : Int32} : Says (.putchar ic) [UInt8.ofInt ic.toInt]
  | terminalWritestring {data : CString} : Says (.terminalWritestring data) data.chars
  | body {call : ConsoleCall} {texts : List (List UInt8)} : call.body ≠ [] →
      List.Forall₂ PrintCall.Says call.body texts → Says call texts.flatten

variable {t t' : Tty} {text : List UInt8} {c : PrintCall} {call : ConsoleCall}

theorem Tty.print_eq : ∀ (data : List UInt8) (t : Tty), t.print data = (true, t.terminalWrite data) := by
  intro data
  induction data with
  | nil =>
    intro t
    rfl
  | cons c data ih =>
    intro t
    have hc : UInt8.ofInt c.toNat = c := by
      have hlt := c.toNat_lt
      rw [UInt8.ofInt, show (c.toNat : Int) % 2 ^ 8 = c.toNat by omega, Int.toNat_natCast,
        UInt8.ofNat_toNat]
    have hne : (c.toNat : Int) ≠ eof := by
      simp only [eof]
      omega
    rw [print, putchar]
    dsimp only
    rw [if_neg hne, ih, hc]
    rfl

theorem PrintCall.Says.run (h : c.Says text) (buffer : CharArray) (t : Tty) :
    c.run buffer t = some ((text.length : Int), t.terminalWrite text) := by
  obtain ⟨rest, hr⟩ := h.renders
  rw [PrintCall.run, vprintf_complete buffer c.format hr h.short h.complete, Option.map_some]
  dsimp only
  rw [Tty.print_eq]

theorem PrintCall.runAll_eq {cs : List PrintCall} {texts : List (List UInt8)}
    (h : List.Forall₂ PrintCall.Says cs texts) : ∀ (stack : Nat → CharArray) (t : Tty),
    PrintCall.runAll stack cs t = some (t.terminalWrite texts.flatten) := by
  induction h with
  | nil =>
    intro stack t
    rfl
  | cons hc _ ih =>
    intro stack t
    rw [runAll, hc.run]
    simp only [Option.bind_eq_bind, Option.bind_some]
    rw [ih, List.flatten_cons, Tty.terminalWrite, Tty.terminalWrite, Tty.terminalWrite,
      List.foldl_append]

theorem ConsoleCall.Says.run (h : call.Says text) (stack : Nat → CharArray) (t : Tty) :
    call.run stack t = some (t.terminalWrite text) := by
  cases h with
  | putchar => rfl
  | @terminalWritestring data =>
    rw [ConsoleCall.run, Tty.terminalWritestring, Printf.strlen_eq _ data.noNul, List.take_length]
  | body hne hbody =>
    cases call with
    | putchar ic => exact absurd rfl hne
    | terminalWritestring data => exact absurd rfl hne
    | _ => exact PrintCall.runAll_eq hbody stack t

theorem ConsoleCall.Says.step_iff (h : call.Says text) :
    ConsoleStep t call t' ↔ t' = t.terminalWrite text := by
  constructor
  · rintro ⟨stack, hrun⟩
    exact Option.some.inj (hrun.symm.trans (h.run stack t))
  · rintro rfl
    exact ⟨fun _ _ => 0, h.run _ t⟩

/-! ### Formats and runs -/

/-- **A run of calls prints their texts**, and every call returns. -/
theorem console_run {calls : List ConsoleCall} {texts : List (List UInt8)}
    (h : List.Forall₂ ConsoleCall.Says calls texts) (t t' : Tty) :
    Trace ConsoleStep t calls t' ↔ t' = t.terminalWrite texts.flatten := by
  induction h generalizing t with
  | nil =>
    constructor
    · intro htrace
      generalize hl : ([] : List ConsoleCall) = l at htrace
      cases htrace with
      | nil => rfl
      | snoc _ _ => simp at hl
    · rintro rfl
      exact .nil
  | @cons call text calls texts hcall _ ih =>
    have hflat : t.terminalWrite (text :: texts).flatten
        = (t.terminalWrite text).terminalWrite texts.flatten := by
      rw [List.flatten_cons, Tty.terminalWrite, List.foldl_append]
      rfl
    rw [hflat]
    constructor
    · intro htrace
      obtain ⟨t₁, hstep, htrace⟩ := htrace.uncons
      rw [hcall.step_iff.mp hstep] at htrace
      exact (ih _).mp htrace
    · intro ht
      exact (Trace.single (hcall.step_iff.mpr rfl)).append ((ih _).mpr ht)

/-- The text of a format without an unknown specifier. -/
structure Known (f : List UInt8) (args : List VaArg) (text : List UInt8) (rest : List VaArg) :
    Prop where
  renders : Renders f args text rest
  known : UnknownFrom f []

namespace Known

variable {f w out : List UInt8} {args rest : List VaArg}

theorem nil : Known [] args [] args := ⟨.nil, .nil⟩

theorem literals (hw : 0x25 ∉ w) (h : Known f args out rest) :
    Known (w ++ f) args (w ++ out) rest := by
  induction w with
  | nil => exact h
  | cons c w ih =>
    rw [List.mem_cons, not_or] at hw
    obtain ⟨hr, hu⟩ := ih hw.2
    exact ⟨.literal (Ne.symm hw.1) hr, .literal (Ne.symm hw.1) hu⟩

theorem conversion {k : Conversion} {a : VaArg} {w : List UInt8} (hw : k.text a = some w)
    (h : Known f args out rest) :
    Known (0x25 :: (k.spelling ++ f)) (a :: args) (w ++ out) rest :=
  ⟨.conversion hw h.renders, .conversion h.known⟩

theorem last (hw : 0x25 ∉ w) : Known w args w args := by
  have h : Known (w ++ []) args (w ++ []) args := literals hw nil
  rwa [List.append_nil] at h

end Known

theorem PrintCall.Says.of_known {rest : List VaArg} (h : Known c.format.chars c.args text rest)
    (hs : text.length ≤ intMax) : c.Says text := by
  refine ⟨⟨rest, h.renders⟩, hs, ?_⟩
  intro u hu
  rw [h.known.unique hu]
  decide

theorem says_puts {string : CString} (hs : string.chars.length + 1 ≤ intMax) :
    (ConsoleCall.puts string).Says (string.chars ++ bytes "\n") := by
  have hformat : bytes "%s\n" = 0x25 :: (Conversion.s.spelling ++ bytes "\n") := by decide
  have hknown : Known (bytes "%s\n") [.string string] (string.chars ++ bytes "\n") [] := by
    rw [hformat]
    exact .conversion rfl (.last (by decide))
  have hbody : List.Forall₂ PrintCall.Says (ConsoleCall.puts string).body
      [string.chars ++ bytes "\n"] := by
    refine .cons (.of_known hknown ?_) .nil
    rwa [List.length_append]
  have htexts := ConsoleCall.Says.body (by simp [ConsoleCall.body, ChoOS.puts]) hbody
  rwa [List.flatten_singleton] at htexts

/-- **What `abort` prints.** -/
theorem runAll_abort {err : CString} (hs : err.chars.length + 16 ≤ intMax)
    (stack : Nat → CharArray) (t : Tty) : PrintCall.runAll stack (abort (some err)) t
      = some (t.terminalWrite (bytes "kernel: panic: " ++ err.chars ++ bytes "\n")) := by
  have hformat : bytes "kernel: panic: %s\n"
      = bytes "kernel: panic: " ++ 0x25 :: (Conversion.s.spelling ++ bytes "\n") := by decide
  have hknown : Known (bytes "kernel: panic: %s\n") [.string err]
      (bytes "kernel: panic: " ++ (err.chars ++ bytes "\n")) [] := by
    rw [hformat]
    exact .literals (by decide) (.conversion rfl (.last (by decide)))
  have hlen : (bytes "kernel: panic: ").length = 15 ∧ (bytes "\n").length = 1 := by decide
  have hbody : List.Forall₂ PrintCall.Says (abort (some err))
      [bytes "kernel: panic: " ++ (err.chars ++ bytes "\n")] := by
    refine .cons (.of_known hknown ?_) .nil
    simp only [List.length_append, hlen]
    omega
  rw [PrintCall.runAll_eq hbody, List.flatten_singleton, List.append_assoc]

/-- **The screen after any calls**: they return, and it is a window on the page of
their texts. -/
theorem console_screen (m : ByteMem) {calls : List ConsoleCall} {texts : List (List UInt8)}
    (h : List.Forall₂ ConsoleCall.Says calls texts) (hb : 0x08 ∉ texts.flatten) :
    (∃ t, Trace ConsoleStep (Tty.ttyInit m) calls t) ∧
    ∀ t, Trace ConsoleStep (Tty.ttyInit m) calls t →
      ∃ s, Window s t (TextPage.reference texts.flatten) := by
  refine ⟨⟨_, (console_run h _ _).mpr rfl⟩, ?_⟩
  intro t htrace
  obtain rfl := (console_run h _ _).mp htrace
  obtain ⟨s, hs⟩ := Window.Ok.terminalWrite texts.flatten 0 _ _ (Window.Ok.ttyInit m) hb
  exact ⟨s, hs.window⟩

/-- Two lines. -/
theorem console_screen_two : ∃ t, Trace ConsoleStep (Tty.ttyInit fun _ => 0)
      [.puts ⟨bytes "heap", by decide⟩, .putchar 0x4B] t ∧
    ∃ s, Window s t (TextPage.reference (bytes "heap\nK")) := by
  have htexts : List.Forall₂ ConsoleCall.Says [.puts ⟨bytes "heap", by decide⟩, .putchar 0x4B]
      [bytes "heap" ++ bytes "\n", [0x4B]] :=
    .cons (says_puts (by decide)) (.cons .putchar .nil)
  obtain ⟨⟨t, ht⟩, hscreen⟩ := console_screen (fun _ => 0) htexts (by decide)
  exact ⟨t, ht, hscreen t ht⟩

end ChoOS
