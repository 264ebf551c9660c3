import ChoOS.Lib.Memory
import ChoOS.Libc.Convert

/-!
# `vprintf`

The code of `libc/stdio/vprintf.c`, with `__append` and `__print`.  The format
pointer is the list of the bytes in front of the NUL that it has not passed, so
`peek` gives `0` at its end.  `out` are the characters given to `putchar`, and a
`va_arg` of another type than the argument has no meaning (`stuck`).

`Renders` is what the format language is meant to be, one character or conversion
after the other; the rest of the format from an unknown specifier on is copied.
`vprintf` takes literal characters in runs, and `Renders.advance` says that up to
the first unknown specifier both do the same.  There `vprintf` copies the rest
too, except behind `%ll`: those three characters are lost, and it goes on with
what is behind them.  `vprintf_renders` is when that does not happen.
-/

namespace ChoOS

/-- A NUL-terminated string, without its NUL. -/
structure CString where
  chars : List UInt8
  noNul : 0 ∉ chars

/-- The arguments of a call, as they were passed. -/
inductive VaArg
  | int (i : Int32)
  | unsigned (u : UInt32)
  | unsignedLongLong (u : UInt64)
  | longLong (d : Int64)
  | string (s : CString)

/-! ### The code -/

/-- `INT_MAX` -/
def intMax : Nat := 2147483647

/-- `EOF` -/
def eof : Int := -1

/-- `EOVERFLOW` -/
def eoverflow : Int := 75

/-- `s[i]`, where `s` ends with its NUL. -/
def peek (s : List UInt8) (i : Nat) : UInt8 := s[i]?.getD 0

def strlen : List UInt8 → Nat
  | [] => 0
  | c :: s => if c = 0 then 0 else strlen s + 1

def putchar (ic : Int) (out : List UInt8) : Int × List UInt8 := (ic, out ++ [UInt8.ofInt ic])

/-- `__print` -/
def print : List UInt8 → List UInt8 → Bool × List UInt8
  | [], out => (true, out)
  | c :: data, out =>
    let (r, out) := putchar c.toNat out
    if r = eof then (false, out) else print data out

/-- The variables of `vprintf`, and the characters that it gave to `putchar`. -/
structure Printf where
  format : List UInt8
  parameters : List VaArg
  written : Nat
  buffer : CharArray
  out : List UInt8

/-- One turn of the loop of `vprintf`. -/
inductive Turn
  /-- The loop goes on. -/
  | goOn (st : Printf)
  /-- `return err` -/
  | leave (err : Int) (out : List UInt8)
  /-- There is no argument of the type that `va_arg` asks for. -/
  | stuck

namespace Printf

/-- `__append`, and the `return` when it fails. -/
def append (data : List UInt8) (len : Nat) (st : Printf) : Turn :=
  let maxrem := u32 (intMax - st.written)
  if maxrem < len then .leave eoverflow st.out
  else
    match print (data.take len) st.out with
    | (false, out) => .leave (-1) out
    | (true, out) => .goOn { st with out := out, written := st.written + len }

/-- A number goes through `buffer`. -/
def appendNumber (f : CharArray → Option CharArray) (st : Printf) : Turn :=
  match f st.buffer with
  | none => .stuck
  | some b =>
    let text := charsUpToNul 65 0 b
    append text text.length { st with buffer := b }

/-- `while (format[amount] && format[amount] != '%') amount++`, from `amount` on. -/
def run : List UInt8 → Nat
  | [] => 0
  | c :: s => if c = 0 ∨ c = 0x25 then 0 else run s + 1

/-- The characters up to the next `%`, after the first `%` of `%%`. -/
def literalTurn (st : Printf) : Turn :=
  let format := if peek st.format 0 = 0x25 then st.format.drop 1 else st.format
  let amount := 1 + run (format.drop 1)
  append format amount { st with format := format.drop amount }

/-- An unknown specifier: everything from its `%` on. -/
def unknownTurn (st : Printf) : Turn :=
  append st.format (strlen st.format) { st with format := st.format.drop (strlen st.format) }

/-- The pointer is `n` bytes behind the `%`, and the next argument is used. -/
def behind (n : Nat) (parameters : List VaArg) (st : Printf) : Printf :=
  { st with format := st.format.drop (n + 1), parameters := parameters }

/-- Behind `%ll`. -/
def longLongTurn (st : Printf) : Turn :=
  if peek st.format 3 = 0x75 then
    match st.parameters with
    | .unsignedLongLong u :: ps => (st.behind 3 ps).appendNumber (ulltoa u 10)
    | _ => .stuck
  else if peek st.format 3 = 0x64 then
    match st.parameters with
    | .longLong d :: ps => (st.behind 3 ps).appendNumber (lltoa d 10)
    | _ => .stuck
  else .goOn (st.behind 2 st.parameters)

/-- Behind `%`. -/
def specifierTurn (st : Printf) : Turn :=
  if peek st.format 1 = 0x63 then
    match st.parameters with
    | .int i :: ps => (st.behind 1 ps).append [UInt8.ofInt i.toInt] 1
    | _ => .stuck
  else if peek st.format 1 = 0x73 then
    match st.parameters with
    | .string s :: ps => (st.behind 1 ps).append s.chars (strlen s.chars)
    | _ => .stuck
  else if peek st.format 1 = 0x64 then
    match st.parameters with
    | .int i :: ps => (st.behind 1 ps).appendNumber (itoa i 10)
    | _ => .stuck
  else if peek st.format 1 = 0x75 then
    match st.parameters with
    | .unsigned u :: ps => (st.behind 1 ps).appendNumber (utoa u 10)
    | _ => .stuck
  else if peek st.format 1 = 0x78 then
    match st.parameters with
    | .unsigned u :: ps => (st.behind 1 ps).appendNumber (utoa u 16)
    | _ => .stuck
  else if peek st.format 1 = 0x6C then
    if peek st.format 2 = 0x6C then st.longLongTurn
    else st.unknownTurn
  else st.unknownTurn

/-- The body of the loop. -/
def turn (st : Printf) : Turn :=
  if peek st.format 0 ≠ 0x25 ∨ peek st.format 1 = 0x25 then st.literalTurn
  else st.specifierTurn

/-! ### One turn -/

variable {st st' : Printf} {data s : List UInt8} {len : Nat} {c : UInt8}

theorem print_eq : ∀ data out : List UInt8, print data out = (true, out ++ data) := by
  intro data
  induction data with
  | nil =>
    intro out
    rw [print, List.append_nil]
  | cons c data ih =>
    intro out
    have hc : UInt8.ofInt c.toNat = c := by
      have hlt := c.toNat_lt
      rw [UInt8.ofInt, show (c.toNat : Int) % 2 ^ 8 = c.toNat by omega, Int.toNat_natCast,
        UInt8.ofNat_toNat]
    have hne : (c.toNat : Int) ≠ eof := by
      simp only [eof]
      omega
    rw [print, putchar]
    dsimp only
    rw [if_neg hne, ih, hc, List.append_assoc]
    rfl

theorem append_cases (data : List UInt8) (len : Nat) (st : Printf) :
    (append data len st = .goOn { st with out := st.out ++ data.take len, written := st.written + len }) ∨
    (u32 (intMax - st.written) < len ∧ append data len st = .leave eoverflow st.out) := by
  unfold append
  dsimp only
  rw [print_eq]
  split
  · exact .inr ⟨‹_›, rfl⟩
  · exact .inl rfl

theorem append_ok (h : st.written + len ≤ intMax) :
    append data len st
      = .goOn { st with out := st.out ++ data.take len, written := st.written + len } := by
  rcases append_cases data len st with he | ⟨hlt, -⟩
  · exact he
  · have hmax : intMax = 2147483647 := rfl
    rw [u32_of_lt (by omega)] at hlt
    omega

theorem strlen_le : ∀ s : List UInt8, strlen s ≤ s.length := by
  intro s
  induction s with
  | nil => exact Nat.le_refl 0
  | cons c s ih =>
    rw [strlen]
    split
    · exact Nat.zero_le _
    · exact Nat.succ_le_succ ih

theorem run_le : ∀ s : List UInt8, run s ≤ s.length := by
  intro s
  induction s with
  | nil => exact Nat.le_refl 0
  | cons c s ih =>
    rw [run]
    split
    · exact Nat.zero_le _
    · exact Nat.succ_le_succ ih

/-- What is printed was counted, and the count is an `int`. -/
structure Counted (st : Printf) : Prop where
  eq : st.written = st.out.length
  le : st.written ≤ intMax

/-- What a turn that goes on has done: `n` bytes of the format are passed.  Without
arguments the new characters are not more than these. -/
structure Moves (st st' : Printf) (n : Nat) : Prop where
  pos : 0 < n
  le : n ≤ st.format.length
  format : st'.format = st.format.drop n
  counted : Counted st → Counted st'
  short : st.parameters = [] →
    st'.parameters = [] ∧ st'.out.length ≤ st.out.length + n

/-- A turn moves on, or it leaves without having printed anything. -/
def Fair (st : Printf) : Turn → Prop
  | .goOn st' => ∃ n, Moves st st' n
  | .leave err out => err = eoverflow ∧ out = st.out
  | .stuck => True

theorem lt_of_peek {i : Nat} (h : peek s i ≠ 0) : i < s.length := by
  by_contra hge
  exact h (by rw [peek, List.getElem?_eq_none (not_lt.mp hge)]; rfl)

theorem append_counted {st₁ : Printf} (h : Counted st) (hout : st₁.out = st.out)
    (hwritten : st₁.written = st.written) (hdata : len ≤ data.length)
    (hgo : append data len st₁ = .goOn st') : Counted st' := by
  have hmax : intMax = 2147483647 := rfl
  have heq := h.eq
  have hle := h.le
  unfold append at hgo
  dsimp only at hgo
  rw [u32_of_lt (by omega), print_eq] at hgo
  split at hgo
  · exact absurd hgo (by simp)
  · obtain rfl := Turn.goOn.inj hgo
    refine ⟨?_, ?_⟩
    · simp only [hout, List.length_append, List.length_take]
      omega
    · dsimp only
      omega

theorem append_fair {st₁ : Printf} {n : Nat} (hpos : 0 < n) (hle : n ≤ st.format.length)
    (hformat : st₁.format = st.format.drop n) (hout : st₁.out = st.out)
    (hwritten : st₁.written = st.written) (hdata : len ≤ data.length)
    (hshort : st.parameters = [] → st₁.parameters = [] ∧ len ≤ n) :
    Fair st (append data len st₁) := by
  rcases append_cases data len st₁ with he | ⟨-, he⟩
  · have hcounted (h : Counted st) := append_counted h hout hwritten hdata he
    rw [he]
    refine ⟨n, hpos, hle, hformat, hcounted, ?_⟩
    intro hnone
    obtain ⟨hps, hlen⟩ := hshort hnone
    refine ⟨hps, ?_⟩
    simp only [hout, List.length_append, List.length_take]
    omega
  · rw [he]
    exact ⟨rfl, hout⟩

theorem literalTurn_fair (h0 : peek st.format 0 ≠ 0)
    (h : peek st.format 0 ≠ 0x25 ∨ peek st.format 1 = 0x25) : Fair st st.literalTurn := by
  unfold literalTurn
  have hlen := lt_of_peek h0
  by_cases hp : peek st.format 0 = 0x25
  · have hlen' : 1 < st.format.length := by
      refine lt_of_peek ?_
      rw [h.resolve_left (not_not.mpr hp)]
      decide
    have hrun := run_le ((st.format.drop 1).drop 1)
    rw [List.length_drop, List.length_drop] at hrun
    rw [if_pos hp]
    have hdrop : (st.format.drop 1).drop (1 + run ((st.format.drop 1).drop 1))
        = st.format.drop (1 + (1 + run ((st.format.drop 1).drop 1))) := List.drop_drop
    exact append_fair (by omega) (by omega) hdrop rfl rfl (by rw [List.length_drop]; omega)
      fun hnone => ⟨hnone, by omega⟩
  · have hrun := run_le (st.format.drop 1)
    rw [List.length_drop] at hrun
    rw [if_neg hp]
    exact append_fair (by omega) (by omega) rfl rfl rfl (by omega)
      fun hnone => ⟨hnone, Nat.le_refl _⟩

theorem unknownTurn_fair (h0 : peek st.format 0 ≠ 0) : Fair st st.unknownTurn := by
  have hpos : 0 < strlen st.format := by
    cases hf : st.format with
    | nil => simp [hf, peek] at h0
    | cons c s =>
      have hc : c ≠ 0 := by simpa [hf, peek] using h0
      rw [strlen, if_neg hc]
      exact Nat.succ_pos _
  exact append_fair hpos (strlen_le _) rfl rfl rfl (strlen_le _)
    fun hnone => ⟨hnone, Nat.le_refl _⟩

theorem behind_fair {n : Nat} {a : VaArg} {ps : List VaArg} (hps : st.parameters = a :: ps)
    (hn : n < st.format.length) (hdata : len ≤ data.length) :
    Fair st ((st.behind n ps).append data len) :=
  append_fair (Nat.succ_pos n) hn rfl rfl rfl hdata fun hnone => by simp [hps] at hnone

theorem number_fair {n : Nat} {a : VaArg} {ps : List VaArg} {f : CharArray → Option CharArray}
    (hps : st.parameters = a :: ps) (hn : n < st.format.length) :
    Fair st ((st.behind n ps).appendNumber f) := by
  unfold appendNumber
  split
  · trivial
  · exact append_fair (Nat.succ_pos n) hn rfl rfl rfl (Nat.le_refl _)
      fun hnone => by simp [hps] at hnone

theorem longLongTurn_fair (h : peek st.format 2 ≠ 0) : Fair st st.longLongTurn := by
  have hlen := lt_of_peek h
  unfold longLongTurn
  split
  · have hlen' : 3 < st.format.length := lt_of_peek (by simp [*])
    split
    · exact number_fair ‹_› hlen'
    · trivial
  · split
    · have hlen' : 3 < st.format.length := lt_of_peek (by simp [*])
      split
      · exact number_fair ‹_› hlen'
      · trivial
    · exact ⟨3, by decide, hlen, rfl, fun h => ⟨h.eq, h.le⟩,
        fun hnone => ⟨hnone, Nat.le_add_right _ _⟩⟩

theorem specifierTurn_fair (h0 : peek st.format 0 ≠ 0) : Fair st st.specifierTurn := by
  have hbehind : ∀ c, peek st.format 1 = c → c ≠ 0 → 1 < st.format.length :=
    fun c hc hne => lt_of_peek (hc ▸ hne)
  unfold specifierTurn
  split
  · split
    · exact behind_fair ‹_› (hbehind _ ‹_› (by decide)) (Nat.le_refl _)
    · trivial
  split
  · split
    · exact behind_fair ‹_› (hbehind _ ‹_› (by decide)) (strlen_le _)
    · trivial
  split
  · split
    · exact number_fair ‹_› (hbehind _ ‹_› (by decide))
    · trivial
  split
  · split
    · exact number_fair ‹_› (hbehind _ ‹_› (by decide))
    · trivial
  split
  · split
    · exact number_fair ‹_› (hbehind _ ‹_› (by decide))
    · trivial
  split
  · split
    · exact longLongTurn_fair (by simp [*])
    · exact unknownTurn_fair h0
  · exact unknownTurn_fair h0

/-- **What a turn does**: it passes at least one byte of the format, and not its NUL,
or it leaves. -/
theorem turn_fair (h0 : peek st.format 0 ≠ 0) : Fair st st.turn := by
  unfold turn
  split
  · exact literalTurn_fair h0 ‹_›
  · exact specifierTurn_fair h0

theorem turn_decreases (h0 : peek st.format 0 ≠ 0) (h : st.turn = .goOn st') :
    st'.format.length < st.format.length := by
  have hfair := turn_fair h0
  rw [h] at hfair
  obtain ⟨n, hn⟩ := hfair
  rw [hn.format, List.length_drop]
  have := hn.pos
  have := hn.le
  omega

/-- The loop of `vprintf`, with its result and all that was printed. -/
def loop (st : Printf) : Option (Int × List UInt8) :=
  if _h0 : peek st.format 0 = 0 then some (st.written, st.out)
  else
    match _h : st.turn with
    | .goOn st' => loop st'
    | .leave err out => some (err, out)
    | .stuck => none
termination_by st.format.length
decreasing_by exact turn_decreases _h0 _h

end Printf

/-- `vprintf`; nothing is known about its `buffer` at the start. -/
def vprintf (buffer : CharArray) (format : CString) (parameters : List VaArg) :
    Option (Int × List UInt8) :=
  Printf.loop ⟨format.chars, parameters, 0, buffer, []⟩

/-! ### The format language -/

/-- The conversions. -/
inductive Conversion
  | c | s | d | u | x | llu | lld
  deriving DecidableEq

namespace Conversion

/-- What stands behind the `%`. -/
def spelling : Conversion → List UInt8
  | .c => [0x63]
  | .s => [0x73]
  | .d => [0x64]
  | .u => [0x75]
  | .x => [0x78]
  | .llu => [0x6C, 0x6C, 0x75]
  | .lld => [0x6C, 0x6C, 0x64]

/-- The string that a number function leaves in an empty buffer. -/
def textOf (f : CharArray → Option CharArray) : Option (List UInt8) :=
  (f fun _ => 0).map (charsUpToNul 65 0)

/-- The text of an argument of the right type. -/
def text : Conversion → VaArg → Option (List UInt8)
  | .c, .int v => some [UInt8.ofInt v.toInt]
  | .s, .string v => some v.chars
  | .d, .int v => textOf (itoa v 10)
  | .u, .unsigned v => textOf (utoa v 10)
  | .x, .unsigned v => textOf (utoa v 16)
  | .llu, .unsignedLongLong v => textOf (ulltoa v 10)
  | .lld, .longLong v => textOf (lltoa v 10)
  | _, _ => none

end Conversion

/-- Neither `%` nor a conversion stands there. -/
def Unknown (rest : List UInt8) : Prop :=
  rest.head? ≠ some 0x25 ∧ ∀ k : Conversion, ¬ k.spelling <+: rest

/-- The text of a format and the arguments that it leaves. -/
inductive Renders : List UInt8 → List VaArg → List UInt8 → List VaArg → Prop
  | nil {args : List VaArg} : Renders [] args [] args
  | literal {c : UInt8} {f out : List UInt8} {args args' : List VaArg} : c ≠ 0x25 →
      Renders f args out args' → Renders (c :: f) args (c :: out) args'
  | percent {f out : List UInt8} {args args' : List VaArg} :
      Renders f args out args' → Renders (0x25 :: 0x25 :: f) args (0x25 :: out) args'
  | conversion {k : Conversion} {a : VaArg} {t f out : List UInt8} {args args' : List VaArg} :
      k.text a = some t → Renders f args out args' →
      Renders (0x25 :: (k.spelling ++ f)) (a :: args) (t ++ out) args'
  | unknown {f : List UInt8} {args : List VaArg} : Unknown f →
      Renders (0x25 :: f) args (0x25 :: f) args

/-- The rest of a format from its first unknown specifier on, if there is one. -/
inductive UnknownFrom : List UInt8 → List UInt8 → Prop
  | nil : UnknownFrom [] []
  | literal {c : UInt8} {f u : List UInt8} : c ≠ 0x25 → UnknownFrom f u → UnknownFrom (c :: f) u
  | percent {f u : List UInt8} : UnknownFrom f u → UnknownFrom (0x25 :: 0x25 :: f) u
  | conversion {k : Conversion} {f u : List UInt8} : UnknownFrom f u →
      UnknownFrom (0x25 :: (k.spelling ++ f)) u
  | unknown {f : List UInt8} : Unknown f → UnknownFrom (0x25 :: f) (0x25 :: f)

/-! ### The turns of the code -/

namespace Printf

variable {st : Printf} {s f t : List UInt8} {c : UInt8}

theorem strlen_eq : ∀ s : List UInt8, 0 ∉ s → strlen s = s.length := by
  intro s
  induction s with
  | nil =>
    intro _
    rfl
  | cons c s ih =>
    intro h
    rw [List.mem_cons, not_or] at h
    rw [strlen, if_neg (Ne.symm h.1), ih h.2, List.length_cons]

theorem run_spec : ∀ s : List UInt8, 0 ∉ s → ∀ c ∈ s.take (run s), c ≠ 0x25 := by
  intro s
  induction s with
  | nil =>
    intro _ c hc
    simp at hc
  | cons c s ih =>
    intro h
    rw [List.mem_cons, not_or] at h
    rw [run]
    split
    · intro c hc
      simp at hc
    · intro d hd
      rw [List.take_succ_cons, List.mem_cons] at hd
      rcases hd with rfl | hd
      · exact fun he => ‹¬ (d = 0 ∨ d = 0x25)› (.inr he)
      · exact ih h.2 d hd

theorem turn_literal (hf : st.format = c :: s) (hc : c ≠ 0x25) :
    st.turn = append (c :: s) (run s + 1) { st with format := s.drop (run s) } := by
  have hp : peek st.format 0 = c := by rw [hf]; rfl
  rw [turn, if_pos (.inl (hp ▸ hc)), literalTurn, hp, if_neg hc, hf, Nat.add_comm 1]
  rfl

theorem turn_percent (hf : st.format = 0x25 :: 0x25 :: s) :
    st.turn = append (0x25 :: s) (run s + 1) { st with format := s.drop (run s) } := by
  have hp : peek st.format 0 = 0x25 := by rw [hf]; rfl
  have hp' : peek st.format 1 = 0x25 := by rw [hf]; rfl
  rw [turn, if_pos (.inr hp'), literalTurn, hp, if_pos rfl, hf, Nat.add_comm 1]
  rfl

theorem textOf_eq {g : CharArray → Option CharArray} (h : ∃ text, Prints g text)
    (ht : Conversion.textOf g = some t) : Prints g t := by
  obtain ⟨text, hp⟩ := h
  obtain ⟨b, hb, rfl⟩ := Option.map_eq_some_iff.mp ht
  rwa [hp.chars hb]

theorem appendNumber_eq {g : CharArray → Option CharArray} (h : Prints g t) :
    ∃ b, st.appendNumber g = append t t.length { st with buffer := b } := by
  have hb := h.eq st.buffer
  refine ⟨storeChars st.buffer 0 (t ++ [0]), ?_⟩
  rw [appendNumber, hb]
  dsimp only
  rw [h.chars hb]

theorem turn_conversion {k : Conversion} {a : VaArg} {ps : List VaArg}
    (hf : st.format = 0x25 :: (k.spelling ++ f)) (hps : st.parameters = a :: ps)
    (ht : k.text a = some t) :
    ∃ b, st.turn = append t t.length ⟨f, ps, st.written, b, st.out⟩ := by
  obtain ⟨format, parameters, written, buffer, out⟩ := st
  subst hf
  subst hps
  cases k with
  | c =>
    cases a with
    | int i =>
      obtain rfl := Option.some.inj ht
      exact ⟨buffer, rfl⟩
    | _ => exact absurd ht (by simp [Conversion.text])
  | s =>
    cases a with
    | string str =>
      obtain rfl := Option.some.inj ht
      refine ⟨buffer, ?_⟩
      have hturn : Printf.turn ⟨0x25 :: (Conversion.s.spelling ++ f), .string str :: ps, written,
          buffer, out⟩ = append str.chars (strlen str.chars) ⟨f, ps, written, buffer, out⟩ := rfl
      rw [hturn, strlen_eq str.chars str.noNul]
    | _ => exact absurd ht (by simp [Conversion.text])
  | d =>
    cases a with
    | int i => exact appendNumber_eq (textOf_eq (itoa_prints i) ht)
    | _ => exact absurd ht (by simp [Conversion.text])
  | u =>
    cases a with
    | unsigned v => exact appendNumber_eq (textOf_eq ⟨_, utoa_prints v (by decide) (by decide)⟩ ht)
    | _ => exact absurd ht (by simp [Conversion.text])
  | x =>
    cases a with
    | unsigned v => exact appendNumber_eq (textOf_eq ⟨_, utoa_prints v (by decide) (by decide)⟩ ht)
    | _ => exact absurd ht (by simp [Conversion.text])
  | llu =>
    cases a with
    | unsignedLongLong v =>
      exact appendNumber_eq (textOf_eq ⟨_, ulltoa_prints v (by decide) (by decide)⟩ ht)
    | _ => exact absurd ht (by simp [Conversion.text])
  | lld =>
    cases a with
    | longLong v => exact appendNumber_eq (textOf_eq (lltoa_prints v) ht)
    | _ => exact absurd ht (by simp [Conversion.text])

theorem cons_of_peek (hp : peek s 0 = c) (hc : c ≠ 0) : ∃ s', s = c :: s' := by
  cases s with
  | nil => exact absurd hp.symm hc
  | cons d s' =>
    have hd : d = c := hp
    exact ⟨s', by rw [hd]⟩

theorem Unknown.peek_ne (h : Unknown s) (k : Conversion) (hk : k.spelling = [c]) (hc : c ≠ 0) :
    peek s 0 ≠ c := by
  intro hp
  obtain ⟨s', rfl⟩ := cons_of_peek hp hc
  exact h.2 k ⟨s', by rw [hk]; rfl⟩

theorem Unknown.peek_percent (h : Unknown s) : peek s 0 ≠ 0x25 := by
  intro hp
  obtain ⟨s', rfl⟩ := cons_of_peek hp (by decide)
  exact h.1 rfl

/-- An unknown specifier comes to the last branches of the code. -/
theorem specifierTurn_unknown (hf : st.format = 0x25 :: s) (h : Unknown s) :
    st.turn = if peek s 0 = 0x6C then
        if peek st.format 2 = 0x6C then st.longLongTurn else st.unknownTurn
      else st.unknownTurn := by
  have hp : peek st.format 0 = 0x25 := by rw [hf]; rfl
  have hone : peek st.format 1 = peek s 0 := by rw [hf]; rfl
  rw [turn, if_neg (not_or.mpr ⟨not_not.mpr hp, hone ▸ Unknown.peek_percent h⟩), specifierTurn, hone,
    if_neg (Unknown.peek_ne h .c rfl (by decide)), if_neg (Unknown.peek_ne h .s rfl (by decide)),
    if_neg (Unknown.peek_ne h .d rfl (by decide)), if_neg (Unknown.peek_ne h .u rfl (by decide)),
    if_neg (Unknown.peek_ne h .x rfl (by decide))]

theorem turn_unknown (hf : st.format = 0x25 :: s) (h : Unknown s) (hl : ¬ [0x6C, 0x6C] <+: s) :
    st.turn = st.unknownTurn := by
  rw [specifierTurn_unknown hf h]
  split
  · obtain ⟨s', rfl⟩ := cons_of_peek ‹peek s 0 = 0x6C› (by decide)
    refine if_neg ?_
    intro hp
    rw [hf] at hp
    obtain ⟨s'', rfl⟩ := cons_of_peek (show peek s' 0 = 0x6C from hp) (by decide)
    exact hl ⟨s'', rfl⟩
  · rfl

/-- **The branch that is missing**: behind `%ll` the loop goes on. -/
theorem turn_lost (hf : st.format = 0x25 :: 0x6C :: 0x6C :: s) (h : Unknown (0x6C :: 0x6C :: s)) :
    st.turn = .goOn { st with format := s } := by
  have hu : peek s 0 ≠ 0x75 := by
    intro hp
    obtain ⟨s', rfl⟩ := cons_of_peek hp (by decide)
    exact h.2 .llu ⟨s', rfl⟩
  have hd : peek s 0 ≠ 0x64 := by
    intro hp
    obtain ⟨s', rfl⟩ := cons_of_peek hp (by decide)
    exact h.2 .lld ⟨s', rfl⟩
  have hthree : peek st.format 3 = peek s 0 := by rw [hf]; rfl
  have htwo : peek st.format 2 = 0x6C := by rw [hf]; rfl
  have hzero : peek (0x6C :: 0x6C :: s) 0 = 0x6C := rfl
  rw [specifierTurn_unknown hf h, if_pos hzero, if_pos htwo, longLongTurn, hthree, if_neg hu, if_neg hd,
    behind, hf]
  rfl

/-! ### Whole formats -/

theorem loop_end (h : st.format = []) : st.loop = some ((st.written : Int), st.out) := by
  rw [loop, dif_pos (by rw [h]; rfl)]

theorem loop_turn {st' : Printf} (hf : st.format = c :: s) (hc : c ≠ 0) (h : st.turn = .goOn st') :
    st.loop = st'.loop := by
  have h0 : ¬ peek st.format 0 = 0 := by
    rw [hf]
    exact hc
  rw [loop, dif_neg h0]
  split
  · rename_i h'
    rw [h] at h'
    obtain rfl := Turn.goOn.inj h'
    rfl
  · rename_i h'
    exact absurd (h.symm.trans h') (by simp)
  · rename_i h'
    exact absurd (h.symm.trans h') (by simp)

end Printf

theorem Renders.of_literal {c : UInt8} {f out : List UInt8} {args args' : List VaArg} (hc : c ≠ 0x25)
    (h : Renders (c :: f) args out args') : ∃ out', out = c :: out' ∧ Renders f args out' args' := by
  generalize hg : c :: f = g at h
  cases h with
  | nil => exact absurd hg (by simp)
  | literal _ h =>
    obtain ⟨rfl, rfl⟩ := List.cons.inj hg
    exact ⟨_, rfl, h⟩
  | percent => exact absurd (List.cons.inj hg).1 hc
  | conversion => exact absurd (List.cons.inj hg).1 hc
  | unknown => exact absurd (List.cons.inj hg).1 hc

theorem Renders.of_run {f : List UInt8} {args args' : List VaArg} : ∀ {w out : List UInt8},
    (∀ c ∈ w, c ≠ 0x25) → Renders (w ++ f) args out args' →
    ∃ out', out = w ++ out' ∧ Renders f args out' args' := by
  intro w
  induction w with
  | nil =>
    intro out _ h
    exact ⟨out, rfl, h⟩
  | cons c w ih =>
    intro out hw h
    obtain ⟨out', rfl, h'⟩ := Renders.of_literal (hw c (List.mem_cons_self ..)) h
    obtain ⟨out'', rfl, h''⟩ := ih (fun d hd => hw d (List.mem_cons_of_mem _ hd)) h'
    exact ⟨out'', rfl, h''⟩

theorem UnknownFrom.run {f u : List UInt8} (h : UnknownFrom f u) : ∀ {w : List UInt8},
    (∀ c ∈ w, c ≠ 0x25) → UnknownFrom (w ++ f) u := by
  intro w
  induction w with
  | nil =>
    intro _
    exact h
  | cons c w ih =>
    intro hw
    exact .literal (hw c (List.mem_cons_self ..)) (ih fun d hd => hw d (List.mem_cons_of_mem _ hd))

namespace Printf

variable {st : Printf} {s f out : List UInt8} {args args' : List VaArg}

/-- Up to the first unknown specifier, `u`, the code prints what it should. -/
structure Reaches (st : Printf) (f text : List UInt8) (args' : List VaArg) (st₁ : Printf)
    (u : List UInt8) : Prop where
  loop : st.loop = st₁.loop
  unknown : UnknownFrom f u
  format : st₁.format = u
  parameters : st₁.parameters = args'
  printed : st₁.out ++ u = st.out ++ text
  written : st₁.written + u.length = st.written + text.length

theorem Reaches.step {st' st₁ : Printf} {t u f' : List UInt8} (h : Reaches st' f out args' st₁ u)
    (hloop : st.loop = st'.loop) (hout : st'.out = st.out ++ t)
    (hwritten : st'.written = st.written + t.length) (hfrom : UnknownFrom f' u) :
    Reaches st f' (t ++ out) args' st₁ u := by
  refine ⟨hloop.trans h.loop, hfrom, h.format, h.parameters, ?_, ?_⟩
  · rw [h.printed, hout, List.append_assoc]
  · rw [h.written, hwritten, List.length_append]
    omega

theorem reaches_run {c d : UInt8} {s' : List UInt8} (hs : Renders s args out args') (hs0 : 0 ∉ s)
    (hformat : st.format = d :: s') (hd : d ≠ 0) (hps : st.parameters = args)
    (hturn : st.turn = append (c :: s) (run s + 1) { st with format := s.drop (run s) })
    (hw : st.written + (out.length + 1) ≤ intMax) (hfrom : ∀ u, UnknownFrom s u → UnknownFrom f u)
    (hrest : ∀ (out' : List UInt8) (st' : Printf), Renders (s.drop (run s)) args out' args' →
      st'.format = s.drop (run s) → st'.parameters = args → st'.written + out'.length ≤ intMax →
      ∃ st₁ u, st'.Reaches (s.drop (run s)) out' args' st₁ u) :
    ∃ st₁ u, st.Reaches f (c :: out) args' st₁ u := by
  have hlit := run_spec s hs0
  have hlen : (s.take (run s)).length = run s := by
    rw [List.length_take, Nat.min_eq_left (run_le s)]
  rw [← List.take_append_drop (run s) s] at hs
  obtain ⟨out', rfl, hs'⟩ := Renders.of_run hlit hs
  rw [List.length_append, hlen] at hw
  rw [append_ok (by dsimp only; omega)] at hturn
  obtain ⟨st₁, u, h⟩ := hrest out' ⟨s.drop (run s), st.parameters, st.written + (run s + 1), st.buffer,
    st.out ++ (c :: s).take (run s + 1)⟩ hs' rfl hps (by dsimp only; omega)
  refine ⟨st₁, u, ?_⟩
  refine h.step (t := c :: s.take (run s)) (loop_turn hformat hd hturn) rfl ?_ (hfrom u ?_)
  · simp only [List.length_cons, hlen]
  · rw [← List.take_append_drop (run s) s]
    exact h.unknown.run hlit

end Printf

/-- **The code and the language go together** up to the first unknown specifier.
The induction is on the length of the format, since a turn takes a whole run. -/
theorem Renders.advance : ∀ (n : Nat) {f out : List UInt8} {args args' : List VaArg} (st : Printf),
    f.length ≤ n → 0 ∉ f → Renders f args out args' → st.format = f → st.parameters = args →
    st.written + out.length ≤ intMax → ∃ st₁ u, st.Reaches f out args' st₁ u := by
  intro n
  induction n with
  | zero =>
    intro f out args args' st hn _ h hf hps _
    obtain rfl := List.length_eq_zero_iff.mp (Nat.le_zero.mp hn)
    cases h
    exact ⟨st, [], rfl, .nil, hf, hps, rfl, rfl⟩
  | succ n ih =>
    intro f out args args' st hn h0 h hf hps hw
    cases h with
    | nil => exact ⟨st, [], rfl, .nil, hf, hps, rfl, rfl⟩
    | @literal c s out _ _ hc h =>
      obtain ⟨hc0, hs0⟩ := not_or.mp (List.mem_cons.not.mp h0)
      rw [List.length_cons] at hn hw
      refine Printf.reaches_run h hs0 hf (Ne.symm hc0) hps (Printf.turn_literal hf hc) hw
        (fun u => .literal hc) ?_
      intro out' st' h' hf' hps' hw'
      exact ih st' (by rw [List.length_drop]; omega) (fun hm => hs0 (List.mem_of_mem_drop hm)) h' hf'
        hps' hw'
    | @percent s out _ _ h =>
      have hs0 : 0 ∉ s := fun hm => h0 (by simp [hm])
      rw [List.length_cons, List.length_cons] at hn
      rw [List.length_cons] at hw
      refine Printf.reaches_run h hs0 hf (by decide) hps (Printf.turn_percent hf) hw
        (fun u => .percent) ?_
      intro out' st' h' hf' hps' hw'
      exact ih st' (by rw [List.length_drop]; omega) (fun hm => hs0 (List.mem_of_mem_drop hm)) h' hf'
        hps' hw'
    | @conversion k a t s out args _ ht h =>
      rw [List.length_append] at hw
      obtain ⟨b, hturn⟩ := Printf.turn_conversion hf hps ht
      rw [Printf.append_ok (by dsimp only; omega), List.take_length] at hturn
      rw [List.length_cons, List.length_append] at hn
      obtain ⟨st₁, u, h'⟩ := ih ⟨s, args, st.written + t.length, b, st.out ++ t⟩ (by omega)
        (fun hm => h0 (by simp [hm])) h rfl rfl (by dsimp only; omega)
      exact ⟨st₁, u, h'.step (Printf.loop_turn hf (by decide) hturn) rfl rfl (.conversion h'.unknown)⟩
    | unknown hu => exact ⟨st, _, rfl, .unknown hu, hf, hps, rfl, rfl⟩

/-! ### The first unknown specifier -/

namespace Conversion

theorem spelling_append_inj {k k' : Conversion} {f f' : List UInt8}
    (h : k.spelling ++ f = k'.spelling ++ f') : f = f' := by
  cases k <;> cases k' <;> simp_all [spelling]

theorem spelling_append_ne {k : Conversion} {f f' : List UInt8} : k.spelling ++ f ≠ 0x25 :: f' := by
  cases k <;> simp [spelling]

end Conversion

namespace UnknownFrom

variable {c : UInt8} {f u u' : List UInt8} {k : Conversion}

theorem of_literal (hc : c ≠ 0x25) (h : UnknownFrom (c :: f) u) : UnknownFrom f u := by
  generalize hg : c :: f = g at h
  cases h with
  | nil => exact absurd hg (by simp)
  | literal _ h => exact (List.cons.inj hg).2 ▸ h
  | percent => exact absurd (List.cons.inj hg).1 hc
  | conversion => exact absurd (List.cons.inj hg).1 hc
  | unknown => exact absurd (List.cons.inj hg).1 hc

theorem of_percent (h : UnknownFrom (0x25 :: 0x25 :: f) u) : UnknownFrom f u := by
  generalize hg : 0x25 :: 0x25 :: f = g at h
  cases h with
  | nil => exact absurd hg (by simp)
  | literal hc => exact absurd (List.cons.inj hg).1.symm hc
  | percent h => exact (List.cons.inj (List.cons.inj hg).2).2 ▸ h
  | conversion => exact absurd (List.cons.inj hg).2.symm Conversion.spelling_append_ne
  | unknown h => exact absurd (congrArg List.head? (List.cons.inj hg).2.symm) h.1

theorem of_conversion (h : UnknownFrom (0x25 :: (k.spelling ++ f)) u) : UnknownFrom f u := by
  generalize hg : 0x25 :: (k.spelling ++ f) = g at h
  cases h with
  | nil => exact absurd hg (by simp)
  | literal hc => exact absurd (List.cons.inj hg).1.symm hc
  | percent => exact absurd (List.cons.inj hg).2 Conversion.spelling_append_ne
  | conversion h => exact Conversion.spelling_append_inj (List.cons.inj hg).2 ▸ h
  | unknown h => exact absurd ⟨f, (List.cons.inj hg).2⟩ (h.2 k)

theorem of_unknown (hf : Unknown f) (h : UnknownFrom (0x25 :: f) u) : u = 0x25 :: f := by
  generalize hg : 0x25 :: f = g at h
  cases h with
  | nil => exact absurd hg (by simp)
  | literal hc => exact absurd (List.cons.inj hg).1.symm hc
  | percent => exact absurd (congrArg List.head? (List.cons.inj hg).2) hf.1
  | @conversion k => exact absurd ⟨_, (List.cons.inj hg).2.symm⟩ (hf.2 k)
  | unknown => rfl

theorem unique (h : UnknownFrom f u) : UnknownFrom f u' → u' = u := by
  induction h with
  | nil =>
    intro h'
    cases h'
    rfl
  | literal hc _ ih => exact fun h' => ih (h'.of_literal hc)
  | percent _ ih => exact fun h' => ih h'.of_percent
  | conversion _ ih => exact fun h' => ih h'.of_conversion
  | unknown hf => exact fun h' => h'.of_unknown hf

theorem shape (h : UnknownFrom f u) : u <:+ f ∧ (u = [] ∨ ∃ s, u = 0x25 :: s ∧ Unknown s) := by
  induction h with
  | nil => exact ⟨List.suffix_rfl, .inl rfl⟩
  | literal _ _ ih => exact ⟨ih.1.trans (List.suffix_cons _ _), ih.2⟩
  | percent _ ih => exact ⟨ih.1.trans ⟨[0x25, 0x25], rfl⟩, ih.2⟩
  | @conversion k f u _ ih => exact ⟨ih.1.trans ⟨0x25 :: k.spelling, rfl⟩, ih.2⟩
  | unknown hf => exact ⟨List.suffix_rfl, .inr ⟨_, rfl, hf⟩⟩

end UnknownFrom

/-! ### The result -/

/-- Without arguments the code prints no more than what is left of the format. -/
theorem Printf.loop_short : ∀ (n : Nat) (st : Printf) {r : Int} {out : List UInt8},
    st.format.length ≤ n → st.parameters = [] → st.loop = some (r, out) →
    out.length ≤ st.out.length + st.format.length := by
  intro n
  induction n with
  | zero =>
    intro st r out hn _ h
    have hnil : st.format = [] := List.length_eq_zero_iff.mp (Nat.le_zero.mp hn)
    rw [loop_end hnil] at h
    obtain ⟨-, rfl⟩ := Prod.mk.inj (Option.some.inj h)
    exact Nat.le_add_right _ _
  | succ n ih =>
    intro st r out hn hps h
    rw [loop] at h
    by_cases h0 : peek st.format 0 = 0
    · rw [dif_pos h0] at h
      obtain ⟨-, rfl⟩ := Prod.mk.inj (Option.some.inj h)
      exact Nat.le_add_right _ _
    rw [dif_neg h0] at h
    have hfair := turn_fair h0
    split at h
    · rename_i st' hturn
      rw [hturn] at hfair
      obtain ⟨k, hk⟩ := hfair
      obtain ⟨hps', hout⟩ := hk.short hps
      have hlen : st'.format.length = st.format.length - k := by rw [hk.format, List.length_drop]
      have hpos := hk.pos
      have hle := hk.le
      have := ih st' (by omega) hps' h
      omega
    · rename_i err out' hturn
      rw [hturn] at hfair
      obtain ⟨-, rfl⟩ := Prod.mk.inj (Option.some.inj h)
      rw [hfair.2]
      exact Nat.le_add_right _ _
    · exact absurd h (by simp)

theorem Printf.loop_unknown {st : Printf} {s : List UInt8} (hf : st.format = 0x25 :: s)
    (hs : Unknown s) (h0 : 0 ∉ st.format) (hl : ¬ [0x25, 0x6C, 0x6C] <+: st.format)
    (hw : st.written + st.format.length ≤ intMax) :
    st.loop = some (((st.written + st.format.length : Nat) : Int), st.out ++ st.format) := by
  have hlen := strlen_eq st.format h0
  have hturn : st.turn = st.unknownTurn := by
    refine turn_unknown hf hs ?_
    rintro ⟨t, rfl⟩
    exact hl ⟨t, hf.symm⟩
  rw [unknownTurn, hlen, append_ok (by exact hw), List.take_length] at hturn
  refine (loop_turn hf (by decide) hturn).trans (loop_end ?_)
  exact List.drop_length

theorem vprintf_complete (buffer : CharArray) (format : CString) {args rest : List VaArg}
    {out : List UInt8} (h : Renders format.chars args out rest) (hmax : out.length ≤ intMax)
    (hl : ∀ u, UnknownFrom format.chars u → ¬ [0x25, 0x6C, 0x6C] <+: u) :
    vprintf buffer format args = some ((out.length : Int), out) := by
  obtain ⟨st₁, u, hr⟩ := Renders.advance _ ⟨format.chars, args, 0, buffer, []⟩ (Nat.le_refl _)
    format.noNul h rfl rfl (by simpa using hmax)
  have hprinted : st₁.out ++ u = out := hr.printed
  have hwritten : st₁.written + u.length = out.length := hr.written.trans (Nat.zero_add _)
  obtain ⟨hsuffix, hshape⟩ := hr.unknown.shape
  rw [vprintf, hr.loop]
  rcases hshape with rfl | ⟨s, rfl, hs⟩
  · rw [List.append_nil] at hprinted
    rw [Printf.loop_end hr.format, hprinted, ← hwritten]
    rfl
  · have h0 : 0 ∉ st₁.format := by
      rw [hr.format]
      exact fun hm => format.noNul (hsuffix.mem hm)
    rw [Printf.loop_unknown hr.format hs h0 (by rw [hr.format]; exact hl _ hr.unknown)
      (by rw [hr.format]; omega), hr.format, hprinted, hwritten]

/-- Without arguments left, what `%ll` loses is missing at the end. -/
theorem vprintf_loses (buffer : CharArray) (format : CString) {args : List VaArg} {r : Int}
    {out t : List UInt8} (h : Renders format.chars args out [])
    (hu : UnknownFrom format.chars ([0x25, 0x6C, 0x6C] ++ t)) (hmax : out.length ≤ intMax) :
    vprintf buffer format args ≠ some (r, out) := by
  intro hloop
  obtain ⟨st₁, u, hr⟩ := Renders.advance _ ⟨format.chars, args, 0, buffer, []⟩ (Nat.le_refl _)
    format.noNul h rfl rfl (by simpa using hmax)
  have hprinted : st₁.out ++ u = out := hr.printed
  rw [vprintf, hr.loop] at hloop
  obtain rfl := hu.unique hr.unknown
  have hunknown : Unknown (0x6C :: 0x6C :: t) := by
    rcases hr.unknown.shape.2 with he | ⟨s, he, hs⟩
    · exact absurd he (by simp)
    · obtain rfl := (List.cons.inj he).2
      exact hs
  rw [Printf.loop_turn hr.format (by decide) (Printf.turn_lost hr.format hunknown)] at hloop
  have hshort : out.length ≤ st₁.out.length + t.length :=
    Printf.loop_short _ { st₁ with format := t } (Nat.le_refl _) hr.parameters hloop
  have hlen := congrArg List.length hprinted
  simp only [List.length_append, List.length_cons, List.length_nil] at hlen
  omega

/-- **`vprintf` renders its format** exactly when the first unknown specifier in it
does not begin with `%ll`. -/
theorem vprintf_renders (buffer : CharArray) (format : CString) {args : List VaArg}
    {out : List UInt8} (h : Renders format.chars args out []) (hmax : out.length ≤ intMax) :
    (∃ r, vprintf buffer format args = some (r, out)) ↔
      ∀ u, UnknownFrom format.chars u → ¬ [0x25, 0x6C, 0x6C] <+: u := by
  constructor
  · rintro ⟨r, hloop⟩ u hu ⟨t, rfl⟩
    exact vprintf_loses buffer format h hu hmax hloop
  · exact fun hl => ⟨_, vprintf_complete buffer format h hmax hl⟩

/-- `"%s%%%q"` with one string: an unknown specifier at the end. -/
theorem vprintf_renders_string : ∃ r,
    vprintf (fun _ => 0) ⟨[0x25, 0x73, 0x25, 0x25, 0x25, 0x71], by decide⟩
      [.string ⟨[0x61, 0x62], by decide⟩] = some (r, [0x61, 0x62, 0x25, 0x25, 0x71]) := by
  have hq : Unknown [0x71] := ⟨by decide, fun k => by cases k <;> decide⟩
  refine (vprintf_renders _ _ ?_ (by decide)).mpr ?_
  · exact .conversion (k := .s) (t := [0x61, 0x62]) rfl (.percent (.unknown hq))
  · have hfrom : UnknownFrom [0x25, 0x73, 0x25, 0x25, 0x25, 0x71] [0x25, 0x71] :=
      .conversion (k := .s) (.percent (.unknown hq))
    intro u hu
    rw [hfrom.unique hu]
    decide

/-- **`"%llx"` prints `x`.** -/
theorem vprintf_drops_ll :
    Renders [0x25, 0x6C, 0x6C, 0x78] [] [0x25, 0x6C, 0x6C, 0x78] [] ∧
      vprintf (fun _ => 0) ⟨[0x25, 0x6C, 0x6C, 0x78], by decide⟩ [] = some (1, [0x78]) := by
  have hx : Unknown [0x6C, 0x6C, 0x78] := ⟨by decide, fun k => by cases k <;> decide⟩
  refine ⟨.unknown hx, ?_⟩
  have hturn : Printf.turn ⟨[0x78], [], 0, fun _ => 0, []⟩ = .goOn ⟨[], [], 1, fun _ => 0, [0x78]⟩ := by
    rw [Printf.turn_literal rfl (show (0x78 : UInt8) ≠ 0x25 by decide), Printf.append_ok (by decide)]
    rfl
  rw [vprintf, Printf.loop_turn rfl (by decide) (Printf.turn_lost rfl hx),
    Printf.loop_turn rfl (by decide) hturn, Printf.loop_end rfl]
  rfl

end ChoOS
