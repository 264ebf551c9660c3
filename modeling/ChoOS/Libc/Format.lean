import ChoOS.Libc.Vprintf

/-!
# The format pointer of `vprintf`

In `Libc/Vprintf.lean` the pointer is the rest of the format, and a read behind the
NUL would go unnoticed.  Here it is a position, every read of the source is a read
at a position, and one behind the NUL is a fault: `turnAt` is then `none`.  The
arguments are whatever `va_arg` finds, so that every format is followed to its
end; nothing depends on how many were passed.

`turnAt_passes`: from any position up to the NUL a turn does not fault, and it
passes at least one byte and not the NUL.  `format_read_to_nul` is this for the whole
call, and `loopAt_of_vprintf` says that the pointer is the only thing that is new.
-/

namespace ChoOS

/-- What `va_arg` finds, for each type that it may be asked for. -/
structure VaValues where
  int : Int32
  unsigned : UInt32
  unsignedLongLong : UInt64
  longLong : Int64
  string : CString

/-- A read of the format; behind the NUL it is a fault. -/
def CString.read (format : CString) (p : Nat) : Option UInt8 :=
  if p ≤ format.chars.length then some (peek format.chars p) else none

theorem CString.read_eq {format : CString} {p : Nat} (h : p ≤ format.chars.length) :
    format.read p = some (peek format.chars p) := if_pos h

theorem CString.le_of_read {format : CString} {p : Nat} {c : UInt8}
    (h : format.read p = some c) : p ≤ format.chars.length := by
  by_contra hgt
  rw [CString.read, if_neg hgt] at h
  exact absurd h (by simp)

/-- The variables of `vprintf`, with the position of `format` and the number of
arguments that were used. -/
structure Scanner where
  pos : Nat
  next : Nat
  written : Nat
  buffer : CharArray
  out : List UInt8

/-- One turn of the loop. -/
inductive Scan
  /-- The loop goes on. -/
  | goOn (st : Scanner)
  /-- `return err` -/
  | leave (err : Int) (out : List UInt8)
  /-- A number is not finished. -/
  | stuck

namespace Scanner

/-- `__append` of other bytes than the format's, and the `return` when it fails. -/
def append (data : List UInt8) (len : Nat) (st : Scanner) : Scan :=
  let maxrem := u32 (intMax - st.written)
  if maxrem < len then .leave eoverflow st.out
  else
    match print (data.take len) st.out with
    | (false, out) => .leave (-1) out
    | (true, out) => .goOn { st with out := out, written := st.written + len }

/-- A number goes through `buffer`. -/
def appendNumber (f : CharArray → Option CharArray) (st : Scanner) : Scan :=
  match f st.buffer with
  | none => .stuck
  | some b =>
    let text := charsUpToNul 65 0 b
    append text text.length { st with buffer := b }

variable (format : CString)

/-- `while (format[amount] && format[amount] != '%') amount++`: the number of bytes from
`p` on that are passed. -/
def runAt (p : Nat) : Option Nat :=
  match _h : format.read p with
  | none => none
  | some c => if c = 0 ∨ c = 0x25 then some 0 else (runAt (p + 1)).map (· + 1)
termination_by format.chars.length + 1 - p
decreasing_by
  have := CString.le_of_read _h
  omega

/-- `strlen(format)` -/
def strlenAt (p : Nat) : Option Nat :=
  match _h : format.read p with
  | none => none
  | some c => if c = 0 then some 0 else (strlenAt (p + 1)).map (· + 1)
termination_by format.chars.length + 1 - p
decreasing_by
  have := CString.le_of_read _h
  omega

/-- The reads of `__print(format, len)`. -/
def readBytes (p : Nat) : Nat → Option (List UInt8)
  | 0 => some []
  | len + 1 => do
    let c ← format.read p
    return c :: (← readBytes (p + 1) len)

/-- `__append(format, len, &written)` with the format at `p`. -/
def appendFormat (p len : Nat) (st : Scanner) : Option Scan :=
  if u32 (intMax - st.written) < len then some (.leave eoverflow st.out)
  else do return append (← readBytes format p len) len st

/-- The characters up to the next `%`, from `p` on. -/
def literalAt (p : Nat) (st : Scanner) : Option Scan := do
  let amount := 1 + (← runAt format (p + 1))
  appendFormat format p amount { st with pos := p + amount }

/-- An unknown specifier: everything from its `%` on. -/
def unknownAt (st : Scanner) : Option Scan := do
  let len ← strlenAt format st.pos
  appendFormat format st.pos len { st with pos := st.pos + len }

/-- The pointer is `n` bytes behind the `%`, and an argument is used. -/
def behind (n : Nat) (st : Scanner) : Scanner :=
  { st with pos := st.pos + (n + 1), next := st.next + 1 }

variable (va : Nat → VaValues)

/-- Behind `%l`. -/
def longAt (st : Scanner) : Option Scan := do
  if (← format.read (st.pos + 2)) = 0x6C then
    let c ← format.read (st.pos + 3)
    if c = 0x75 then
      return (st.behind 3).appendNumber (ulltoa (va st.next).unsignedLongLong 10)
    else if c = 0x64 then return (st.behind 3).appendNumber (lltoa (va st.next).longLong 10)
    else return .goOn { st with pos := st.pos + 3 }
  else unknownAt format st

/-- Behind `%`, with `c` there. -/
def specifierAt (c : UInt8) (st : Scanner) : Option Scan :=
  if c = 0x63 then some ((st.behind 1).append [UInt8.ofInt (va st.next).int.toInt] 1)
  else if c = 0x73 then
    some ((st.behind 1).append (va st.next).string.chars (strlen (va st.next).string.chars))
  else if c = 0x64 then some ((st.behind 1).appendNumber (itoa (va st.next).int 10))
  else if c = 0x75 then some ((st.behind 1).appendNumber (utoa (va st.next).unsigned 10))
  else if c = 0x78 then some ((st.behind 1).appendNumber (utoa (va st.next).unsigned 16))
  else if c = 0x6C then longAt format va st
  else unknownAt format st

/-- The body of the loop; `none` is a fault. -/
def turnAt (st : Scanner) : Option Scan := do
  if (← format.read st.pos) ≠ 0x25 then literalAt format st.pos st
  else
    let c ← format.read (st.pos + 1)
    if c = 0x25 then literalAt format (st.pos + 1) st
    else specifierAt format va c st

end Scanner

/-- The end of a call. -/
inductive ScanEnd
  /-- `*format` is the NUL. -/
  | nul (st : Scanner)
  | leave (err : Int) (out : List UInt8)
  | stuck
  | fault
  /-- There are more turns than `fuel`. -/
  | goesOn

/-- The loop of `vprintf`. -/
def loopAt (format : CString) (va : Nat → VaValues) : Nat → Scanner → ScanEnd
  | 0, _ => .goesOn
  | fuel + 1, st =>
    match format.read st.pos with
    | none => .fault
    | some c =>
      if c = 0 then .nul st
      else
        match st.turnAt format va with
        | none => .fault
        | some (.goOn st') => loopAt format va fuel st'
        | some (.leave err out) => .leave err out
        | some .stuck => .stuck

/-! ### Reads -/

theorem peek_drop (s : List UInt8) (p i : Nat) : peek (s.drop p) i = peek s (p + i) := by
  rw [peek, peek, List.getElem?_drop]

theorem CString.peek_eq_zero {format : CString} {p : Nat} (h : p ≤ format.chars.length) :
    peek format.chars p = 0 ↔ p = format.chars.length := by
  constructor
  · intro h0
    by_contra hne
    have hlt : p < format.chars.length := by omega
    rw [peek, List.getElem?_eq_getElem hlt] at h0
    have hmem := List.getElem_mem hlt
    rw [show format.chars[p] = 0 from h0] at hmem
    exact format.noNul hmem
  · rintro rfl
    rw [peek, List.getElem?_eq_none (Nat.le_refl _)]
    rfl

namespace Scanner

variable {format : CString} {p len : Nat}

theorem drop_cons (h : p < format.chars.length) :
    format.chars.drop p = peek format.chars p :: format.chars.drop (p + 1) := by
  rw [List.drop_eq_getElem_cons h, peek, List.getElem?_eq_getElem h]
  rfl

theorem runAt_eq (h : p ≤ format.chars.length) :
    runAt format p = some (Printf.run (format.chars.drop p)) := by
  fun_induction runAt format p with
  | case1 p hread =>
    rw [CString.read_eq h] at hread
    exact absurd hread (by simp)
  | case2 p c hread hstop =>
    rw [CString.read_eq h] at hread
    obtain rfl := Option.some.inj hread
    by_cases hp : p = format.chars.length
    · rw [hp, List.drop_length]
      rfl
    · rw [drop_cons (by omega), Printf.run, if_pos hstop]
  | case3 p c hread hgo ih =>
    rw [CString.read_eq h] at hread
    obtain rfl := Option.some.inj hread
    have hp : p < format.chars.length := by
      refine lt_of_le_of_ne h ?_
      exact fun heq => hgo (.inl ((CString.peek_eq_zero h).mpr heq))
    rw [ih hp, drop_cons hp, Printf.run, if_neg hgo]
    rfl

theorem strlenAt_eq (h : p ≤ format.chars.length) :
    strlenAt format p = some (strlen (format.chars.drop p)) := by
  fun_induction strlenAt format p with
  | case1 p hread =>
    rw [CString.read_eq h] at hread
    exact absurd hread (by simp)
  | case2 p hread =>
    rw [CString.read_eq h] at hread
    rw [(CString.peek_eq_zero h).mp (Option.some.inj hread), List.drop_length]
    rfl
  | case3 p c hread hgo ih =>
    rw [CString.read_eq h] at hread
    obtain rfl := Option.some.inj hread
    have hp : p < format.chars.length := by
      refine lt_of_le_of_ne h ?_
      exact fun heq => hgo ((CString.peek_eq_zero h).mpr heq)
    rw [ih hp, drop_cons hp, strlen, if_neg hgo]
    rfl

theorem readBytes_eq : ∀ (len p : Nat), p + len ≤ format.chars.length →
    readBytes format p len = some ((format.chars.drop p).take len) := by
  intro len
  induction len with
  | zero =>
    intro p _
    rfl
  | succ len ih =>
    intro p h
    rw [readBytes, CString.read_eq (by omega), ih (p + 1) (by omega),
      drop_cons (show p < format.chars.length by omega)]
    rfl

/-! ### One turn -/

variable {st st₁ : Scanner} {data : List UInt8} {va : Nat → VaValues}

/-- A turn that does not fault: the pointer is moved on, but not behind the NUL, or an
`__append` has no room and writes nothing. -/
def Passes (format : CString) (st : Scanner) : Option Scan → Prop
  | some (.goOn st') => st.pos < st'.pos ∧ st'.pos ≤ format.chars.length
  | some (.leave err out) => err = eoverflow ∧ out = st.out
  | _ => False

theorem append_passes (hlt : st.pos < st₁.pos) (hle : st₁.pos ≤ format.chars.length)
    (hout : st₁.out = st.out) : Passes format st (some (append data len st₁)) := by
  unfold append
  dsimp only
  split
  · exact ⟨rfl, hout⟩
  · rw [Printf.print_eq]
    exact ⟨hlt, hle⟩

theorem appendNumber_passes {f : CharArray → Option CharArray} (hf : ∃ text, Prints f text)
    (hlt : st.pos < st₁.pos) (hle : st₁.pos ≤ format.chars.length) (hout : st₁.out = st.out) :
    Passes format st (some (appendNumber f st₁)) := by
  obtain ⟨text, hf⟩ := hf
  rw [appendNumber, hf.eq]
  exact append_passes hlt hle hout

theorem appendFormat_eq (h : p + len ≤ format.chars.length) :
    appendFormat format p len st = some (append ((format.chars.drop p).take len) len st) := by
  rw [appendFormat, readBytes_eq len p h]
  split
  · rw [append, if_pos ‹_›]
  · rfl

theorem literalAt_eq (h : p < format.chars.length) :
    literalAt format p st = some
      (append ((format.chars.drop p).take (1 + Printf.run (format.chars.drop (p + 1))))
        (1 + Printf.run (format.chars.drop (p + 1)))
        { st with pos := p + (1 + Printf.run (format.chars.drop (p + 1))) }) := by
  have hrun := Printf.run_le (format.chars.drop (p + 1))
  rw [List.length_drop] at hrun
  rw [literalAt, runAt_eq (show p + 1 ≤ format.chars.length from h)]
  exact appendFormat_eq (by omega)

theorem literalAt_passes (hle : st.pos ≤ p) (h : p < format.chars.length) :
    Passes format st (literalAt format p st) := by
  have hrun := Printf.run_le (format.chars.drop (p + 1))
  rw [List.length_drop] at hrun
  rw [literalAt_eq h]
  exact append_passes (by dsimp only; omega) (by dsimp only; omega) rfl

theorem unknownAt_eq (h : st.pos ≤ format.chars.length) :
    unknownAt format st = some
      (append ((format.chars.drop st.pos).take (strlen (format.chars.drop st.pos)))
        (strlen (format.chars.drop st.pos))
        { st with pos := st.pos + strlen (format.chars.drop st.pos) }) := by
  have hlen := Printf.strlen_le (format.chars.drop st.pos)
  rw [List.length_drop] at hlen
  rw [unknownAt, strlenAt_eq h]
  exact appendFormat_eq (by omega)

theorem unknownAt_passes (h : st.pos < format.chars.length) :
    Passes format st (unknownAt format st) := by
  have hlen : strlen (format.chars.drop st.pos) = format.chars.length - st.pos := by
    rw [Printf.strlen_eq _ fun hm => format.noNul (List.mem_of_mem_drop hm), List.length_drop]
  rw [unknownAt_eq h.le, hlen]
  exact append_passes (by dsimp only; omega) (by dsimp only; omega) rfl

theorem lt_of_read {i : Nat} {c : UInt8} (hi : i ≤ format.chars.length)
    (hread : format.read i = some c) (hc : c ≠ 0) : i < format.chars.length := by
  rw [CString.read_eq hi] at hread
  refine lt_of_le_of_ne hi ?_
  intro heq
  exact hc (Option.some.inj hread ▸ (CString.peek_eq_zero hi).mpr heq)

/-- The look-ahead behind `%l` reads a byte only when the one before it is not the NUL. -/
theorem longAt_passes (h : st.pos + 1 < format.chars.length) :
    Passes format st (longAt format va st) := by
  obtain ⟨c, hread⟩ : ∃ c, format.read (st.pos + 2) = some c := ⟨_, CString.read_eq (by omega)⟩
  rw [longAt, hread]
  change Passes format st (if c = 0x6C then _ else _)
  split
  · have hlt := lt_of_read (by omega) hread (by rw [‹c = 0x6C›]; decide)
    obtain ⟨c', hread'⟩ : ∃ c', format.read (st.pos + 3) = some c' := ⟨_, CString.read_eq hlt⟩
    rw [hread']
    change Passes format st (if c' = 0x75 then _ else if c' = 0x64 then _ else _)
    split
    · have hlt' := lt_of_read hlt hread' (by rw [‹c' = 0x75›]; decide)
      exact appendNumber_passes ⟨_, ulltoa_prints _ (by decide) (by decide)⟩
        (by rw [behind]; dsimp only; omega) hlt' rfl
    · split
      · have hlt' := lt_of_read hlt hread' (by rw [‹c' = 0x64›]; decide)
        exact appendNumber_passes (lltoa_prints _) (by rw [behind]; dsimp only; omega) hlt' rfl
      · exact ⟨by dsimp only; omega, hlt⟩
  · exact unknownAt_passes (by omega)

theorem specifierAt_passes {c : UInt8} (h : st.pos < format.chars.length)
    (hread : format.read (st.pos + 1) = some c) : Passes format st (specifierAt format va c st) := by
  have hpos : st.pos < (st.behind 1).pos := by
    rw [behind]
    dsimp only
    omega
  have hle : c ≠ 0 → (st.behind 1).pos ≤ format.chars.length := fun hc => lt_of_read h hread hc
  unfold specifierAt
  split
  · exact append_passes hpos (hle (by rw [‹c = 0x63›]; decide)) rfl
  split
  · exact append_passes hpos (hle (by rw [‹c = 0x73›]; decide)) rfl
  split
  · exact appendNumber_passes (itoa_prints _) hpos (hle (by rw [‹c = 0x64›]; decide)) rfl
  split
  · exact appendNumber_passes ⟨_, utoa_prints _ (by decide) (by decide)⟩ hpos
      (hle (by rw [‹c = 0x75›]; decide)) rfl
  split
  · exact appendNumber_passes ⟨_, utoa_prints _ (by decide) (by decide)⟩ hpos
      (hle (by rw [‹c = 0x78›]; decide)) rfl
  split
  · exact longAt_passes (lt_of_read h hread (by rw [‹c = 0x6C›]; decide))
  · exact unknownAt_passes h

/-- **A turn does not read behind the NUL**, and it goes on in front of it or at it. -/
theorem turnAt_passes (va : Nat → VaValues) (h : st.pos < format.chars.length) :
    Passes format st (turnAt format va st) := by
  rw [turnAt, CString.read_eq h.le]
  change Passes format st (if peek format.chars st.pos ≠ 0x25 then _ else _)
  split
  · exact literalAt_passes (Nat.le_refl _) h
  · obtain ⟨c, hread⟩ : ∃ c, format.read (st.pos + 1) = some c := ⟨_, CString.read_eq h⟩
    rw [hread]
    change Passes format st (if c = 0x25 then _ else _)
    split
    · exact literalAt_passes (by omega) (lt_of_read h hread (by rw [‹c = 0x25›]; decide))
    · exact specifierAt_passes h hread

end Scanner

/-! ### Whole calls -/

/-- The loop comes from one state to another. -/
inductive Iterates (format : CString) (va : Nat → VaValues) : Scanner → Scanner → Prop
  | refl (st : Scanner) : Iterates format va st st
  | tail {st st' st'' : Scanner} : Iterates format va st st' → format.read st'.pos ≠ some 0 →
      st'.turnAt format va = some (.goOn st'') → Iterates format va st st''

theorem Iterates.pos_le {format : CString} {va : Nat → VaValues} {st st' : Scanner}
    (h : Iterates format va st st') (hle : st.pos ≤ format.chars.length) :
    st'.pos ≤ format.chars.length := by
  induction h with
  | refl => exact hle
  | @tail st' st'' _ hread hturn ih =>
    have hlt : st'.pos < format.chars.length := by
      refine lt_of_le_of_ne ih ?_
      intro heq
      exact hread (by rw [CString.read_eq ih, (CString.peek_eq_zero ih).mpr heq])
    have hpasses := Scanner.turnAt_passes va hlt
    rw [hturn] at hpasses
    exact hpasses.2

/-- The end that the source means: the NUL, or a turn of the loop whose `__append` has no
room and writes nothing. -/
def EndsAtNul (format : CString) (va : Nat → VaValues) (st₀ : Scanner) : ScanEnd → Prop
  | .nul st => st.pos = format.chars.length
  | .leave err out => ∃ st, Iterates format va st₀ st ∧
      st.turnAt format va = some (.leave err out) ∧ err = eoverflow ∧ out = st.out
  | _ => False

/-- **The loop ends**, after at most as many turns as there are bytes left. -/
theorem loopAt_ends (format : CString) (va : Nat → VaValues) (st₀ : Scanner) :
    ∀ (fuel : Nat) (st : Scanner), Iterates format va st₀ st → st.pos ≤ format.chars.length →
      format.chars.length - st.pos < fuel →
      EndsAtNul format va st₀ (loopAt format va fuel st) := by
  intro fuel
  induction fuel with
  | zero =>
    intro st _ _ h
    exact absurd h (Nat.not_lt_zero _)
  | succ fuel ih =>
    intro st hst hle hfuel
    have hread := CString.read_eq hle
    rw [loopAt, hread]
    dsimp only
    split
    · exact (CString.peek_eq_zero hle).mp ‹_›
    · rename_i hc
      have hlt : st.pos < format.chars.length :=
        lt_of_le_of_ne hle fun heq => hc ((CString.peek_eq_zero hle).mpr heq)
      have hpasses := Scanner.turnAt_passes va hlt
      cases hturn : st.turnAt format va with
      | none =>
        rw [hturn] at hpasses
        exact hpasses.elim
      | some t =>
        rw [hturn] at hpasses
        cases t with
        | goOn st' =>
          obtain ⟨hmove, hle'⟩ := hpasses
          have hnext := hst.tail (by rw [hread]; exact fun he => hc (Option.some.inj he)) hturn
          exact ih st' hnext hle' (by omega)
        | leave err out => exact ⟨st, hst, hturn, hpasses⟩
        | stuck => exact hpasses.elim

/-- **`vprintf` never runs past its format**: no read of a turn is behind the NUL, every
turn leaves less of the format, and the loop ends at the NUL when no `__append` fails. -/
theorem format_read_to_nul (format : CString) (va : Nat → VaValues) (buffer : CharArray) :
    (∀ st, Iterates format va ⟨0, 0, 0, buffer, []⟩ st →
      ∃ c, format.read st.pos = some c ∧ (c ≠ 0 → ∃ t, st.turnAt format va = some t ∧
        ∀ st', t = .goOn st' →
          format.chars.length - st'.pos < format.chars.length - st.pos)) ∧
    ∃ fuel, EndsAtNul format va ⟨0, 0, 0, buffer, []⟩
      (loopAt format va fuel ⟨0, 0, 0, buffer, []⟩) := by
  constructor
  · intro st hst
    have hle := hst.pos_le (Nat.zero_le _)
    refine ⟨_, CString.read_eq hle, ?_⟩
    intro hc
    have hlt : st.pos < format.chars.length :=
      lt_of_le_of_ne hle fun heq => hc ((CString.peek_eq_zero hle).mpr heq)
    have hpasses := Scanner.turnAt_passes va hlt
    revert hpasses
    cases st.turnAt format va with
    | none => exact False.elim
    | some t =>
      intro hpasses
      refine ⟨t, rfl, ?_⟩
      rintro st' rfl
      have hmove := hpasses.1
      omega
  · exact ⟨_, loopAt_ends format va _ (format.chars.length + 1) _ (.refl _) (Nat.zero_le _)
      (Nat.lt_succ_self _)⟩

/-! ### The same calls with the rest of the format -/

/-- `va_arg` finds the argument when it asks for its type. -/
def VaValues.Finds (v : VaValues) : VaArg → Prop
  | .int i => v.int = i
  | .unsigned u => v.unsigned = u
  | .unsignedLongLong u => v.unsignedLongLong = u
  | .longLong d => v.longLong = d
  | .string s => v.string = s

/-- The same variables. -/
structure Scanner.Follows (format : CString) (args : List VaArg) (st : Scanner) (pst : Printf) :
    Prop where
  le : st.pos ≤ format.chars.length
  format : pst.format = format.chars.drop st.pos
  parameters : pst.parameters = args.drop st.next
  written : pst.written = st.written
  buffer : pst.buffer = st.buffer
  out : pst.out = st.out

/-- The two turns do the same. -/
def Scanner.Agrees (format : CString) (args : List VaArg) : Option Scan → Turn → Prop
  | some (.goOn st), .goOn pst => st.Follows format args pst
  | some (.leave err out), .leave err' out' => err = err' ∧ out = out'
  | _, .stuck => True
  | _, _ => False

namespace Scanner

variable {format : CString} {args ps : List VaArg} {st : Scanner} {pst : Printf}
  {va : Nat → VaValues} {data : List UInt8} {len : Nat} {a : VaArg}

theorem append_take : append (data.take len) len st = append data len st := by
  rw [append, append, List.take_take, Nat.min_self]

theorem agrees_stuck (t : Option Scan) : Agrees format args t .stuck := by
  cases t with
  | none => trivial
  | some t => cases t <;> trivial

theorem append_agrees (h : st.Follows format args pst) :
    Agrees format args (some (append data len st)) (Printf.append data len pst) := by
  unfold append Printf.append
  dsimp only
  rw [h.written, h.out, Printf.print_eq]
  split
  · exact ⟨rfl, rfl⟩
  · exact ⟨h.le, h.format, h.parameters, rfl, h.buffer, rfl⟩

theorem appendNumber_agrees {f : CharArray → Option CharArray} (h : st.Follows format args pst) :
    Agrees format args (some (appendNumber f st)) (pst.appendNumber f) := by
  unfold appendNumber Printf.appendNumber
  rw [h.buffer]
  cases f st.buffer with
  | none => trivial
  | some b => exact append_agrees ⟨h.le, h.format, h.parameters, h.written, rfl, h.out⟩

theorem Follows.moved (h : st.Follows format args pst) {n p : Nat} (hp : p = st.pos + n)
    (hle : p ≤ format.chars.length) :
    Follows format args { st with pos := p } { pst with format := pst.format.drop n } := by
  refine ⟨hle, ?_, h.parameters, h.written, h.buffer, h.out⟩
  rw [h.format, List.drop_drop, hp]

theorem Follows.behind (h : st.Follows format args pst) {n : Nat} (hps : pst.parameters = a :: ps)
    (hle : st.pos + (n + 1) ≤ format.chars.length) :
    Follows format args (st.behind n) (pst.behind n ps) := by
  have hnext : ps = args.drop (st.next + 1) := by
    rw [← List.drop_drop, ← h.parameters, hps]
    rfl
  refine ⟨hle, ?_, hnext, h.written, h.buffer, h.out⟩
  rw [Printf.behind, Scanner.behind, h.format, List.drop_drop]

theorem Follows.finds (h : st.Follows format args pst) (hps : pst.parameters = a :: ps)
    (hva : ∀ i a, args[i]? = some a → (va i).Finds a) : (va st.next).Finds a := by
  refine hva st.next a ?_
  have hhead : (args.drop st.next)[0]? = some a := by
    rw [← h.parameters, hps]
    rfl
  rwa [List.getElem?_drop, Nat.add_zero] at hhead

theorem Follows.read (h : st.Follows format args pst) {i : Nat}
    (hle : st.pos + i ≤ format.chars.length) :
    format.read (st.pos + i) = some (peek pst.format i) := by
  rw [CString.read_eq hle, h.format, peek_drop]

theorem literalAt_agrees (h : st.Follows format args pst) {i : Nat} (hi : i ≤ 1)
    (hlt : st.pos + i < format.chars.length) (hpeek : peek pst.format 0 = 0x25 ↔ i = 1) :
    Agrees format args (literalAt format (st.pos + i) st) pst.literalTurn := by
  have hformat : (if peek pst.format 0 = 0x25 then pst.format.drop 1 else pst.format)
      = format.chars.drop (st.pos + i) := by
    rw [h.format] at hpeek ⊢
    rw [← List.drop_drop]
    rcases Nat.le_one_iff_eq_zero_or_eq_one.mp hi with rfl | rfl
    · exact if_neg (mt hpeek.mp (by decide))
    · exact if_pos (hpeek.mpr rfl)
  have hrun := Printf.run_le (format.chars.drop (st.pos + i + 1))
  rw [List.length_drop] at hrun
  rw [literalAt_eq hlt, append_take, Printf.literalTurn, hformat, List.drop_drop]
  refine append_agrees ⟨by dsimp only; omega, ?_, h.parameters, h.written, h.buffer, h.out⟩
  rw [List.drop_drop]

theorem unknownAt_agrees (h : st.Follows format args pst) :
    Agrees format args (unknownAt format st) pst.unknownTurn := by
  have hlen := Printf.strlen_le (format.chars.drop st.pos)
  rw [List.length_drop] at hlen
  rw [unknownAt_eq h.le, append_take, Printf.unknownTurn, ← h.format]
  have hle := h.le
  exact append_agrees (h.moved rfl (by rw [h.format]; omega))

theorem longAt_agrees (h : st.Follows format args pst)
    (hva : ∀ i a, args[i]? = some a → (va i).Finds a) (hlt : st.pos + 1 < format.chars.length) :
    Agrees format args (longAt format va st)
      (if peek pst.format 2 = 0x6C then pst.longLongTurn else pst.unknownTurn) := by
  have hread : format.read (st.pos + 2) = some (peek pst.format 2) := h.read hlt
  rw [longAt, hread]
  change Agrees format args (if peek pst.format 2 = 0x6C then _ else _) _
  by_cases hl : peek pst.format 2 = 0x6C
  · have hlt' := lt_of_read hlt hread (by rw [hl]; decide)
    have hread' : format.read (st.pos + 3) = some (peek pst.format 3) := h.read hlt'
    rw [if_pos hl, if_pos hl, Printf.longLongTurn, hread']
    change Agrees format args
      (if peek pst.format 3 = 0x75 then _ else if peek pst.format 3 = 0x64 then _ else _) _
    by_cases hu : peek pst.format 3 = 0x75
    · have hle := lt_of_read hlt' hread' (by rw [hu]; decide)
      rw [if_pos hu, if_pos hu]
      split
      · rename_i v ps hps
        have hfound : (va st.next).unsignedLongLong = v := h.finds hps hva
        rw [hfound]
        exact appendNumber_agrees (h.behind hps hle)
      · exact agrees_stuck _
    · rw [if_neg hu, if_neg hu]
      by_cases hd : peek pst.format 3 = 0x64
      · have hle := lt_of_read hlt' hread' (by rw [hd]; decide)
        rw [if_pos hd, if_pos hd]
        split
        · rename_i v ps hps
          have hfound : (va st.next).longLong = v := h.finds hps hva
          rw [hfound]
          exact appendNumber_agrees (h.behind hps hle)
        · exact agrees_stuck _
      · rw [if_neg hd, if_neg hd]
        exact h.moved rfl hlt'
  · rw [if_neg hl, if_neg hl]
    exact unknownAt_agrees h

theorem specifierAt_agrees (h : st.Follows format args pst)
    (hva : ∀ i a, args[i]? = some a → (va i).Finds a) (hlt : st.pos < format.chars.length)
    (hread : format.read (st.pos + 1) = some (peek pst.format 1)) :
    Agrees format args (specifierAt format va (peek pst.format 1) st) pst.specifierTurn := by
  have hle : peek pst.format 1 ≠ 0 → st.pos + 1 < format.chars.length := lt_of_read hlt hread
  unfold specifierAt Printf.specifierTurn
  by_cases hc : peek pst.format 1 = 0x63
  · rw [if_pos hc, if_pos hc]
    split
    · rename_i v ps hps
      have hfound : (va st.next).int = v := h.finds hps hva
      rw [hfound]
      exact append_agrees (h.behind hps (hle (by rw [hc]; decide)))
    · exact agrees_stuck _
  rw [if_neg hc, if_neg hc]
  by_cases hs : peek pst.format 1 = 0x73
  · rw [if_pos hs, if_pos hs]
    split
    · rename_i v ps hps
      have hfound : (va st.next).string = v := h.finds hps hva
      rw [hfound]
      exact append_agrees (h.behind hps (hle (by rw [hs]; decide)))
    · exact agrees_stuck _
  rw [if_neg hs, if_neg hs]
  by_cases hd : peek pst.format 1 = 0x64
  · rw [if_pos hd, if_pos hd]
    split
    · rename_i v ps hps
      have hfound : (va st.next).int = v := h.finds hps hva
      rw [hfound]
      exact appendNumber_agrees (h.behind hps (hle (by rw [hd]; decide)))
    · exact agrees_stuck _
  rw [if_neg hd, if_neg hd]
  by_cases hu : peek pst.format 1 = 0x75
  · rw [if_pos hu, if_pos hu]
    split
    · rename_i v ps hps
      have hfound : (va st.next).unsigned = v := h.finds hps hva
      rw [hfound]
      exact appendNumber_agrees (h.behind hps (hle (by rw [hu]; decide)))
    · exact agrees_stuck _
  rw [if_neg hu, if_neg hu]
  by_cases hx : peek pst.format 1 = 0x78
  · rw [if_pos hx, if_pos hx]
    split
    · rename_i v ps hps
      have hfound : (va st.next).unsigned = v := h.finds hps hva
      rw [hfound]
      exact appendNumber_agrees (h.behind hps (hle (by rw [hx]; decide)))
    · exact agrees_stuck _
  rw [if_neg hx, if_neg hx]
  by_cases hl : peek pst.format 1 = 0x6C
  · rw [if_pos hl, if_pos hl]
    exact longAt_agrees h hva (hle (by rw [hl]; decide))
  · rw [if_neg hl, if_neg hl]
    exact unknownAt_agrees h

theorem turnAt_agrees (h : st.Follows format args pst)
    (hva : ∀ i a, args[i]? = some a → (va i).Finds a) (hlt : st.pos < format.chars.length) :
    Agrees format args (turnAt format va st) pst.turn := by
  have hread : format.read (st.pos + 0) = some (peek pst.format 0) := h.read hlt.le
  have hread' : format.read (st.pos + 1) = some (peek pst.format 1) := h.read hlt
  unfold turnAt Printf.turn
  rw [Nat.add_zero] at hread
  rw [hread]
  change Agrees format args (if peek pst.format 0 ≠ 0x25 then _ else _) _
  by_cases h0 : peek pst.format 0 = 0x25
  · rw [if_neg (not_not.mpr h0), hread']
    change Agrees format args (if peek pst.format 1 = 0x25 then _ else _) _
    by_cases h1 : peek pst.format 1 = 0x25
    · rw [if_pos h1, if_pos (.inr h1)]
      have hlt' := lt_of_read hlt hread' (by rw [h1]; decide)
      exact literalAt_agrees h (Nat.le_refl 1) hlt' (iff_of_true h0 rfl)
    · rw [if_neg h1, if_neg (not_or.mpr ⟨not_not.mpr h0, h1⟩)]
      exact specifierAt_agrees h hva hlt hread'
  · rw [if_pos h0, if_pos (.inl h0)]
    exact literalAt_agrees h (Nat.zero_le 1) hlt (iff_of_false h0 (by decide))

end Scanner

/-- The result and the text of a call, when there is one. -/
def ScanEnd.result : ScanEnd → Option (Int × List UInt8)
  | .nul st => some (st.written, st.out)
  | .leave err out => some (err, out)
  | _ => none

/-- **The whole call agrees**, when the arguments are those that it asks for. -/
theorem loopAt_of_vprintf (buffer : CharArray) (format : CString) {args : List VaArg}
    {va : Nat → VaValues} (hva : ∀ i a, args[i]? = some a → (va i).Finds a)
    {res : Int × List UInt8} (h : vprintf buffer format args = some res) :
    (loopAt format va (format.chars.length + 1) ⟨0, 0, 0, buffer, []⟩).result = some res := by
  have key : ∀ (fuel : Nat) (st : Scanner) (pst : Printf), st.Follows format args pst →
      format.chars.length - st.pos < fuel → pst.loop = some res →
      (loopAt format va fuel st).result = some res := by
    intro fuel
    induction fuel with
    | zero =>
      intro st pst _ hfuel
      exact absurd hfuel (Nat.not_lt_zero _)
    | succ fuel ih =>
      intro st pst hst hfuel hloop
      have hpeek : peek pst.format 0 = peek format.chars st.pos := by
        rw [hst.format, peek_drop, Nat.add_zero]
      rw [Printf.loop, hpeek] at hloop
      rw [loopAt, CString.read_eq hst.le]
      dsimp only
      by_cases h0 : peek format.chars st.pos = 0
      · rw [dif_pos h0] at hloop
        rw [if_pos h0, ← hloop, hst.written, hst.out]
        rfl
      rw [dif_neg h0] at hloop
      rw [if_neg h0]
      have hlt : st.pos < format.chars.length :=
        lt_of_le_of_ne hst.le fun heq => h0 ((CString.peek_eq_zero hst.le).mpr heq)
      have hagrees := Scanner.turnAt_agrees hst hva hlt
      have hpasses := Scanner.turnAt_passes va hlt
      cases hturn : st.turnAt format va with
      | none =>
        rw [hturn] at hpasses
        exact hpasses.elim
      | some t =>
        rw [hturn] at hagrees hpasses
        split at hloop
        · rename_i pst' hpturn
          rw [hpturn] at hagrees
          cases t with
          | goOn st' => exact ih st' pst' hagrees (by have := hpasses.1; omega) hloop
          | leave => exact hagrees.elim
          | stuck => exact hagrees.elim
        · rename_i err out hpturn
          rw [hpturn] at hagrees
          cases t with
          | goOn => exact hagrees.elim
          | leave =>
            obtain ⟨rfl, rfl⟩ := hagrees
            exact hloop
          | stuck => exact hagrees.elim
        · exact absurd hloop (by simp)
  refine key _ _ ⟨format.chars, args, 0, buffer, []⟩ ?_ (Nat.lt_succ_self _) h
  exact ⟨Nat.zero_le _, rfl, rfl, rfl, rfl, rfl⟩

end ChoOS
