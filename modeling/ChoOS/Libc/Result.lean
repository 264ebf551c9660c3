import ChoOS.Libc.Vprintf

/-!
# The result of `vprintf`

`__append` refuses a piece that would take the count over `INT_MAX` and returns
`EOVERFLOW`, which `vprintf` passes on.  `internal.h` counts that as a failure, but
the number is 75.  So `vprintf` never returns a negative number
(`Printf.loop_result`), and a caller cannot tell a text that was cut short from one
with 75 characters.

What was printed is right: it consists of whole pieces (`vprintf_whole_pieces`).
`vprintf_result` is when the result is right, too.
-/

namespace ChoOS

/-- The pieces of a text that are printed at once: a run of literal characters, one
conversion, or the rest from an unknown specifier on. -/
inductive Pieces : List UInt8 → List VaArg → List (List UInt8) → List VaArg → Prop
  | nil {args : List VaArg} : Pieces [] args [] args
  | literal {c : UInt8} {w f : List UInt8} {ps : List (List UInt8)} {args args' : List VaArg} :
      c ≠ 0x25 → (∀ d ∈ w, d ≠ 0x25) → f.head?.getD 0x25 = 0x25 → Pieces f args ps args' →
      Pieces (c :: (w ++ f)) args ((c :: w) :: ps) args'
  | percent {w f : List UInt8} {ps : List (List UInt8)} {args args' : List VaArg} :
      (∀ d ∈ w, d ≠ 0x25) → f.head?.getD 0x25 = 0x25 → Pieces f args ps args' →
      Pieces (0x25 :: 0x25 :: (w ++ f)) args ((0x25 :: w) :: ps) args'
  | conversion {k : Conversion} {a : VaArg} {t f : List UInt8} {ps : List (List UInt8)}
      {args args' : List VaArg} : k.text a = some t → Pieces f args ps args' →
      Pieces (0x25 :: (k.spelling ++ f)) (a :: args) (t :: ps) args'
  | unknown {f : List UInt8} {args : List VaArg} : Unknown f →
      Pieces (0x25 :: f) args [0x25 :: f] args

/-- The first pieces of the text and nothing else. -/
def WholePieces (f : List UInt8) (args : List VaArg) (out : List UInt8) : Prop :=
  ∃ ps rest k, Pieces f args ps rest ∧ out = (ps.take k).flatten

/-- A result that is not negative comes with the whole text and is its length, and what
is printed of a text that is cut short are whole pieces, with a negative result. -/
structure ResultTells (f : List UInt8) (args : List VaArg) (text : List UInt8) (r : Int)
    (out : List UInt8) : Prop where
  success : 0 ≤ r → out = text ∧ r = text.length
  failure : out ≠ text → r < 0 ∧ WholePieces f args out

/-! ### Runs -/

namespace Printf

variable {s w f : List UInt8}

theorem run_stop : ∀ s : List UInt8, 0 ∉ s → (s.drop (run s)).head?.getD 0x25 = 0x25 := by
  intro s
  induction s with
  | nil =>
    intro _
    rfl
  | cons c s ih =>
    intro h
    rw [List.mem_cons, not_or] at h
    rw [run]
    split
    · rcases ‹c = 0 ∨ c = 0x25› with hc | hc
      · exact absurd hc.symm h.1
      · exact hc
    · exact ih h.2

theorem run_append (h0 : 0 ∉ w) (hw : ∀ d ∈ w, d ≠ 0x25) (hf : f.head?.getD 0x25 = 0x25) :
    run (w ++ f) = w.length := by
  induction w with
  | nil =>
    cases f with
    | nil => rfl
    | cons c f =>
      obtain rfl : c = 0x25 := hf
      rfl
  | cons c w ih =>
    rw [List.mem_cons, not_or] at h0
    have hc : ¬ (c = 0 ∨ c = 0x25) :=
      not_or.mpr ⟨Ne.symm h0.1, hw c (List.mem_cons_self ..)⟩
    rw [List.cons_append, run, if_neg hc, ih h0.2 fun d hd => hw d (List.mem_cons_of_mem _ hd)]
    rfl

end Printf

/-- **Every text has its pieces.**  The induction is on the length, since a piece is
a whole run. -/
theorem Renders.pieces : ∀ (n : Nat) {f text : List UInt8} {args rest : List VaArg}, f.length ≤ n →
    0 ∉ f → Renders f args text rest → ∃ ps, Pieces f args ps rest ∧ ps.flatten = text := by
  intro n
  induction n with
  | zero =>
    intro f text args rest hn _ h
    obtain rfl := List.length_eq_zero_iff.mp (Nat.le_zero.mp hn)
    cases h
    exact ⟨[], .nil, rfl⟩
  | succ n ih =>
    intro f text args rest hn h0 h
    -- the pieces behind a run
    have hrun {s out : List UInt8} (hs : s.length ≤ n) (hs0 : 0 ∉ s) (h : Renders s args out rest) :
        ∃ ps, Pieces (s.drop (Printf.run s)) args ps rest ∧
          s.take (Printf.run s) ++ ps.flatten = out := by
      rw [← List.take_append_drop (Printf.run s) s] at h
      obtain ⟨out', rfl, h'⟩ := Renders.of_run (Printf.run_spec s hs0) h
      obtain ⟨ps, hps, rfl⟩ := ih (by rw [List.length_drop]; omega)
        (fun hm => hs0 (List.mem_of_mem_drop hm)) h'
      exact ⟨ps, hps, rfl⟩
    cases h with
    | nil => exact ⟨[], .nil, rfl⟩
    | @literal c s out _ _ hc h =>
      obtain ⟨-, hs0⟩ := not_or.mp (List.mem_cons.not.mp h0)
      obtain ⟨ps, hps, rfl⟩ := hrun (Nat.le_of_succ_le_succ hn) hs0 h
      have := Pieces.literal hc (Printf.run_spec s hs0) (Printf.run_stop s hs0) hps
      rw [List.take_append_drop] at this
      exact ⟨_, this, rfl⟩
    | @percent s out _ _ h =>
      have hs0 : 0 ∉ s := fun hm => h0 (by simp [hm])
      rw [List.length_cons, List.length_cons] at hn
      obtain ⟨ps, hps, rfl⟩ := hrun (by omega) hs0 h
      have := Pieces.percent (Printf.run_spec s hs0) (Printf.run_stop s hs0) hps
      rw [List.take_append_drop] at this
      exact ⟨_, this, rfl⟩
    | @conversion k a t s out args _ ht h =>
      rw [List.length_cons, List.length_append] at hn
      obtain ⟨ps, hps, rfl⟩ := ih (by omega) (fun hm => h0 (by simp [hm])) h
      exact ⟨t :: ps, .conversion ht hps, rfl⟩
    | unknown hu => exact ⟨_, .unknown hu, by simp⟩

/-! ### What is printed -/

namespace Printf

variable {st : Printf} {r : Int} {out : List UInt8}

theorem loop_leave {c : UInt8} {s : List UInt8} {err : Int} (hf : st.format = c :: s) (hc : c ≠ 0)
    (h : st.turn = .leave err out) : st.loop = some (err, out) := by
  have h0 : ¬ peek st.format 0 = 0 := by
    rw [hf]
    exact hc
  rw [loop, dif_neg h0]
  split
  · rename_i h'
    exact absurd (h.symm.trans h') (by simp)
  · rename_i h'
    obtain ⟨rfl, rfl⟩ := Turn.leave.inj (h'.symm.trans h)
    rfl
  · rename_i h'
    exact absurd (h.symm.trans h') (by simp)

theorem loop_append {c : UInt8} {s data : List UInt8} {len : Nat} {st₁ : Printf}
    (hf : st.format = c :: s) (hc : c ≠ 0) (h : st.turn = append data len st₁)
    (hloop : st.loop = some (r, out)) :
    (Printf.loop { st₁ with out := st₁.out ++ data.take len, written := st₁.written + len }
      = some (r, out)) ∨ (r = eoverflow ∧ out = st₁.out) := by
  rcases append_cases data len st₁ with he | ⟨-, he⟩
  · left
    rw [← hloop]
    exact (loop_turn hf hc (h.trans he)).symm
  · right
    rw [loop_leave hf hc (h.trans he)] at hloop
    obtain ⟨rfl, rfl⟩ := Prod.mk.inj (Option.some.inj hloop)
    exact ⟨rfl, rfl⟩

/-- **Only whole pieces are printed**, up to the first unknown specifier and with it. -/
theorem loop_whole_pieces {f : List UInt8} {args rest : List VaArg} {ps : List (List UInt8)}
    (h : Pieces f args ps rest) : ∀ st : Printf, st.format = f → st.parameters = args → 0 ∉ f →
    (∀ u, UnknownFrom f u → ¬ [0x25, 0x6C, 0x6C] <+: u) → st.loop = some (r, out) →
    ∃ k, out = st.out ++ (ps.take k).flatten := by
  -- a piece, and what the loop does behind it
  have hstep {st st₁ : Printf} {c : UInt8} {s t : List UInt8} {ps : List (List UInt8)}
      (hf : st.format = c :: s) (hc : c ≠ 0) (ht : st.turn = append t t.length st₁)
      (hout : st₁.out = st.out) (hloop : st.loop = some (r, out))
      (hnext : Printf.loop { st₁ with out := st₁.out ++ t, written := st₁.written + t.length }
        = some (r, out) → ∃ k, out = (st₁.out ++ t) ++ (ps.take k).flatten) :
      ∃ k, out = st.out ++ ((t :: ps).take k).flatten := by
    rcases loop_append hf hc ht hloop with hgo | ⟨-, rfl⟩
    · rw [List.take_length] at hgo
      obtain ⟨k, rfl⟩ := hnext hgo
      refine ⟨k + 1, ?_⟩
      rw [hout, List.take_succ_cons, List.flatten_cons, List.append_assoc]
    · exact ⟨0, by simpa using hout⟩
  induction h with
  | nil =>
    intro st hf _ _ _ hloop
    rw [loop_end hf] at hloop
    obtain ⟨-, rfl⟩ := Prod.mk.inj (Option.some.inj hloop)
    exact ⟨0, by simp⟩
  | @literal c w f ps args args' hc hw hstop _ ih =>
    intro st hf hps h0 hl hloop
    have hc0 : c ≠ 0 := fun h => h0 (by simp [h])
    have hrun := run_append (fun hm => h0 (by simp [hm])) hw hstop
    have hturn := turn_literal hf hc
    rw [hrun, List.drop_left] at hturn
    have ht : st.turn = append (c :: w) (c :: w).length { st with format := f } := by
      rw [hturn, append, append, List.length_cons, ← List.cons_append, ← List.length_cons,
        List.take_left, List.take_length]
    refine hstep hf hc0 ht rfl hloop ?_
    exact ih _ rfl hps (fun hm => h0 (by simp [hm])) fun u hu => hl u (.literal hc (hu.run hw))
  | @percent w f ps args args' hw hstop _ ih =>
    intro st hf hps h0 hl hloop
    have hrun := run_append (fun hm => h0 (by simp [hm])) hw hstop
    have hturn := turn_percent hf
    rw [hrun, List.drop_left] at hturn
    have ht : st.turn = append (0x25 :: w) (0x25 :: w).length { st with format := f } := by
      rw [hturn, append, append, List.length_cons, ← List.cons_append, ← List.length_cons,
        List.take_left, List.take_length]
    refine hstep hf (by decide) ht rfl hloop ?_
    exact ih _ rfl hps (fun hm => h0 (by simp [hm])) fun u hu => hl u (.percent (hu.run hw))
  | @conversion k a t f ps args args' ht _ ih =>
    intro st hf hps h0 hl hloop
    obtain ⟨b, hturn⟩ := turn_conversion hf hps ht
    refine hstep hf (by decide) hturn rfl hloop ?_
    exact ih _ rfl rfl (fun hm => h0 (by simp [hm])) fun u hu => hl u (.conversion hu)
  | @unknown f args hu =>
    intro st hf _ h0 hl hloop
    have hturn : st.turn = st.unknownTurn := by
      refine turn_unknown hf hu ?_
      rintro ⟨t, rfl⟩
      exact hl _ (.unknown hu) ⟨t, rfl⟩
    rw [unknownTurn, strlen_eq _ (hf ▸ h0)] at hturn
    have ht : st.turn = append (0x25 :: f) (0x25 :: f).length { st with format := [] } := by
      rw [hturn, List.drop_length, hf]
    refine hstep hf (by decide) ht rfl hloop ?_
    intro hgo
    rw [loop_end rfl] at hgo
    obtain ⟨-, rfl⟩ := Prod.mk.inj (Option.some.inj hgo)
    exact ⟨0, by simp⟩

/-- **The result is never negative**: it is `EOVERFLOW`, or the number of the characters.
The induction is on what is left of the format. -/
theorem loop_result : ∀ (n : Nat) (st : Printf), st.format.length ≤ n → Counted st →
    st.loop = some (r, out) → out.length ≤ intMax ∧ (r = eoverflow ∨ r = out.length) := by
  intro n
  induction n with
  | zero =>
    intro st hn hc h
    rw [loop_end (List.length_eq_zero_iff.mp (Nat.le_zero.mp hn))] at h
    obtain ⟨rfl, rfl⟩ := Prod.mk.inj (Option.some.inj h)
    exact ⟨hc.eq ▸ hc.le, .inr (by rw [hc.eq])⟩
  | succ n ih =>
    intro st hn hc h
    rw [loop] at h
    by_cases h0 : peek st.format 0 = 0
    · rw [dif_pos h0] at h
      obtain ⟨rfl, rfl⟩ := Prod.mk.inj (Option.some.inj h)
      exact ⟨hc.eq ▸ hc.le, .inr (by rw [hc.eq])⟩
    rw [dif_neg h0] at h
    have hfair := turn_fair h0
    split at h
    · rename_i st' hturn
      rw [hturn] at hfair
      obtain ⟨k, hk⟩ := hfair
      have hpos := hk.pos
      refine ih st' ?_ (hk.counted hc) h
      rw [hk.format, List.length_drop]
      omega
    · rename_i err out' hturn
      rw [hturn] at hfair
      obtain ⟨rfl, rfl⟩ := Prod.mk.inj (Option.some.inj h)
      obtain ⟨rfl, rfl⟩ := hfair
      exact ⟨hc.eq ▸ hc.le, .inl rfl⟩
    · exact absurd h (by simp)

end Printf

/-- **Only whole pieces are printed**, up to the first unknown specifier and with it. -/
theorem vprintf_whole_pieces (buffer : CharArray) (format : CString) {args rest : List VaArg}
    {text out : List UInt8} {r : Int} (h : Renders format.chars args text rest)
    (hl : ∀ u, UnknownFrom format.chars u → ¬ [0x25, 0x6C, 0x6C] <+: u)
    (hr : vprintf buffer format args = some (r, out)) : WholePieces format.chars args out := by
  obtain ⟨ps, hps, -⟩ := h.pieces _ (Nat.le_refl _) format.noNul
  obtain ⟨k, hk⟩ := Printf.loop_whole_pieces hps _ rfl rfl format.noNul hl hr
  exact ⟨ps, rest, k, hps, hk⟩

/-- The call returns, and its result is right. -/
def ResultRight (buffer : CharArray) (format : CString) (args : List VaArg) (text : List UInt8) :
    Prop :=
  ∃ r out, vprintf buffer format args = some (r, out) ∧ ResultTells format.chars args text r out

/-- **When the result is right**: the text is not longer than `INT_MAX`, and the first
unknown specifier of the format does not begin with `%ll`.  Arguments behind the last
one that the format asks for may stand for what `%ll` loses; without them the
condition is exact. -/
theorem vprintf_result (buffer : CharArray) (format : CString) {args rest : List VaArg}
    {text : List UInt8} (h : Renders format.chars args text rest) :
    (text.length ≤ intMax → (∀ u, UnknownFrom format.chars u → ¬ [0x25, 0x6C, 0x6C] <+: u) →
      ResultRight buffer format args text) ∧
    (ResultRight buffer format args text → text.length ≤ intMax ∧
      (rest = [] → ∀ u, UnknownFrom format.chars u → ¬ [0x25, 0x6C, 0x6C] <+: u)) := by
  constructor
  · intro hmax hl
    refine ⟨_, _, vprintf_complete buffer format h hmax hl, ?_⟩
    exact ⟨fun _ => ⟨rfl, rfl⟩, fun hne => absurd rfl hne⟩
  · rintro ⟨r, out, hr, htells⟩
    obtain ⟨hmax, hcases⟩ := Printf.loop_result _ ⟨format.chars, args, 0, buffer, []⟩
      (Nat.le_refl _) ⟨rfl, Nat.zero_le _⟩ hr
    have hpos : 0 ≤ r := by
      have h75 : eoverflow = 75 := rfl
      rcases hcases with rfl | rfl <;> omega
    obtain ⟨rfl, -⟩ := htells.success hpos
    refine ⟨hmax, ?_⟩
    rintro rfl
    -- what `%ll` loses is missing at the end
    rintro u hu ⟨t, rfl⟩
    exact vprintf_loses buffer format h hu hmax hr

/-- `"%s"` with a short string. -/
theorem vprintf_result_string :
    ResultRight (fun _ => 0) ⟨[0x25, 0x73], by decide⟩ [.string ⟨[0x61, 0x62], by decide⟩]
      [0x61, 0x62] := by
  have h : Renders [0x25, 0x73] [.string ⟨[0x61, 0x62], by decide⟩] [0x61, 0x62] [] :=
    .conversion (k := .s) (t := [0x61, 0x62]) rfl .nil
  refine (vprintf_result (fun _ => 0) ⟨[0x25, 0x73], by decide⟩ h).1 (by decide) ?_
  · have hfrom : UnknownFrom [0x25, 0x73] [] := .conversion (k := .s) .nil
    intro u hu
    rw [hfrom.unique hu]
    decide

/-- The second of two strings does not fit. -/
theorem vprintf_two_strings (buffer : CharArray) (s : CString) (hle : s.chars.length ≤ intMax)
    (hlt : intMax < s.chars.length + s.chars.length) :
    vprintf buffer ⟨[0x25, 0x73, 0x25, 0x73], by decide⟩ [.string s, .string s]
      = some (75, s.chars) := by
  have hturn (format : List UInt8) (ps : List VaArg) (written : Nat) (b : CharArray)
      (out : List UInt8) : ∃ b', Printf.turn ⟨0x25 :: 0x73 :: format, .string s :: ps, written, b, out⟩
        = Printf.append s.chars s.chars.length ⟨format, ps, written, b', out⟩ :=
    Printf.turn_conversion (k := .s) rfl rfl rfl
  obtain ⟨b, hfirst⟩ := hturn [0x25, 0x73] [.string s] 0 buffer []
  rw [Printf.append_ok (by simpa using hle), List.take_length] at hfirst
  rw [vprintf, Printf.loop_turn rfl (by decide) hfirst]
  obtain ⟨b', hsecond⟩ := hturn [] [] (0 + s.chars.length) b ([] ++ s.chars)
  refine Printf.loop_leave rfl (by decide) (hsecond.trans ?_)
  have hmax : intMax = 2147483647 := rfl
  rw [Printf.append]
  dsimp only
  rw [u32_of_lt (by omega), if_pos (by omega)]
  rfl

/-- **Two strings of `2 ^ 30` characters**: half of the text is printed, and the result
is 75. -/
theorem vprintf_overflow_positive : ∃ s : CString, s.chars = List.replicate (2 ^ 30) 0x61 ∧
    Renders [0x25, 0x73, 0x25, 0x73] [.string s, .string s] (s.chars ++ s.chars) [] ∧
    vprintf (fun _ => 0) ⟨[0x25, 0x73, 0x25, 0x73], by decide⟩ [.string s, .string s]
      = some (75, s.chars) ∧
    ¬ ResultRight (fun _ => 0) ⟨[0x25, 0x73, 0x25, 0x73], by decide⟩ [.string s, .string s]
      (s.chars ++ s.chars) := by
  obtain ⟨s, hs⟩ : ∃ s : CString, s.chars = List.replicate (2 ^ 30) 0x61 :=
    ⟨⟨List.replicate (2 ^ 30) 0x61, fun h => absurd (List.eq_of_mem_replicate h) (by decide)⟩, rfl⟩
  have hlen : s.chars.length = 1073741824 := by rw [hs, List.length_replicate]; norm_num
  have hmax : intMax = 2147483647 := rfl
  have hr := vprintf_two_strings (fun _ => 0) s (by omega) (by omega)
  refine ⟨s, hs, ?_, hr, ?_⟩
  · have hboth : Renders [0x25, 0x73, 0x25, 0x73] [.string s, .string s]
        (s.chars ++ (s.chars ++ [])) [] :=
      .conversion (k := .s) rfl (.conversion (k := .s) rfl .nil)
    rwa [List.append_nil] at hboth
  · rintro ⟨r, out, hr', htells⟩
    obtain ⟨rfl, rfl⟩ := Prod.mk.inj (Option.some.inj (hr.symm.trans hr'))
    have hlength := (htells.success (by decide)).2
    rw [List.length_append] at hlength
    omega

end ChoOS
