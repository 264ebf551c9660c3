import ChoOS.Libc.Vprintf

/-!
# The keyboard

The code of `keyboard.c`, without `DEBUG`.  The interrupt handler reads the port
twice, so it has two bytes here; `irqs` is a run of interrupts whose two reads agree,
with all the text that they print.  A byte is a make code, or the same with the
highest bit set when the key goes up.

One boolean stands for both shift keys.  `shift_follows_keys`: it is right unless the
last of them to move went up under the other one.  The highest bit is looked at
for the modifiers only, so a key prints its character also when it goes up
(`prints_per_press`).
-/

namespace ChoOS

/-- `KEYBOARD_KEY_*`, the keys without a character. -/
def keyboardKey (n : UInt32) : UInt32 := 0xFFFFFFFF - n

def keyUnknown : UInt32 := keyboardKey 0
def keyEsc : UInt32 := keyboardKey 1
def keyCtrl : UInt32 := keyboardKey 2
def keyLshft : UInt32 := keyboardKey 3
def keyRshft : UInt32 := keyboardKey 4
def keyAlt : UInt32 := keyboardKey 5
def keyF1 : UInt32 := keyboardKey 6
def keyF2 : UInt32 := keyboardKey 7
def keyF3 : UInt32 := keyboardKey 8
def keyF4 : UInt32 := keyboardKey 9
def keyF5 : UInt32 := keyboardKey 10
def keyF6 : UInt32 := keyboardKey 11
def keyF7 : UInt32 := keyboardKey 12
def keyF8 : UInt32 := keyboardKey 13
def keyF9 : UInt32 := keyboardKey 14
def keyF10 : UInt32 := keyboardKey 15
def keyF11 : UInt32 := keyboardKey 16
def keyF12 : UInt32 := keyboardKey 17
def keyScrlck : UInt32 := keyboardKey 18
def keyHome : UInt32 := keyboardKey 19
def keyUp : UInt32 := keyboardKey 20
def keyLeft : UInt32 := keyboardKey 21
def keyRight : UInt32 := keyboardKey 22
def keyDown : UInt32 := keyboardKey 23
def keyPgup : UInt32 := keyboardKey 24
def keyPgdown : UInt32 := keyboardKey 25
def keyEnd : UInt32 := keyboardKey 26
def keyIns : UInt32 := keyboardKey 27
def keyDel : UInt32 := keyboardKey 28
def keyCaps : UInt32 := keyboardKey 29
def keyNumlck : UInt32 := keyboardKey 32

/-- A character constant. -/
def ch (c : Char) : UInt32 := c.val

def lowercase : List UInt32 :=
  [keyUnknown, keyEsc, ch '1', ch '2', ch '3', ch '4', ch '5', ch '6', ch '7', ch '8', ch '9',
    ch '0', ch '-', ch '=', 0x08, 0x09, ch 'q', ch 'w', ch 'e', ch 'r', ch 't', ch 'y', ch 'u',
    ch 'i', ch 'o', ch 'p', ch '[', ch ']', 0x0A, keyCtrl, ch 'a', ch 's', ch 'd', ch 'f', ch 'g',
    ch 'h', ch 'j', ch 'k', ch 'l', ch ';', 0x27, 0x60, keyLshft, 0x5C, ch 'z', ch 'x', ch 'c',
    ch 'v', ch 'b', ch 'n', ch 'm', ch ',', ch '.', ch '/', keyRshft, ch '*', keyAlt, ch ' ',
    keyCaps, keyF1, keyF2, keyF3, keyF4, keyF5, keyF6, keyF7, keyF8, keyF9, keyF10, keyNumlck,
    keyScrlck, keyHome, keyUp, keyPgup, ch '-', keyLeft, keyUnknown, keyRight, ch '+', keyEnd,
    keyDown, keyPgdown, keyIns, keyDel, keyUnknown, keyUnknown, keyUnknown, keyF11, keyF12]
    ++ List.replicate 39 keyUnknown

def uppercase : List UInt32 :=
  [keyUnknown, keyEsc, ch '!', ch '@', ch '#', ch '$', ch '%', ch '^', ch '&', ch '*', ch '(',
    ch ')', ch '_', ch '+', 0x08, 0x09, ch 'Q', ch 'W', ch 'E', ch 'R', ch 'T', ch 'Y', ch 'U',
    ch 'I', ch 'O', ch 'P', 0x7B, 0x7D, 0x0A, keyCtrl, ch 'A', ch 'S', ch 'D', ch 'F', ch 'G',
    ch 'H', ch 'J', ch 'K', ch 'L', ch ':', 0x22, ch '~', keyLshft, ch '|', ch 'Z', ch 'X', ch 'C',
    ch 'V', ch 'B', ch 'N', ch 'M', ch '<', ch '>', ch '?', keyRshft, ch '*', keyAlt, ch ' ',
    keyCaps, keyF1, keyF2, keyF3, keyF4, keyF5, keyF6, keyF7, keyF8, keyF9, keyF10, keyNumlck,
    keyScrlck, keyHome, keyUp, keyPgup, ch '-', keyLeft, keyUnknown, keyRight, ch '+', keyEnd,
    keyDown, keyPgdown, keyIns, keyDel, keyUnknown, keyUnknown, keyUnknown, keyF11, keyF12]
    ++ List.replicate 39 keyUnknown

/-- `SC_LCTRL` -/
def scLctrl : UInt8 := 0x1D

/-- `SC_LSHIFT` -/
def scLshift : UInt8 := 0x2A

/-- `SC_RSHIFT` -/
def scRshift : UInt8 := 0x36

/-- `SC_LALT` -/
def scLalt : UInt8 := 0x38

/-- `PS2_MAKE_CODE` -/
def ps2MakeCode (releaseCode : UInt8) : UInt8 := releaseCode &&& 0x7F

/-- The globals of `keyboard.c`. -/
structure Keyboard where
  ctrlPressed : Bool
  shiftPressed : Bool
  altPressed : Bool
  deriving DecidableEq

/-- `keyboard_init` -/
def keyboardInit : Keyboard := ⟨false, false, false⟩

namespace Keyboard

/-- `update_modifier_keys_state`; `press` is the highest bit of the byte, so it is set
for a key that goes up. -/
def updateModifierKeysState (scancode press : UInt8) (k : Keyboard) : Bool × Keyboard :=
  if scancode = scLctrl then (true, { k with ctrlPressed := decide (press = 0) })
  else if scancode = scLshift ∨ scancode = scRshift then
    (true, { k with shiftPressed := decide (press = 0) })
  else if scancode = scLalt then (true, { k with altPressed := decide (press = 0) })
  else (false, k)

/-- The entry that `log_key_press` takes. -/
def entry (k : Keyboard) (scancode : UInt8) : UInt32 :=
  (if k.shiftPressed then uppercase else lowercase).getD scancode.toNat 0

/-- `log_key_press`, with the text of its `printf`. -/
def logKeyPress (buffer : CharArray) (scancode : UInt8) (k : Keyboard) : Option (List UInt8) :=
  (vprintf buffer ⟨[0x25, 0x63], by decide⟩ [.int (k.entry scancode).toInt32]).map Prod.snd

/-- `irq_1_handler`, with the bytes that its two reads of the port return. -/
def irq1Handler (buffer : CharArray) (inb inb' : UInt8) (k : Keyboard) :
    Option (Keyboard × List UInt8) := do
  let scancode := inb &&& 0x7F
  let press := inb' &&& 0x80
  let (isModifier, k) := updateModifierKeysState scancode press k
  if isModifier then return (k, []) else return (k, ← logKeyPress buffer scancode k)

/-- An interrupt for each byte. -/
def irqs (buffer : CharArray) : List UInt8 → Keyboard → Option (Keyboard × List UInt8)
  | [], k => some (k, [])
  | code :: codes, k => do
    let (k, text) ← irq1Handler buffer code code k
    let (k, texts) ← irqs buffer codes k
    return (k, text ++ texts)

/-! ### One interrupt -/

/-- The character that `%c` makes of an entry. -/
def charOf (e : UInt32) : UInt8 := UInt8.ofInt e.toInt32.toInt

theorem logKeyPress_eq (buffer : CharArray) (scancode : UInt8) (k : Keyboard) :
    logKeyPress buffer scancode k = some [charOf (k.entry scancode)] := by
  have h : Renders [0x25, 0x63] [.int (k.entry scancode).toInt32] [charOf (k.entry scancode)] [] :=
    .conversion (k := .c) (t := [charOf (k.entry scancode)]) rfl .nil
  have hfrom : UnknownFrom [0x25, 0x63] [] := .conversion (k := .c) .nil
  rw [logKeyPress, vprintf_complete buffer ⟨[0x25, 0x63], by decide⟩ h (show 1 ≤ intMax by decide)]
  · rfl
  · intro u hu
    rw [hfrom.unique hu]
    decide

/-- The key of a byte is one of the shift keys. -/
def IsShift (code : UInt8) : Prop := ps2MakeCode code = scLshift ∨ ps2MakeCode code = scRshift

instance (code : UInt8) : Decidable (IsShift code) := inferInstanceAs (Decidable (_ ∨ _))

/-- The byte is a make code. -/
def IsMake (code : UInt8) : Prop := code &&& 0x80 = 0

instance (code : UInt8) : Decidable (IsMake code) := inferInstanceAs (Decidable (_ = _))

/-- The state after an interrupt. -/
def handled (k : Keyboard) (code : UInt8) : Keyboard :=
  (updateModifierKeysState (ps2MakeCode code) (code &&& 0x80) k).2

/-- The text of an interrupt. -/
def printed (k : Keyboard) (code : UInt8) : List UInt8 :=
  if (updateModifierKeysState (ps2MakeCode code) (code &&& 0x80) k).1 then []
  else [charOf ((k.handled code).entry (ps2MakeCode code))]

theorem irq1Handler_eq (buffer : CharArray) (code : UInt8) (k : Keyboard) :
    irq1Handler buffer code code k = some (k.handled code, k.printed code) := by
  rw [irq1Handler, printed, handled, ps2MakeCode]
  dsimp only
  split
  · rfl
  · rw [logKeyPress_eq]
    rfl

/-- The text of a run. -/
def printedBy : List UInt8 → Keyboard → List UInt8
  | [], _ => []
  | code :: codes, k => k.printed code ++ printedBy codes (k.handled code)

theorem irqs_eq (buffer : CharArray) : ∀ (codes : List UInt8) (k : Keyboard),
    irqs buffer codes k = some (codes.foldl handled k, printedBy codes k) := by
  intro codes
  induction codes with
  | nil =>
    intro k
    rfl
  | cons code codes ih =>
    intro k
    rw [irqs, irq1Handler_eq]
    change ((irqs buffer codes (k.handled code)).bind _) = _
    rw [ih]
    rfl

/-! ### The shift keys -/

/-- The key went down after it last went up. -/
def held (key : UInt8) (codes : List UInt8) : Bool :=
  codes.foldl (fun down code => if ps2MakeCode code = key then decide (IsMake code) else down) false

/-- Each key goes down and up in turn, down first. -/
def Alternates (codes : List UInt8) : Prop :=
  ∀ i, (hi : i < codes.length) → (IsMake codes[i] ↔ held (ps2MakeCode codes[i]) (codes.take i) = false)

/-- After these bytes the boolean tells whether a shift key is held. -/
def ShiftRight (codes : List UInt8) : Prop :=
  ∀ buffer, ∃ k text, irqs buffer codes keyboardInit = some (k, text) ∧
    (k.shiftPressed = true ↔ held scLshift codes = true ∨ held scRshift codes = true)

/-- A shift key goes up while the other one is held. -/
def Crosses (before : List UInt8) (code : UInt8) : Prop :=
  ¬ IsMake code ∧ (ps2MakeCode code = scLshift ∧ held scRshift before = true ∨
    ps2MakeCode code = scRshift ∧ held scLshift before = true)

/-- The last byte of a shift key is such a one. -/
def LastCrosses (codes : List UInt8) : Prop :=
  ∃ before code after, codes = before ++ code :: after ∧ Crosses before code ∧
    ∀ c ∈ after, ¬ IsShift c

theorem shiftPressed_handled (k : Keyboard) (code : UInt8) :
    (k.handled code).shiftPressed = if IsShift code then decide (IsMake code) else k.shiftPressed := by
  unfold handled updateModifierKeysState
  by_cases hctrl : ps2MakeCode code = scLctrl
  · have hshift : ¬ IsShift code := by
      rw [IsShift, hctrl]
      decide
    rw [if_pos hctrl, if_neg hshift]
  · rw [if_neg hctrl]
    by_cases hshift : IsShift code
    · rw [if_pos (show _ ∨ _ from hshift), if_pos hshift]
      rfl
    · rw [if_neg (show ¬ (_ ∨ _) from hshift), if_neg hshift]
      split <;> rfl

theorem held_concat (key : UInt8) (codes : List UInt8) (code : UInt8) :
    held key (codes ++ [code])
      = if ps2MakeCode code = key then decide (IsMake code) else held key codes := by
  rw [held, List.foldl_append]
  rfl

theorem Crosses.isShift {before : List UInt8} {code : UInt8} (h : Crosses before code) :
    IsShift code := by
  rcases h.2 with h | h
  · exact .inl h.1
  · exact .inr h.1

theorem lastCrosses_concat (codes : List UInt8) (c : UInt8) :
    LastCrosses (codes ++ [c]) ↔ Crosses codes c ∨ ¬ IsShift c ∧ LastCrosses codes := by
  constructor
  · rintro ⟨before, code, after, heq, hcross, hafter⟩
    rcases List.eq_nil_or_concat after with rfl | ⟨after, d, rfl⟩
    · obtain ⟨rfl, hc⟩ := List.append_inj' heq rfl
      obtain rfl := (List.cons.inj hc).1
      exact .inl hcross
    · have heq' : codes ++ [c] = (before ++ code :: after) ++ [d] := by simpa using heq
      obtain ⟨rfl, hd⟩ := List.append_inj' heq' rfl
      obtain rfl := (List.cons.inj hd).1
      refine .inr ⟨hafter c (by simp), before, code, after, rfl, hcross, ?_⟩
      exact fun e he => hafter e (by simp [he])
  · rintro (hcross | ⟨hc, before, code, after, rfl, hcross, hafter⟩)
    · exact ⟨codes, c, [], rfl, hcross, by simp⟩
    · refine ⟨before, code, after ++ [c], by simp, hcross, ?_⟩
      intro e he
      rcases List.mem_append.mp he with he | he
      · exact hafter e he
      · exact List.mem_singleton.mp he ▸ hc

theorem shiftRight_iff (codes : List UInt8) : ShiftRight codes ↔
    ((codes.foldl handled keyboardInit).shiftPressed
      = (held scLshift codes || held scRshift codes)) := by
  rw [Bool.eq_iff_iff, Bool.or_eq_true]
  constructor
  · intro h
    obtain ⟨k, text, hrun, hk⟩ := h fun _ => 0
    rw [irqs_eq] at hrun
    obtain ⟨rfl, rfl⟩ := Prod.mk.inj (Option.some.inj hrun)
    exact hk
  · intro h buffer
    exact ⟨_, _, irqs_eq buffer codes keyboardInit, h⟩

/-- **The boolean after a run** is wrong exactly when the last shift key to move went up
under the other one.  The induction takes the last byte off. -/
theorem shift_iff (codes : List UInt8) : ShiftRight codes ↔ ¬ LastCrosses codes := by
  rw [shiftRight_iff]
  induction codes using List.reverseRecOn with
  | nil =>
    refine iff_of_true rfl ?_
    rintro ⟨before, code, after, heq, -⟩
    exact absurd heq (by simp)
  | append_singleton codes c ih =>
    rw [lastCrosses_concat, List.foldl_append, List.foldl_cons, List.foldl_nil,
      shiftPressed_handled, held_concat, held_concat]
    have hne : scLshift ≠ scRshift := by decide
    -- a key that goes down is held; one that goes up is the only one, or it crosses
    have hbool (m b : Bool) : (m = (m || b)) ↔ ¬ (¬ m = true ∧ b = true) := by
      revert m b
      decide
    by_cases hl : ps2MakeCode c = scLshift
    · have hr : ps2MakeCode c ≠ scRshift := fun h => hne (hl.symm.trans h)
      have hshift : IsShift c := .inl hl
      rw [if_pos hshift, if_pos hl, if_neg hr, hbool, decide_eq_true_iff]
      simp only [Crosses, hl, hshift, hne, true_and, false_and, or_false, not_true]
    by_cases hr : ps2MakeCode c = scRshift
    · have hshift : IsShift c := .inr hr
      rw [if_pos hshift, if_neg hl, if_pos hr, Bool.or_comm, hbool, decide_eq_true_iff]
      simp only [Crosses, hr, hshift, hne.symm, true_and, false_and, false_or, or_false, not_true]
    · have hshift : ¬ IsShift c := not_or.mpr ⟨hl, hr⟩
      rw [if_neg hshift, if_neg hl, if_neg hr, ih]
      have hcross : ¬ Crosses codes c := fun h => hshift h.isShift
      simp only [hcross, hshift, not_false_eq_true, true_and, false_or]

/-- **When the boolean is right**: unless the last shift key to move went up under the
other one, and all the time when none ever does. -/
theorem shift_follows_keys (codes : List UInt8) :
    (ShiftRight codes ↔ ¬ LastCrosses codes) ∧
    ((∀ before code after, codes = before ++ code :: after → ¬ Crosses before code) →
      ∀ before, before <+: codes → ShiftRight before) := by
  refine ⟨shift_iff codes, ?_⟩
  rintro hnone before ⟨rest, rfl⟩
  rw [shift_iff]
  rintro ⟨first, code, after, rfl, hcross, -⟩
  exact hnone first code (after ++ rest) (by simp) hcross

/-- **Left down, right down, left up**: the right one is still held, and the boolean is
false. -/
theorem shift_lost : Alternates [0x2A, 0x36, 0xAA] ∧ ¬ ShiftRight [0x2A, 0x36, 0xAA] := by
  refine ⟨by unfold Alternates; decide, ?_⟩
  rw [shiftRight_iff]
  decide

/-! ### The text -/

/-- The key of the byte has a character. -/
def IsCharacter (code : UInt8) : Prop := lowercase.getD (ps2MakeCode code).toNat 0 < 128

instance (code : UInt8) : Decidable (IsCharacter code) := inferInstanceAs (Decidable (_ < _))

/-- A character for each key that goes down, from the table of that moment. -/
def pressesText : List UInt8 → Keyboard → List UInt8
  | [], _ => []
  | code :: codes, k =>
    (if IsMake code ∧ IsCharacter code then [(k.entry (ps2MakeCode code)).toUInt8] else [])
      ++ pressesText codes (k.handled code)

/-- A run prints that text. -/
def PrintsPresses (codes : List UInt8) (k : Keyboard) : Prop :=
  ∀ buffer, ∃ k', irqs buffer codes k = some (k', pressesText codes k)

theorem charOf_eq (e : UInt32) : charOf e = e.toUInt8 := by
  have hint : e.toInt32.toInt = if 2 * e.toNat < 2 ^ 32 then (e.toNat : Int)
      else (e.toNat : Int) - (2 ^ 32 : Nat) := BitVec.toInt_eq_toNat_cond e.toBitVec
  have hmod : (e.toInt32.toInt % 2 ^ 8).toNat = e.toNat % 256 := by
    rw [hint]
    split <;> omega
  rw [charOf, UInt8.ofInt, hmod]
  exact UInt8.toNat_inj.mp (by simp)

theorem printed_character {k : Keyboard} {code : UInt8} (h : IsCharacter code) :
    k.handled code = k ∧ k.printed code = [(k.entry (ps2MakeCode code)).toUInt8] := by
  have hne (sc : UInt8) (hsc : ¬ lowercase.getD sc.toNat 0 < 128) : ps2MakeCode code ≠ sc := by
    rintro rfl
    exact hsc h
  have hnone : updateModifierKeysState (ps2MakeCode code) (code &&& 0x80) k = (false, k) := by
    rw [updateModifierKeysState, if_neg (hne scLctrl (by decide)),
      if_neg (not_or.mpr ⟨hne scLshift (by decide), hne scRshift (by decide)⟩),
      if_neg (hne scLalt (by decide))]
  rw [printed, handled, hnone]
  exact ⟨rfl, by rw [charOf_eq]; rfl⟩

theorem printed_shift {k : Keyboard} {code : UInt8} (h : IsShift code) : k.printed code = [] := by
  have hctrl : ps2MakeCode code ≠ scLctrl := by
    rcases h with h | h <;> rw [h] <;> decide
  rw [printed, updateModifierKeysState, if_neg hctrl, if_pos (show _ ∨ _ from h)]
  rfl

theorem not_isCharacter_of_isShift {code : UInt8} (h : IsShift code) : ¬ IsCharacter code := by
  unfold IsCharacter
  rcases h with h | h <;> rw [h] <;> decide

/-- The text has one character too many for each key that goes up. -/
theorem printedBy_length : ∀ (codes : List UInt8) (k : Keyboard),
    (∀ code ∈ codes, IsCharacter code ∨ IsShift code) →
    (printedBy codes k).length
      = (pressesText codes k).length + codes.countP fun code => IsCharacter code ∧ ¬ IsMake code := by
  intro codes
  induction codes with
  | nil =>
    intro k _
    rfl
  | cons code codes ih =>
    intro k h
    have ih := ih (k.handled code) fun c hc => h c (List.mem_cons_of_mem _ hc)
    rw [printedBy, pressesText, List.length_append, List.length_append, ih, List.countP_cons]
    rcases h code (List.mem_cons_self ..) with hchar | hshift
    · rw [(printed_character hchar).2]
      by_cases hmake : IsMake code
      · simp [hmake, hchar]
        omega
      · simp [hmake, hchar]
        omega
    · have hchar := not_isCharacter_of_isShift hshift
      rw [printed_shift hshift]
      simp [hchar]

theorem printedBy_presses : ∀ (codes : List UInt8) (k : Keyboard),
    (∀ code ∈ codes, IsCharacter code ∨ IsShift code) →
    (∀ code ∈ codes, IsCharacter code → IsMake code) → printedBy codes k = pressesText codes k := by
  intro codes
  induction codes with
  | nil =>
    intro k _ _
    rfl
  | cons code codes ih =>
    intro k h hmake
    rw [printedBy, pressesText, ih (k.handled code) (fun c hc => h c (List.mem_cons_of_mem _ hc))
      fun c hc => hmake c (List.mem_cons_of_mem _ hc)]
    congr 1
    rcases h code (List.mem_cons_self ..) with hchar | hshift
    · rw [(printed_character hchar).2, if_pos ⟨hmake code (List.mem_cons_self ..) hchar, hchar⟩]
    · rw [printed_shift hshift, if_neg fun hc => not_isCharacter_of_isShift hshift hc.2]

/-- **When a run prints one character for each press**: no character key goes up in it. -/
theorem prints_per_press {codes : List UInt8} (k : Keyboard)
    (h : ∀ code ∈ codes, IsCharacter code ∨ IsShift code) :
    PrintsPresses codes k ↔ ∀ code ∈ codes, IsCharacter code → IsMake code := by
  constructor
  · intro hprints code hcode hchar
    obtain ⟨k', hrun⟩ := hprints fun _ => 0
    rw [irqs_eq] at hrun
    have htext : printedBy codes k = pressesText codes k :=
      (Prod.mk.inj (Option.some.inj hrun)).2
    have hlen := printedBy_length codes k h
    rw [htext] at hlen
    have hcount := List.countP_eq_zero.mp (Nat.left_eq_add.mp hlen) code hcode
    by_contra hmake
    exact hcount (decide_eq_true ⟨hchar, hmake⟩)
  · intro hmake buffer
    exact ⟨_, by rw [irqs_eq, printedBy_presses codes k h hmake]⟩

/-- Shift and `A`, both down. -/
theorem prints_per_press_shifted : PrintsPresses [0x2A, 0x1E] keyboardInit := by
  refine (prints_per_press keyboardInit fun code hcode => ?_).mpr fun code hcode => ?_
  · rcases List.mem_pair.mp hcode with rfl | rfl <;> decide
  · rcases List.mem_pair.mp hcode with rfl | rfl <;> decide

/-- **`A` down and up** prints `aa`. -/
theorem prints_on_release : (∃ k, irqs (fun _ => 0) [0x1E, 0x9E] keyboardInit
      = some (k, [0x61, 0x61])) ∧ pressesText [0x1E, 0x9E] keyboardInit = [0x61] ∧
    ¬ PrintsPresses [0x1E, 0x9E] keyboardInit := by
  have hprinted : printedBy [0x1E, 0x9E] keyboardInit = [0x61, 0x61] := by decide
  refine ⟨⟨_, by rw [irqs_eq, hprinted]⟩, by decide, ?_⟩
  intro h
  obtain ⟨k, hrun⟩ := h fun _ => 0
  rw [irqs_eq, hprinted] at hrun
  exact absurd (Prod.mk.inj (Option.some.inj hrun)).2 (by decide)

end Keyboard

end ChoOS
