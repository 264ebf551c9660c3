import Mathlib.Data.List.Induction
import ChoOS.Terminal.Tty

/-!
# The screen and the page

`TextPage` is the text without a screen: unboundedly many rows of 80 columns, filled
from left to right.  The screen shows 25 rows of it.  The terminal goes to row 25
when the last row is full and scrolls before the next character, so `Window` has
a number of rows that are gone and a cursor that may stand below the screen.
`screen_is_window` is the result, for texts without `'\b'`.

With `'\b'` the cursor can leave the screen: at column 0 it is set to column 80
and stays there.  `terminal_bounds` says that this is the only way out.
-/

namespace ChoOS

namespace Tty

variable {t : Tty} {c : UInt8}

/-! ### The cursor -/

theorem fill_eq {v : Nat} {f : Nat → Nat} : ∀ (l : List Nat) (t : Tty),
    l.foldl (fun t x => t.setCell (f x) v) t
      = { t with mem := (l.foldl (fun t x => t.setCell (f x) v) t).mem } := by
  intro l
  induction l with
  | nil =>
    intro t
    rfl
  | cons x l ih =>
    intro t
    rw [List.foldl_cons, ih]
    rfl

theorem ttyInit_eq (m : ByteMem) :
    ttyInit m = ⟨(ttyInit m).mem, 0, 0, vgaEntryColor vgaColorLightGrey vgaColorBlack, []⟩ := by
  have hlines : ∀ (l : List Nat) (v : Nat) (t : Tty),
      l.foldl (fun t y => (List.range vgaWidth).foldl (fun t x =>
        t.setCell (y * vgaWidth + x) v) t) t
      = { t with mem := (l.foldl (fun t y => (List.range vgaWidth).foldl (fun t x =>
        t.setCell (y * vgaWidth + x) v) t) t).mem } := by
    intro l v
    induction l with
    | nil =>
      intro t
      rfl
    | cons y l ih =>
      intro t
      rw [List.foldl_cons, ih, fill_eq]
  exact hlines _ _ _

theorem scrollIfFull_of_ne (h : t.terminalRow ≠ 25) : t.scrollIfFull = t := if_neg h

theorem scrollIfFull_of_eq (h : t.terminalRow = 25) :
    t.scrollIfFull
      = { t with mem := t.terminalScroll.terminalDeleteLastLine.mem, terminalRow := 24 } := by
  obtain ⟨m, hscroll⟩ : ∃ m, t.terminalScroll = { t with mem := m } := ⟨_, rfl⟩
  have hline : ({ t with mem := m } : Tty).terminalDeleteLastLine
      = { t with mem := ({ t with mem := m } : Tty).terminalDeleteLastLine.mem } := by
    unfold terminalDeleteLastLine
    exact fill_eq _ _
  unfold scrollIfFull
  rw [if_pos (show t.terminalRow = vgaHeight from h), hscroll]
  generalize ({ t with mem := m } : Tty).terminalDeleteLastLine = t' at hline ⊢
  rw [hline]
  rfl

/-- In front of a character the cursor is on the screen. -/
theorem scrollIfFull_cursor (h : t.terminalRow ≤ 25) :
    t.scrollIfFull.terminalColumn = t.terminalColumn ∧ t.scrollIfFull.terminalRow < 25 ∧
      t.scrollIfFull.written = t.written := by
  by_cases hrow : t.terminalRow = 25
  · rw [scrollIfFull_of_eq hrow]
    exact ⟨rfl, Nat.lt_succ_self 24, rfl⟩
  · rw [scrollIfFull_of_ne hrow]
    exact ⟨rfl, by omega, rfl⟩

theorem index_eq {x y : Nat} (hx : x < 80) (hy : y < 25) : u32 (y * vgaWidth + x) = y * 80 + x :=
  u32_of_lt (by simp only [vgaWidth]; omega)

theorem regular_eq (hcol : t.terminalColumn < 80) (hrow : t.terminalRow < 25) :
    t.regular c =
      { t.setCell (t.terminalRow * 80 + t.terminalColumn) (vgaEntry c t.terminalColor) with
        written := (t.terminalRow * 80 + t.terminalColumn) :: t.written
        terminalColumn := if t.terminalColumn = 79 then 0 else t.terminalColumn + 1
        terminalRow := if t.terminalColumn = 79 then t.terminalRow + 1 else t.terminalRow } := by
  have hnext : u32 (t.terminalColumn + 1) = t.terminalColumn + 1 := u32_of_lt (by omega)
  have hdown : u32 (t.terminalRow + 1) = t.terminalRow + 1 := u32_of_lt (by omega)
  unfold regular terminalPutentryat
  simp only [index_eq hcol hrow, setCursor, setCell, hnext, hdown]
  by_cases hlast : t.terminalColumn = 79
  · rw [if_pos (by rw [hlast]; rfl), if_pos hlast, if_pos hlast]
  · rw [if_neg (by simp only [vgaWidth]; omega), if_neg hlast, if_neg hlast]

theorem backspace_eq (hne : t.terminalColumn ≠ 0) (hcol : t.terminalColumn < 80)
    (hrow : t.terminalRow < 25) :
    t.backspace =
      { t.setCell (t.terminalRow * 80 + (t.terminalColumn - 1)) (vgaEntry 0x20 t.terminalColor) with
        written := (t.terminalRow * 80 + (t.terminalColumn - 1)) :: t.written
        terminalColumn := t.terminalColumn - 1 } := by
  have hindex : u32 (t.terminalRow * vgaWidth + (t.terminalColumn - 1))
      = t.terminalRow * 80 + (t.terminalColumn - 1) := index_eq (by omega) hrow
  unfold backspace terminalPutentryat
  simp only [if_pos hne, setCursor, setCell, hindex]

/-! ### The bounds -/

/-- The cursor is on the screen or below its last row, and the cells that were
written are on the screen. -/
structure Bounds (t : Tty) : Prop where
  column : t.terminalColumn < vgaWidth
  row : t.terminalRow ≤ vgaHeight
  written : ∀ i ∈ t.written, i < vgaWidth * vgaHeight

theorem Bounds.newline (h : t.Bounds) (hrow : t.terminalRow < 25) : t.newline.Bounds := by
  refine ⟨Nat.succ_pos 79, ?_, h.written⟩
  change u32 (t.terminalRow + 1) ≤ 25
  rw [u32_of_lt (by omega)]
  exact hrow

theorem Bounds.regular (h : t.Bounds) (hrow : t.terminalRow < 25) : (t.regular c).Bounds := by
  have hcol : t.terminalColumn < 80 := h.column
  rw [regular_eq hcol hrow]
  refine ⟨?_, ?_, ?_⟩
  · change (if t.terminalColumn = 79 then 0 else t.terminalColumn + 1) < 80
    split <;> omega
  · change (if t.terminalColumn = 79 then t.terminalRow + 1 else t.terminalRow) ≤ 25
    split <;> omega
  · intro i hi
    rcases List.mem_cons.mp hi with rfl | hi
    · simp only [vgaWidth, vgaHeight]
      omega
    · exact h.written i hi

theorem Bounds.backspace (h : t.Bounds) (hrow : t.terminalRow < 25) (hne : t.terminalColumn ≠ 0) :
    t.backspace.Bounds := by
  have hcol : t.terminalColumn < 80 := h.column
  rw [backspace_eq hne hcol hrow]
  refine ⟨?_, h.row, ?_⟩
  · exact Nat.lt_of_le_of_lt (Nat.sub_le _ _) h.column
  · intro i hi
    rcases List.mem_cons.mp hi with rfl | hi
    · simp only [vgaWidth, vgaHeight]
      omega
    · exact h.written i hi

theorem Bounds.scrollIfFull (h : t.Bounds) :
    t.scrollIfFull.Bounds ∧ t.scrollIfFull.terminalRow < 25 := by
  obtain ⟨hcol, hrow, hwritten⟩ := scrollIfFull_cursor h.row
  refine ⟨⟨hcol ▸ h.column, Nat.le_of_lt hrow, ?_⟩, hrow⟩
  rw [hwritten]
  exact h.written

/-- **A character keeps the bounds**, except `'\b'` at column 0. -/
theorem Bounds.terminalPutchar (h : t.Bounds) (hc : c = 0x08 → t.terminalColumn ≠ 0) :
    (t.terminalPutchar c).Bounds := by
  have hcol := (scrollIfFull_cursor h.row).1
  obtain ⟨h', hrow⟩ := h.scrollIfFull
  unfold Tty.terminalPutchar
  dsimp only
  by_cases hn : c = 0x0A
  · rw [if_pos hn]
    exact h'.newline hrow
  rw [if_neg hn]
  by_cases hb : c = 0x08
  · rw [if_pos hb]
    exact h'.backspace hrow (hcol ▸ hc hb)
  · rw [if_neg hb]
    exact h'.regular hrow

/-- `'\b'` at column 0 leaves the screen. -/
theorem backspace_column (h : t.terminalColumn = 0) : t.backspace.terminalColumn = 80 := by
  unfold backspace
  rw [if_neg (not_not.mpr h)]
  rfl

theorem terminalWrite_concat (t : Tty) (cs : List UInt8) (c : UInt8) :
    t.terminalWrite (cs ++ [c]) = (t.terminalWrite cs).terminalPutchar c := by
  rw [terminalWrite, List.foldl_append]
  rfl

theorem Bounds.iff (h : t.Bounds) (cs : List UInt8) :
    (∀ p, p <+: cs → (t.terminalWrite p).Bounds) ↔
      ∀ p, p ++ [0x08] <+: cs → (t.terminalWrite p).terminalColumn ≠ 0 := by
  constructor
  · intro hall p hp hzero
    have hb := hall p ((List.prefix_append p [0x08]).trans hp)
    have hcol : (t.terminalWrite (p ++ [0x08])).terminalColumn < 80 := (hall _ hp).column
    have hleft : ((t.terminalWrite p).terminalPutchar 0x08).terminalColumn = 80 :=
      backspace_column ((scrollIfFull_cursor hb.row).1.trans hzero)
    rw [terminalWrite_concat, hleft] at hcol
    exact absurd hcol (by decide)
  · intro hback p
    induction p using List.reverseRecOn with
    | nil =>
      intro _
      exact h
    | append_singleton p c ih =>
      intro hp
      rw [terminalWrite_concat]
      refine (ih ((List.prefix_append p [c]).trans hp)).terminalPutchar ?_
      rintro rfl
      exact hback p hp

theorem bounds_ttyInit (m : ByteMem) : (ttyInit m).Bounds := by
  rw [ttyInit_eq]
  exact ⟨Nat.succ_pos 79, Nat.zero_le _, by simp⟩

end Tty

/-- **The cursor stays on the screen** as long as no `'\b'` comes at column 0. -/
theorem terminal_bounds (m : ByteMem) (cs : List UInt8) :
    (∀ p, p <+: cs → ((Tty.ttyInit m).terminalWrite p).Bounds) ↔
      ∀ p, p ++ [0x08] <+: cs → ((Tty.ttyInit m).terminalWrite p).terminalColumn ≠ 0 :=
  (Tty.bounds_ttyInit m).iff cs

/-- **A `'\b'` on the empty screen**: the row wraps and the column is 80. -/
theorem backspace_leaves_screen :
    ((Tty.ttyInit fun _ => 0).terminalWrite [0x08]).terminalColumn = 80 ∧
      ((Tty.ttyInit fun _ => 0).terminalWrite [0x08]).terminalRow = 4294967295 ∧
      ¬ ((Tty.ttyInit fun _ => 0).terminalWrite [0x08]).Bounds := by
  rw [Tty.ttyInit_eq]
  refine ⟨rfl, rfl, ?_⟩
  intro h
  exact absurd h.column (by decide)

/-! ### The page -/

/-- A text on unboundedly many rows of 80 columns, and the place of the next
character. -/
structure TextPage where
  cell : Nat → Nat → Option UInt8
  row : Nat
  column : Nat

namespace TextPage

def blank : TextPage := ⟨fun _ _ => none, 0, 0⟩

/-- The next row, on `'\n'` and behind column 79. -/
def advance (p : TextPage) : TextPage := { p with row := p.row + 1, column := 0 }

def write (p : TextPage) (c : UInt8) : TextPage :=
  { p with
    cell := fun r x => if r = p.row ∧ x = p.column then some c else p.cell r x
    column := p.column + 1 }

def put (p : TextPage) (c : UInt8) : TextPage :=
  if c = 0x0A then p.advance
  else if p.column = 79 then (p.write c).advance
  else p.write c

/-- The page of a text. -/
def reference (cs : List UInt8) : TextPage := cs.foldl put blank

/-- Nothing is written behind the cursor. -/
structure Ok (p : TextPage) : Prop where
  column : p.column < 80
  ahead : ∀ r x, p.row < r ∨ (r = p.row ∧ p.column ≤ x) → p.cell r x = none

variable {p : TextPage} {c : UInt8}

theorem Ok.advance {r x : Nat} (h : ∀ r x, p.row < r → p.cell r x = none)
    (hr : p.advance.row < r ∨ (r = p.advance.row ∧ p.advance.column ≤ x)) :
    p.advance.cell r x = none := by
  refine h r x ?_
  have hrow : p.advance.row = p.row + 1 := rfl
  omega

theorem Ok.put (h : p.Ok) : (p.put c).Ok := by
  have hw : ∀ r x, (p.write c).row < r → (p.write c).cell r x = none := by
    intro r x hr
    have hr : p.row < r := hr
    refine (if_neg (by omega)).trans (h.ahead r x (.inl hr))
  unfold TextPage.put
  by_cases hn : c = 0x0A
  · rw [if_pos hn]
    exact ⟨Nat.succ_pos 79, fun r x => Ok.advance fun r x hr => h.ahead r x (.inl hr)⟩
  rw [if_neg hn]
  by_cases hlast : p.column = 79
  · rw [if_pos hlast]
    exact ⟨Nat.succ_pos 79, fun r x => Ok.advance hw⟩
  · rw [if_neg hlast]
    have hcol := h.column
    refine ⟨show p.column + 1 < 80 by omega, ?_⟩
    intro r x hr
    have hr : p.row < r ∨ (r = p.row ∧ p.column + 1 ≤ x) := hr
    exact (if_neg (by omega)).trans (h.ahead r x (by omega))

end TextPage

/-! ### The window -/

/-- What a cell of the screen holds for a place of the page. -/
def Shows (v : Nat) : Option UInt8 → Prop
  | some c => v = vgaEntry c (vgaEntryColor vgaColorLightGrey vgaColorBlack)
  | none => v = vgaEntry 0x20 (vgaEntryColor vgaColorLightGrey vgaColorBlack) ∨ v = 0

/-- The screen shows the page from row `s` on. -/
structure Window (s : Nat) (t : Tty) (p : TextPage) : Prop where
  shows : ∀ y < 25, ∀ x < 80, Shows (t.cell (y * 80 + x)) (p.cell (s + y) x)
  column : p.column = t.terminalColumn
  row : p.row = s + t.terminalRow
  height : t.terminalRow ≤ 25
  scrolled : 0 < s → s + 24 ≤ p.row

/-- The window, with what the next character needs. -/
structure Window.Ok (s : Nat) (t : Tty) (p : TextPage) : Prop where
  window : Window s t p
  page : p.Ok
  color : t.terminalColor = vgaEntryColor vgaColorLightGrey vgaColorBlack
  full : t.terminalRow = 25 → t.terminalColumn = 0

namespace Window.Ok

variable {s : Nat} {t : Tty} {p : TextPage} {c : UInt8}

/-- The lines of the screen move up, and so does the window. -/
theorem scrollIfFull (h : Window.Ok s t p) :
    ∃ s', Window.Ok s' t.scrollIfFull p ∧ t.scrollIfFull.terminalRow < 25 := by
  have hheight := h.window.height
  by_cases hfull : t.terminalRow = 25
  · rw [Tty.scrollIfFull_of_eq hfull]
    have hrow := h.window.row
    have hcol := h.window.column
    refine ⟨s + 1, ⟨⟨?_, hcol, ?_, ?_, ?_⟩, h.page, h.color, ?_⟩, Nat.lt_succ_self 24⟩
    · intro y hy x hx
      have hcell : t.terminalScroll.terminalDeleteLastLine.cell (y * 80 + x)
          = if 1920 ≤ y * 80 + x then 0 else t.cell (y * 80 + x + 80) := by
        rw [Tty.cell_terminalDeleteLastLine (by omega), Tty.cell_terminalScroll (by omega)]
        split
        · rfl
        · rw [if_pos (by omega)]
      change Shows (t.terminalScroll.terminalDeleteLastLine.cell (y * 80 + x)) _
      rw [hcell]
      by_cases hlast : y = 24
      · -- the new line is empty on the page too
        rw [if_pos (by omega), h.page.ahead _ _ (.inr ⟨by omega, by have := h.full hfull; omega⟩)]
        exact .inr rfl
      · have hup := h.window.shows (y + 1) (by omega) x hx
        rw [if_neg (by omega), show y * 80 + x + 80 = (y + 1) * 80 + x by omega,
          show s + 1 + y = s + (y + 1) by omega]
        exact hup
    · change p.row = s + 1 + 24
      omega
    · exact Nat.le_succ 24
    · intro _
      omega
    · intro he
      have he : (24 : Nat) = 25 := he
      exact absurd he (by decide)
  · rw [Tty.scrollIfFull_of_ne hfull]
    exact ⟨s, h, by omega⟩

theorem newline (h : Window.Ok s t p) (hrow : t.terminalRow < 25) :
    Window.Ok s t.newline (p.put 0x0A) := by
  have hp := h.window.row
  have hnext : t.newline = t.setCursor 0 (t.terminalRow + 1) := by
    rw [Tty.newline, u32_of_lt (by omega)]
  rw [hnext]
  refine ⟨⟨h.window.shows, rfl, ?_, hrow, ?_⟩, h.page.put, h.color, fun _ => rfl⟩
  · change p.row + 1 = s + (t.terminalRow + 1)
    omega
  · intro hs
    have := h.window.scrolled hs
    change s + 24 ≤ p.row + 1
    omega

theorem shows_write (h : Window.Ok s t p) (hrow : t.terminalRow < 25) :
    ∀ y < 25, ∀ x < 80,
      Shows ((t.setCell (t.terminalRow * 80 + t.terminalColumn) (vgaEntry c t.terminalColor)).cell
        (y * 80 + x)) ((p.write c).cell (s + y) x) := by
  intro y hy x hx
  have hp := h.window.row
  have hpc := h.window.column
  have hcol := h.page.column
  rw [Tty.cell_setCell (by omega) (by omega) (vgaEntry_lt _ _)]
  change Shows _ (if s + y = p.row ∧ x = p.column then some c else p.cell (s + y) x)
  by_cases he : y * 80 + x = t.terminalRow * 80 + t.terminalColumn
  · rw [if_pos he, if_pos (by omega), h.color]
    rfl
  · rw [if_neg he, if_neg (by omega)]
    exact h.window.shows y hy x hx

theorem regular (h : Window.Ok s t p) (hrow : t.terminalRow < 25) (hc : c ≠ 0x0A) :
    Window.Ok s (t.regular c) (p.put c) := by
  have hp := h.window.row
  have hpc := h.window.column
  have hshows := h.shows_write (c := c) hrow
  have hput := h.page.put (c := c)
  rw [Tty.regular_eq (hpc ▸ h.page.column) hrow]
  unfold TextPage.put at hput ⊢
  rw [if_neg hc] at hput ⊢
  by_cases hlast : p.column = 79
  · rw [if_pos hlast] at hput ⊢
    have hlast' : t.terminalColumn = 79 := hpc.symm.trans hlast
    rw [if_pos hlast', if_pos hlast']
    refine ⟨⟨hshows, rfl, ?_, hrow, ?_⟩, hput, h.color, fun _ => rfl⟩
    · change p.row + 1 = s + (t.terminalRow + 1)
      omega
    · intro hs
      have := h.window.scrolled hs
      change s + 24 ≤ p.row + 1
      omega
  · rw [if_neg hlast] at hput ⊢
    have hlast' : t.terminalColumn ≠ 79 := fun he => hlast (hpc.trans he)
    rw [if_neg hlast', if_neg hlast']
    refine ⟨⟨hshows, ?_, hp, Nat.le_of_lt hrow, h.window.scrolled⟩, hput, h.color, ?_⟩
    · exact congrArg (· + 1) hpc
    · intro he
      have he : t.terminalRow = 25 := he
      omega

theorem terminalPutchar (h : Window.Ok s t p) (hb : c ≠ 0x08) :
    ∃ s', Window.Ok s' (t.terminalPutchar c) (p.put c) := by
  obtain ⟨s', h', hrow⟩ := h.scrollIfFull
  refine ⟨s', ?_⟩
  unfold Tty.terminalPutchar
  dsimp only
  by_cases hn : c = 0x0A
  · rw [if_pos hn, hn]
    exact h'.newline hrow
  · rw [if_neg hn, if_neg hb]
    exact h'.regular hrow hn

theorem terminalWrite : ∀ (cs : List UInt8) (s : Nat) (t : Tty) (p : TextPage), Window.Ok s t p →
    0x08 ∉ cs → ∃ s', Window.Ok s' (t.terminalWrite cs) (cs.foldl TextPage.put p) := by
  intro cs
  induction cs with
  | nil =>
    intro s t p h _
    exact ⟨s, h⟩
  | cons c cs ih =>
    intro s t p h hb
    rw [List.mem_cons, not_or] at hb
    obtain ⟨hc, hcs⟩ := hb
    obtain ⟨s', h'⟩ := h.terminalPutchar (Ne.symm hc)
    exact ih s' _ _ h' hcs

theorem ttyInit (m : ByteMem) : Window.Ok 0 (Tty.ttyInit m) TextPage.blank := by
  have hcells : ∀ i < 2000, (Tty.ttyInit m).cell i
      = vgaEntry 0x20 (vgaEntryColor vgaColorLightGrey vgaColorBlack) := by
    intro i hi
    unfold Tty.ttyInit
    dsimp only
    rw [Tty.cell_fillLines (vgaEntry_lt _ _) hi vgaHeight (Nat.le_refl 25)]
    exact if_pos hi
  have hpage : TextPage.blank.Ok := ⟨Nat.succ_pos 79, fun _ _ _ => rfl⟩
  obtain ⟨m', hm⟩ : ∃ m', Tty.ttyInit m
      = ⟨m', 0, 0, vgaEntryColor vgaColorLightGrey vgaColorBlack, []⟩ := ⟨_, Tty.ttyInit_eq m⟩
  rw [hm] at hcells ⊢
  refine ⟨⟨?_, rfl, rfl, Nat.zero_le _, ?_⟩, hpage, rfl, fun _ => rfl⟩
  · intro y hy x hx
    exact .inl (hcells (y * 80 + x) (by omega))
  · intro hs
    exact absurd hs (lt_irrefl 0)

end Window.Ok

/-- **The screen is a window on the page**, for every text without `'\b'`. -/
theorem screen_is_window (m : ByteMem) (cs : List UInt8) (h : 0x08 ∉ cs) :
    ∃ s, Window s ((Tty.ttyInit m).terminalWrite cs) (TextPage.reference cs) := by
  obtain ⟨s, hs⟩ := Window.Ok.terminalWrite cs 0 _ _ (Window.Ok.ttyInit m) h
  exact ⟨s, hs.window⟩

/-- Two rows: `a`, a newline and `b`. -/
theorem screen_is_window_two : ∃ s,
    Window s ((Tty.ttyInit fun _ => 0).terminalWrite [0x61, 0x0A, 0x62])
      (TextPage.reference [0x61, 0x0A, 0x62]) ∧
    (TextPage.reference [0x61, 0x0A, 0x62]).cell 1 0 = some 0x62 := by
  obtain ⟨s, hs⟩ := screen_is_window (fun _ => 0) [0x61, 0x0A, 0x62] (by decide)
  exact ⟨s, hs, rfl⟩

end ChoOS
