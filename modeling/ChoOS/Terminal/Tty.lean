import ChoOS.Basic
import ChoOS.Libc.String

/-!
# The terminal

The code of `tty.c` on the bytes of the VGA buffer.  A cell is a half word, the
character in the low byte and the colour in the high one.  `terminal_row` and
`terminal_column` are `size_t`, so they wrap, and so does the index of a cell.
`written` is not in the source: it records the cells that `terminal_putentryat`
was called for.

`terminal_scroll` copies bytes upwards on overlapping memory; `cell_terminalScroll`
says that this moves every line up by one.  The other `cell_` lemmas are what
each function does to the cells of the screen, and the proofs about the terminal
look at nothing below them.
-/

namespace ChoOS

/-- `VGA_BUFFER_ADDR` -/
def vgaBufferAddr : Nat := 0xC00B8000

/-- `VGA_WIDTH` -/
def vgaWidth : Nat := 80

/-- `VGA_HEIGHT` -/
def vgaHeight : Nat := 25

/-- `VGA_COLOR_BLACK` -/
def vgaColorBlack : Nat := 0

/-- `VGA_COLOR_LIGHT_GREY` -/
def vgaColorLightGrey : Nat := 7

/-- `vga_entry_color`, a `uint8_t`. -/
def vgaEntryColor (fg bg : Nat) : Nat := (fg ||| bg <<< 4) % 256

/-- `vga_entry`, a `uint16_t`. -/
def vgaEntry (uc : UInt8) (color : Nat) : Nat := (uc.toNat ||| color <<< 8) % 65536

/-- The globals of `tty.c` and the memory. -/
structure Tty where
  mem : ByteMem
  terminalRow : Nat
  terminalColumn : Nat
  terminalColor : Nat
  written : List Nat

namespace Tty

/-- `terminal_buffer[index] = v` -/
def setCell (t : Tty) (index v : Nat) : Tty :=
  { t with mem := t.mem.write16 (vgaBufferAddr + 2 * index) v }

def ttyInit (m : ByteMem) : Tty :=
  let color := vgaEntryColor vgaColorLightGrey vgaColorBlack
  (List.range vgaHeight).foldl (fun t y => (List.range vgaWidth).foldl (fun t x =>
    t.setCell (y * vgaWidth + x) (vgaEntry 0x20 color)) t) ⟨m, 0, 0, color, []⟩

def terminalPutentryat (c : UInt8) (color x y : Nat) (t : Tty) : Tty :=
  let index := u32 (y * vgaWidth + x)
  { t.setCell index (vgaEntry c color) with written := index :: t.written }

def terminalScroll (t : Tty) : Tty :=
  { t with
    mem := memcpy t.mem vgaBufferAddr (vgaBufferAddr + 2 * vgaWidth)
      ((vgaHeight - 1) * vgaWidth * 2) }

def terminalDeleteLastLine (t : Tty) : Tty :=
  (List.range vgaWidth).foldl (fun t x => t.setCell (vgaWidth * (vgaHeight - 1) + x) 0) t

def setCursor (t : Tty) (column row : Nat) : Tty :=
  { t with terminalColumn := column, terminalRow := row }

/-- The scroll that is made up for before the next character. -/
def scrollIfFull (t : Tty) : Tty :=
  if t.terminalRow = vgaHeight then
    let t := t.terminalScroll.terminalDeleteLastLine
    t.setCursor t.terminalColumn (vgaHeight - 1)
  else t

/-- `case '\n'` -/
def newline (t : Tty) : Tty := t.setCursor 0 (u32 (t.terminalRow + 1))

/-- `case '\b'` -/
def backspace (t : Tty) : Tty :=
  let t := if t.terminalColumn ≠ 0 then t.setCursor (t.terminalColumn - 1) t.terminalRow
    else t.setCursor vgaWidth (sub32 t.terminalRow 1)
  t.terminalPutentryat 0x20 t.terminalColor t.terminalColumn t.terminalRow

/-- The other characters. -/
def regular (uc : UInt8) (t : Tty) : Tty :=
  let t := t.terminalPutentryat uc t.terminalColor t.terminalColumn t.terminalRow
  let t := t.setCursor (u32 (t.terminalColumn + 1)) t.terminalRow
  if t.terminalColumn = vgaWidth then t.setCursor 0 (u32 (t.terminalRow + 1)) else t

def terminalPutchar (t : Tty) (uc : UInt8) : Tty :=
  let t := t.scrollIfFull
  if uc = 0x0A then t.newline
  else if uc = 0x08 then t.backspace
  else t.regular uc

def terminalWrite (t : Tty) (data : List UInt8) : Tty := data.foldl terminalPutchar t

end Tty

/-! ### The cells of the screen -/

namespace Tty

variable {t : Tty} {i j v : Nat}

/-- The cell at index `i`. -/
def cell (t : Tty) (i : Nat) : Nat := t.mem.read16 (vgaBufferAddr + 2 * i)

theorem cell_setCell (hi : i < 2000) (hj : j < 2000) (hv : v < 65536) :
    (t.setCell i v).cell j = if j = i then v else t.cell j := by
  unfold cell setCell vgaBufferAddr
  by_cases h : j = i
  · rw [if_pos h, h]
    exact ByteMem.read16_write16 (by omega) hv
  · rw [if_neg h]
    exact ByteMem.read16_write16_of_disjoint (by omega) (by omega) (by omega)

/-- **A scroll moves the lines up**; the last one stays. -/
theorem cell_terminalScroll (hi : i < 2000) :
    t.terminalScroll.cell i = if i < 1920 then t.cell (i + 80) else t.cell i := by
  have hmem : ∀ x, t.terminalScroll.mem x
      = if 0xC00B8000 ≤ x ∧ x < 0xC00B8F00 then t.mem (x + 160) else t.mem x := by
    intro x
    have hsrc : vgaBufferAddr + 2 * vgaWidth = 0xC00B80A0 := by decide
    have hsize : (vgaHeight - 1) * vgaWidth * 2 = 3840 := by decide
    rw [terminalScroll, hsrc, hsize, vgaBufferAddr]
    dsimp only
    rw [memcpy_apply (by decide) (by decide)]
    by_cases hx : 0xC00B8000 ≤ x ∧ x < 0xC00B8F00
    · rw [if_pos (by omega), if_pos hx]
      exact congrArg t.mem (by omega)
    · rw [if_neg (by omega), if_neg hx]
  by_cases h : i < 1920
  · rw [if_pos h]
    refine ByteMem.read16_congr ?_ ?_ ?_ ?_
    · simp only [vgaBufferAddr]
      omega
    · simp only [vgaBufferAddr]
      omega
    · rw [hmem, if_pos (by simp only [vgaBufferAddr]; omega)]
      exact congrArg t.mem (by omega)
    · rw [hmem, if_pos (by simp only [vgaBufferAddr]; omega)]
      exact congrArg t.mem (by omega)
  · rw [if_neg h]
    refine ByteMem.read16_congr ?_ ?_ ?_ ?_
    · simp only [vgaBufferAddr]
      omega
    · simp only [vgaBufferAddr]
      omega
    · rw [hmem, if_neg (by simp only [vgaBufferAddr]; omega)]
    · rw [hmem, if_neg (by simp only [vgaBufferAddr]; omega)]

theorem cell_fill (a : Nat) (hv : v < 65536) (hj : j < 2000) : ∀ n, a + n ≤ 2000 →
    ((List.range n).foldl (fun t x => setCell t (a + x) v) t).cell j
      = if a ≤ j ∧ j < a + n then v else t.cell j := by
  intro n
  induction n with
  | zero =>
    intro _
    rw [if_neg (by omega)]
    rfl
  | succ n ih =>
    intro ha
    rw [List.range_succ, List.foldl_append, List.foldl_cons, List.foldl_nil,
      cell_setCell (by omega) hj hv, ih (by omega)]
    by_cases h : j = a + n
    · rw [if_pos h, if_pos (by omega)]
    · rw [if_neg h]
      by_cases hin : a ≤ j ∧ j < a + n
      · rw [if_pos hin, if_pos (by omega)]
      · rw [if_neg hin, if_neg (by omega)]

theorem cell_terminalDeleteLastLine (hj : j < 2000) :
    t.terminalDeleteLastLine.cell j = if 1920 ≤ j then 0 else t.cell j := by
  have h := cell_fill (t := t) 1920 (v := 0) (by decide) hj 80 (by decide)
  rw [terminalDeleteLastLine]
  refine h.trans ?_
  by_cases hin : 1920 ≤ j
  · rw [if_pos hin, if_pos (by omega)]
  · rw [if_neg hin, if_neg (by omega)]

theorem cell_fillLines (hv : v < 65536) (hj : j < 2000) : ∀ n, n ≤ 25 →
    ((List.range n).foldl (fun t y => (List.range vgaWidth).foldl (fun t x =>
      setCell t (y * vgaWidth + x) v) t) t).cell j = if j < n * 80 then v else t.cell j := by
  intro n
  induction n with
  | zero =>
    intro _
    rw [if_neg (by omega)]
    rfl
  | succ n ih =>
    intro hn
    rw [List.range_succ, List.foldl_append, List.foldl_cons, List.foldl_nil]
    refine (cell_fill (n * 80) hv hj 80 (by omega)).trans ?_
    rw [ih (by omega)]
    by_cases h : n * 80 ≤ j ∧ j < n * 80 + 80
    · rw [if_pos h, if_pos (by omega)]
    · rw [if_neg h]
      by_cases hlt : j < n * 80
      · rw [if_pos hlt, if_pos (by omega)]
      · rw [if_neg hlt, if_neg (by omega)]

end Tty

theorem vgaEntry_lt (uc : UInt8) (color : Nat) : vgaEntry uc color < 65536 :=
  Nat.mod_lt _ (by decide)

end ChoOS
