import Mathlib.Logic.Function.Basic

/-!
# Segment and gate descriptors

The eight bytes of a descriptor of the i386, as the processor reads them.
`Segment.decode` takes a descriptor of a segment apart, and `Gate.decode` one of
an interrupt; it has a result for a present 32-bit interrupt gate.

`Segment.linear` is the address behind an offset, `none` beyond the limit.  In a
`Flat` segment every offset is its own address (`Flat.linear`).  A
`DescriptorTable` is what `lgdt` loads, with the loads of the segment registers
and their checks; `none` is a fault.

`extractLsb'_eq_setWidth` and `setWidth_and_mask` are for code that fills such a
descriptor with shifts and masks.
-/

theorem extractLsb'_eq_setWidth {n : Nat} (x : BitVec n) (k w : Nat) :
    (x >>> k).setWidth w = x.extractLsb' k w := by
  ext i hi
  simp [BitVec.getElem_extractLsb']

theorem setWidth_and_mask {n w : Nat} {m : BitVec n} (h : m.setWidth w = BitVec.allOnes w)
    (x : BitVec n) : (x &&& m).setWidth w = x.setWidth w := by
  rw [BitVec.setWidth_and, h, BitVec.and_allOnes]

structure Gate where
  offset : BitVec 32
  selector : BitVec 16
  dpl : BitVec 2
  deriving DecidableEq

def Gate.decode (w : BitVec 64) : Option Gate :=
  if w.extractLsb' 40 5 = 0xE ∧ w.extractLsb' 47 1 = 1 then
    some ⟨w.extractLsb' 48 16 ++ w.extractLsb' 0 16, w.extractLsb' 16 16, w.extractLsb' 45 2⟩
  else none

structure Segment where
  base : BitVec 32
  limit : BitVec 20
  access : BitVec 8
  flags : BitVec 4
  deriving DecidableEq

namespace Segment

def decode (w : BitVec 64) : Segment where
  base := w.extractLsb' 56 8 ++ w.extractLsb' 16 24
  limit := w.extractLsb' 48 4 ++ w.extractLsb' 0 16
  access := w.extractLsb' 40 8
  flags := w.extractLsb' 52 4

def present (s : Segment) : Bool := s.access.getLsbD 7

def dpl (s : Segment) : BitVec 2 := s.access.extractLsb' 5 2

/-- Code and data, as opposed to a descriptor of the system. -/
def user (s : Segment) : Bool := s.access.getLsbD 4

def executable (s : Segment) : Bool := s.access.getLsbD 3

/-- For code: it may be read.  For data: it may be written. -/
def accessible (s : Segment) : Bool := s.access.getLsbD 1

/-- The last offset; the limit may be counted in pages. -/
def last (s : Segment) : Nat :=
  if s.flags.getLsbD 3 then s.limit.toNat * 4096 + 4095 else s.limit.toNat

def linear (s : Segment) (offset : BitVec 32) : Option (BitVec 32) :=
  if offset.toNat ≤ s.last then some (s.base + offset) else none

/-- All of the memory. -/
structure Flat (s : Segment) : Prop where
  base : s.base = 0
  last : s.last = 4294967295

theorem Flat.linear {s : Segment} (h : s.Flat) (offset : BitVec 32) :
    s.linear offset = some offset := by
  have := offset.isLt
  rw [Segment.linear, h.last, if_pos (by omega), h.base]
  simp

end Segment

/-- The index of a selector. -/
def selectorIndex (sel : BitVec 16) : Nat := sel.toNat / 8

/-- The privilege that a selector asks for. -/
def selectorRpl (sel : BitVec 16) : BitVec 2 := sel.setWidth 2

/-- A descriptor table of `limit + 1` bytes. -/
structure DescriptorTable where
  limit : Nat
  word : Nat → BitVec 64

namespace DescriptorTable

/-- The descriptor behind a selector. -/
def segment (g : DescriptorTable) (sel : BitVec 16) : Option Segment :=
  if sel.getLsbD 2 = false ∧ 0 < selectorIndex sel ∧ 8 * selectorIndex sel + 7 ≤ g.limit then
    some (Segment.decode (g.word (selectorIndex sel)))
  else none

/-- A load of `ds`, `es`, `fs` or `gs`. -/
def loadData (g : DescriptorTable) (cpl : BitVec 2) (sel : BitVec 16) : Option Segment :=
  (g.segment sel).filter fun s => s.present && s.user && (!s.executable || s.accessible) &&
    decide (cpl ≤ s.dpl) && decide (selectorRpl sel ≤ s.dpl)

/-- A load of `ss`. -/
def loadStack (g : DescriptorTable) (cpl : BitVec 2) (sel : BitVec 16) : Option Segment :=
  (g.segment sel).filter fun s => s.present && s.user && !s.executable && s.accessible &&
    decide (s.dpl = cpl) && decide (selectorRpl sel = cpl)

/-- A jump to another code segment. -/
def loadCode (g : DescriptorTable) (cpl : BitVec 2) (sel : BitVec 16) : Option Segment :=
  (g.segment sel).filter fun s => s.present && s.user && s.executable &&
    decide (s.dpl = cpl) && decide (selectorRpl sel ≤ cpl)

/-- The code segment of a gate, which may be one of more privilege. -/
def gateCode (g : DescriptorTable) (cpl : BitVec 2) (sel : BitVec 16) : Option Segment :=
  (g.segment sel).filter fun s => s.present && s.user && s.executable && decide (s.dpl ≤ cpl)

/-- `ltr`: an available 32-bit task state segment. -/
def loadTask (g : DescriptorTable) (sel : BitVec 16) : Option Segment :=
  (g.segment sel).filter fun s => s.present && decide (s.access.extractLsb' 0 5 = 9)

end DescriptorTable
