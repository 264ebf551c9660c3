import Mathlib.Data.Nat.Basic
import Mathlib.Tactic.Common

/-!
# Byte memory with 32-bit addresses

A memory is a byte for every address.  Addresses and machine words are natural
numbers, and `u32` is the wrap at `2 ^ 32`; an access at `a` touches the byte
at `u32 a`, so an address computation may wrap and the access still means what
the machine does.

`write8`, `write16` and `write32` are the stores, `read16` and `read32` the
little-endian loads.  The lemmas are the load-after-store facts: `read32_write32`
and `read16_write16` at the same place, `write8_of_ne`, `write32_of_disjoint`,
`read32_write32_of_disjoint` and `read16_write16_of_disjoint` elsewhere.
-/

/-- The value of a 32-bit machine word. -/
def u32 (n : Nat) : Nat := n % 4294967296

theorem u32_of_lt {n : Nat} (h : n < 4294967296) : u32 n = n := Nat.mod_eq_of_lt h

theorem u32_add_ne {a i j : Nat} (hi : i < 4) (hj : j < 4) (h : i ≠ j) :
    u32 (a + i) ≠ u32 (a + j) := by
  unfold u32
  omega

/-- A byte for every address. -/
abbrev ByteMem := Nat → UInt8

namespace ByteMem

def read8 (m : ByteMem) (a : Nat) : UInt8 := m (u32 a)

def write8 (m : ByteMem) (a : Nat) (v : UInt8) : ByteMem :=
  fun x => if x = u32 a then v else m x

/-- The little-endian word at `a`. -/
def read32 (m : ByteMem) (a : Nat) : Nat :=
  (m.read8 a).toNat + 256 * (m.read8 (a + 1)).toNat + 65536 * (m.read8 (a + 2)).toNat
    + 16777216 * (m.read8 (a + 3)).toNat

/-- Store the word `v` at `a`, lowest byte first. -/
def write32 (m : ByteMem) (a v : Nat) : ByteMem :=
  (((m.write8 a (UInt8.ofNat v)).write8 (a + 1) (UInt8.ofNat (v / 256))).write8
    (a + 2) (UInt8.ofNat (v / 65536))).write8 (a + 3) (UInt8.ofNat (v / 16777216))

/-- The little-endian half word at `a`. -/
def read16 (m : ByteMem) (a : Nat) : Nat := (m.read8 a).toNat + 256 * (m.read8 (a + 1)).toNat

/-- Store the half word `v` at `a`, low byte first. -/
def write16 (m : ByteMem) (a v : Nat) : ByteMem :=
  (m.write8 a (UInt8.ofNat v)).write8 (a + 1) (UInt8.ofNat (v / 256))

theorem write8_of_ne {m : ByteMem} {a x : Nat} {v : UInt8} (h : x ≠ u32 a) :
    m.write8 a v x = m x := if_neg h

theorem read8_write8_self {m : ByteMem} {a b : Nat} {v : UInt8} (h : u32 b = u32 a) :
    (m.write8 a v).read8 b = v := if_pos h

theorem read8_write8_of_ne {m : ByteMem} {a b : Nat} {v : UInt8} (h : u32 b ≠ u32 a) :
    (m.write8 a v).read8 b = m.read8 b := if_neg h

theorem write8_apply {m : ByteMem} {a x : Nat} {v : UInt8} (ha : a < 4294967296) :
    m.write8 a v x = if x = a then v else m x := by
  rw [write8, u32_of_lt ha]

theorem read8_of_lt {m : ByteMem} {a : Nat} (ha : a < 4294967296) : m.read8 a = m a := by
  rw [read8, u32_of_lt ha]

theorem read32_lt (m : ByteMem) (a : Nat) : m.read32 a < 4294967296 := by
  have h0 := (m.read8 a).toNat_lt
  have h1 := (m.read8 (a + 1)).toNat_lt
  have h2 := (m.read8 (a + 2)).toNat_lt
  have h3 := (m.read8 (a + 3)).toNat_lt
  simp only [read32]
  omega

theorem read32_congr {m m' : ByteMem} {a : Nat} (ha : a + 4 ≤ 4294967296)
    (h : ∀ i < 4, m' (a + i) = m (a + i)) : m'.read32 a = m.read32 a := by
  have h0 := h 0 (by omega)
  have h1 := h 1 (by omega)
  have h2 := h 2 (by omega)
  have h3 := h 3 (by omega)
  rw [Nat.add_zero] at h0
  simp only [read32, read8_of_lt (show a < 4294967296 by omega),
    read8_of_lt (show a + 1 < 4294967296 by omega),
    read8_of_lt (show a + 2 < 4294967296 by omega),
    read8_of_lt (show a + 3 < 4294967296 by omega), h0, h1, h2, h3]

theorem write32_apply {m : ByteMem} {a v x : Nat} (ha : a + 4 ≤ 4294967296) :
    m.write32 a v x =
      if x = a + 3 then UInt8.ofNat (v / 16777216)
      else if x = a + 2 then UInt8.ofNat (v / 65536)
      else if x = a + 1 then UInt8.ofNat (v / 256)
      else if x = a then UInt8.ofNat v else m x := by
  rw [write32, write8_apply (by omega), write8_apply (by omega), write8_apply (by omega),
    write8_apply (by omega)]

theorem write32_of_disjoint {m : ByteMem} {a v x : Nat} (ha : a + 4 ≤ 4294967296)
    (h : x < a ∨ a + 4 ≤ x) : m.write32 a v x = m x := by
  rw [write32_apply ha, if_neg (by omega), if_neg (by omega), if_neg (by omega),
    if_neg (by omega)]

theorem read32_write32_of_disjoint {m : ByteMem} {a b v : Nat} (ha : a + 4 ≤ 4294967296)
    (hb : b + 4 ≤ 4294967296) (h : b + 4 ≤ a ∨ a + 4 ≤ b) :
    (m.write32 a v).read32 b = m.read32 b :=
  read32_congr hb fun i hi => write32_of_disjoint ha (by omega)

/-- **A load returns the word just stored**, also one across the end of the memory. -/
theorem read32_write32 {m : ByteMem} {a v : Nat} (hv : v < 4294967296) :
    (m.write32 a v).read32 a = v := by
  have h0 : (m.write32 a v).read8 (a + 0) = UInt8.ofNat v := by
    rw [write32, read8_write8_of_ne (u32_add_ne (by decide) (by decide) (by decide)),
      read8_write8_of_ne (u32_add_ne (by decide) (by decide) (by decide)),
      read8_write8_of_ne (u32_add_ne (by decide) (by decide) (by decide)), Nat.add_zero,
      read8_write8_self rfl]
  have h1 : (m.write32 a v).read8 (a + 1) = UInt8.ofNat (v / 256) := by
    rw [write32, read8_write8_of_ne (u32_add_ne (by decide) (by decide) (by decide)),
      read8_write8_of_ne (u32_add_ne (by decide) (by decide) (by decide)), read8_write8_self rfl]
  have h2 : (m.write32 a v).read8 (a + 2) = UInt8.ofNat (v / 65536) := by
    rw [write32, read8_write8_of_ne (u32_add_ne (by decide) (by decide) (by decide)),
      read8_write8_self rfl]
  have h3 : (m.write32 a v).read8 (a + 3) = UInt8.ofNat (v / 16777216) := by
    rw [write32, read8_write8_self rfl]
  rw [Nat.add_zero] at h0
  rw [read32, h0, h1, h2, h3]
  simp only [UInt8.toNat_ofNat', Nat.reducePow]
  omega

/-- Only the low 32 bits of a value are stored. -/
theorem write32_u32 (m : ByteMem) (a v : Nat) : m.write32 a (u32 v) = m.write32 a v := by
  have hbyte : ∀ x y : Nat, x % 256 = y % 256 → UInt8.ofNat x = UInt8.ofNat y := by
    intro x y h
    rw [← UInt8.toNat_inj, UInt8.toNat_ofNat', UInt8.toNat_ofNat']
    exact h
  rw [write32, write32, hbyte (u32 v) v (by rw [u32]; omega),
    hbyte (u32 v / 256) (v / 256) (by rw [u32]; omega),
    hbyte (u32 v / 65536) (v / 65536) (by rw [u32]; omega),
    hbyte (u32 v / 16777216) (v / 16777216) (by rw [u32]; omega)]

theorem read32_write32_u32 (m : ByteMem) (a v : Nat) : (m.write32 a v).read32 a = u32 v := by
  rw [← write32_u32]
  exact read32_write32 (Nat.mod_lt _ (by decide))

theorem write32_write32 {m : ByteMem} {a v w : Nat} (ha : a + 4 ≤ 4294967296) :
    (m.write32 a v).write32 a w = m.write32 a w := by
  funext x
  rw [write32_apply ha, write32_apply ha, write32_apply ha]
  split
  · rfl
  split
  · rfl
  split
  · rfl
  split <;> rfl

theorem read16_congr {m m' : ByteMem} {a b : Nat} (ha : a + 2 ≤ 4294967296)
    (hb : b + 2 ≤ 4294967296) (h : m' a = m b) (h' : m' (a + 1) = m (b + 1)) :
    m'.read16 a = m.read16 b := by
  rw [read16, read16, read8_of_lt (by omega), read8_of_lt (by omega), read8_of_lt (by omega),
    read8_of_lt (by omega), h, h']

theorem read16_write16_of_disjoint {m : ByteMem} {a b v : Nat} (ha : a + 2 ≤ 4294967296)
    (hb : b + 2 ≤ 4294967296) (h : b + 2 ≤ a ∨ a + 2 ≤ b) :
    (m.write16 a v).read16 b = m.read16 b := by
  refine read16_congr hb hb ?_ ?_
  · rw [write16, write8_apply (by omega), if_neg (by omega), write8_apply (by omega),
      if_neg (by omega)]
  · rw [write16, write8_apply (by omega), if_neg (by omega), write8_apply (by omega),
      if_neg (by omega)]

theorem read16_write16 {m : ByteMem} {a v : Nat} (ha : a + 2 ≤ 4294967296) (hv : v < 65536) :
    (m.write16 a v).read16 a = v := by
  rw [read16, read8_of_lt (by omega), read8_of_lt (by omega), write16, write8_apply (by omega),
    write8_apply (by omega), write8_apply (by omega), if_neg (by omega), if_pos rfl, if_pos rfl]
  simp only [UInt8.toNat_ofNat', Nat.reducePow]
  omega

end ByteMem
