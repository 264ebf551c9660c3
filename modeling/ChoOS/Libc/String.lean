import ChoOS.Lib.Memory

/-!
# `libc/string`: the byte loops

`memset`, `memcpy` and `memmove` run one byte store after the other, in the order
of the source's loops.  `memset_apply`, `memcpy_apply` and `memmove_apply` say
what the memory is after the whole loop, when the buffers do not run past the
address space.  `memcpy` copies upwards and says nothing about overlaps;
`memcpy_apply` is the one where the destination is below the source.
`memmove` copies upwards when the destination is below the source and downwards
otherwise, so each loop reads a source byte before it can overwrite it; the two
loop lemmas carry exactly that.
-/

namespace ChoOS

/-- `for (i = 0; i < size; i++) buf[i] = value` -/
def memset (m : ByteMem) (buf : Nat) (value : UInt8) (size : Nat) : ByteMem :=
  (List.range size).foldl (fun m i => m.write8 (buf + i) value) m

/-- `for (i = 0; i < size; i++) dst[i] = src[i]` -/
def memcpy (m : ByteMem) (dst src size : Nat) : ByteMem :=
  (List.range size).foldl (fun m i => m.write8 (dst + i) (m.read8 (src + i))) m

/-- Upwards when `dst < src`, downwards otherwise. -/
def memmove (m : ByteMem) (dst src size : Nat) : ByteMem :=
  if dst < src then
    (List.range size).foldl (fun m i => m.write8 (dst + i) (m.read8 (src + i))) m
  else
    (List.range size).reverse.foldl (fun m i => m.write8 (dst + i) (m.read8 (src + i))) m

theorem memset_apply {m : ByteMem} {buf size : Nat} {value : UInt8}
    (h : buf + size ≤ 4294967296) (x : Nat) :
    memset m buf value size x = if buf ≤ x ∧ x < buf + size then value else m x := by
  induction size with
  | zero => rw [if_neg (by omega)]; rfl
  | succ n ih =>
    have ih := ih (by omega)
    rw [memset, List.range_succ, List.foldl_append, ← memset]
    simp only [List.foldl_cons, List.foldl_nil]
    rw [ByteMem.write8_apply (by omega)]
    by_cases hx : x = buf + n
    · rw [if_pos hx, if_pos (by omega)]
    · rw [if_neg hx, ih]
      by_cases hin : buf ≤ x ∧ x < buf + n
      · rw [if_pos hin, if_pos (by omega)]
      · rw [if_neg hin, if_neg (by omega)]

/-- The upward loop: the bytes already copied lie below every source byte still to be read. -/
theorem memmove_up_apply {m : ByteMem} {dst src size : Nat} (hlt : dst < src)
    (hs : src + size ≤ 4294967296) (x : Nat) :
    (List.range size).foldl (fun m i => m.write8 (dst + i) (m.read8 (src + i))) m x
      = if dst ≤ x ∧ x < dst + size then m (src + (x - dst)) else m x := by
  induction size generalizing x with
  | zero => rw [if_neg (by omega)]; rfl
  | succ n ih =>
    have ih := ih (by omega)
    rw [List.range_succ, List.foldl_append]
    simp only [List.foldl_cons, List.foldl_nil]
    rw [ByteMem.write8_apply (by omega), ByteMem.read8_of_lt (by omega), ih, ih]
    by_cases hx : x = dst + n
    · rw [if_pos hx, if_neg (by omega), if_pos (by omega), hx, Nat.add_sub_cancel_left]
    · rw [if_neg hx]
      by_cases hin : dst ≤ x ∧ x < dst + n
      · rw [if_pos hin, if_pos (by omega)]
      · rw [if_neg hin, if_neg (by omega)]

/-- **`memcpy` to a lower place** is a simultaneous copy, also with an overlap. -/
theorem memcpy_apply {m : ByteMem} {dst src size : Nat} (hlt : dst < src)
    (hs : src + size ≤ 4294967296) (x : Nat) :
    memcpy m dst src size x = if dst ≤ x ∧ x < dst + size then m (src + (x - dst)) else m x :=
  memmove_up_apply hlt hs x

/-- The downward loop, the same with the order turned round: the induction takes
the last byte first, which is the first one the loop copies. -/
theorem memmove_down_apply {m : ByteMem} {dst src size : Nat} (hle : src ≤ dst)
    (hd : dst + size ≤ 4294967296) (x : Nat) :
    (List.range size).reverse.foldl (fun m i => m.write8 (dst + i) (m.read8 (src + i))) m x
      = if dst ≤ x ∧ x < dst + size then m (src + (x - dst)) else m x := by
  induction size generalizing m x with
  | zero => rw [if_neg (by omega)]; rfl
  | succ n ih =>
    rw [List.range_succ, List.reverse_append, List.reverse_singleton, List.singleton_append,
      List.foldl_cons, ih (by omega)]
    have hw : ∀ y, m.write8 (dst + n) (m.read8 (src + n)) y
        = if y = dst + n then m (src + n) else m y := by
      intro y
      rw [ByteMem.write8_apply (by omega), ByteMem.read8_of_lt (by omega)]
    rw [hw, hw]
    by_cases hx : x = dst + n
    · rw [if_neg (by omega), if_pos hx, if_pos (by omega), hx, Nat.add_sub_cancel_left]
    · rw [if_neg (show ¬ x = dst + n from hx)]
      by_cases hin : dst ≤ x ∧ x < dst + n
      · rw [if_pos hin, if_neg (by omega), if_pos (by omega)]
      · rw [if_neg hin, if_neg (by omega)]

/-- **`memmove` is a simultaneous copy**, whatever the overlap. -/
theorem memmove_apply {m : ByteMem} {dst src size : Nat} (hd : dst + size ≤ 4294967296)
    (hs : src + size ≤ 4294967296) (x : Nat) :
    memmove m dst src size x
      = if dst ≤ x ∧ x < dst + size then m (src + (x - dst)) else m x := by
  rw [memmove]
  split
  · exact memmove_up_apply ‹_› hs x
  · exact memmove_down_apply (by omega) hd x

/-- **Every byte of the destination is the old byte of the source**, and the bytes
outside of it stay. -/
theorem memmove_simultaneous {m : ByteMem} {dst src size : Nat} (hd : dst + size ≤ 4294967296)
    (hs : src + size ≤ 4294967296) :
    (∀ i < size, memmove m dst src size (dst + i) = m (src + i)) ∧
      ∀ x, x < dst ∨ dst + size ≤ x → memmove m dst src size x = m x := by
  constructor
  · intro i hi
    rw [memmove_apply hd hs, if_pos (by omega), Nat.add_sub_cancel_left]
  · intro x hx
    rw [memmove_apply hd hs, if_neg (by omega)]

/-- Two bytes up, with an overlap of two. -/
theorem memmove_simultaneous_up :
    (∀ i < 4, memmove (fun x => UInt8.ofNat x) 102 100 4 (102 + i) = UInt8.ofNat (100 + i)) ∧
      ∀ x, x < 102 ∨ 102 + 4 ≤ x →
        memmove (fun x => UInt8.ofNat x) 102 100 4 x = UInt8.ofNat x :=
  memmove_simultaneous (by decide) (by decide)

end ChoOS
