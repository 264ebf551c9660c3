import Mathlib.Data.Nat.Count
import Mathlib.Logic.Function.Basic
import Mathlib.Tactic.Common

/-!
# Bitmaps of 32-bit words

A bitmap is an array of words, bit `i` being bit `i % 32` of word `i / 32`.  It
is read and written with masks, as C code does it; `testBit_setBit` and
`testBit_clearBit` say what the masks mean, and no proof above this file looks
at a word again.

`firstSome f n i` is the loop that tries `f` at `i`, `i + 1`, … and leaves at
the first result.  `foldl_count_blocks` is a loop that counts bits word by word.
-/

/-- An array of words. -/
abbrev Bitmap := Nat → BitVec 32

namespace Bitmap

def mask (i : Nat) : BitVec 32 := 1#32 <<< (i % 32)

def setBit (b : Bitmap) (i : Nat) : Bitmap := Function.update b (i / 32) (b (i / 32) ||| mask i)

def clearBit (b : Bitmap) (i : Nat) : Bitmap :=
  Function.update b (i / 32) (b (i / 32) &&& ~~~(mask i))

def testBit (b : Bitmap) (i : Nat) : Bool := (b (i / 32) &&& mask i) != 0#32

variable {b : Bitmap} {i j : Nat}

theorem mask_eq (i : Nat) : mask i = BitVec.twoPow 32 (i % 32) := (BitVec.twoPow_eq 32 _).symm

theorem testBit_eq (b : Bitmap) (i : Nat) : b.testBit i = (b (i / 32)).getLsbD (i % 32) := by
  have hi : i % 32 < 32 := Nat.mod_lt _ (by decide)
  have hne : BitVec.twoPow 32 (i % 32) ≠ 0#32 := by
    intro h
    have := congrArg (fun x => x.getLsbD (i % 32)) h
    simp [hi] at this
  rw [testBit, mask_eq, BitVec.and_twoPow]
  by_cases hb : (b (i / 32)).getLsbD (i % 32)
  · rw [if_pos hb, hb]
    simpa using hne
  · rw [if_neg hb]
    simpa using hb

theorem mask_getLsbD (i j : Nat) : (mask i).getLsbD (j % 32) = decide (i % 32 = j % 32) := by
  have hi : i % 32 < 32 := Nat.mod_lt _ (by decide)
  rw [mask_eq, BitVec.getLsbD_twoPow, decide_eq_true hi, Bool.true_and]

theorem testBit_setBit (b : Bitmap) (i j : Nat) :
    (b.setBit i).testBit j = (decide (i = j) || b.testBit j) := by
  rw [testBit_eq, testBit_eq, setBit]
  by_cases hw : j / 32 = i / 32
  · rw [hw, Function.update_self, BitVec.getLsbD_or, mask_getLsbD, Bool.or_comm]
    congr 1
    exact decide_eq_decide.mpr (by omega)
  · rw [Function.update_of_ne hw, decide_eq_false (show ¬ i = j by omega), Bool.false_or]

theorem testBit_clearBit (b : Bitmap) (i j : Nat) :
    (b.clearBit i).testBit j = (!decide (i = j) && b.testBit j) := by
  have hj : j % 32 < 32 := Nat.mod_lt _ (by decide)
  rw [testBit_eq, testBit_eq, clearBit]
  by_cases hw : j / 32 = i / 32
  · rw [hw, Function.update_self, BitVec.getLsbD_and, BitVec.getLsbD_not, mask_getLsbD,
      decide_eq_true hj, Bool.true_and, Bool.and_comm]
    congr 2
    exact decide_eq_decide.mpr (by omega)
  · rw [Function.update_of_ne hw, decide_eq_false (show ¬ i = j by omega)]
    rfl

theorem testBit_setBit_of (h : b.testBit j) : (b.setBit i).testBit j := by
  rw [testBit_setBit, h, Bool.or_true]

theorem testBit_setBit_self : (b.setBit i).testBit i := by simp [testBit_setBit]

theorem testBit_clearBit_of_ne (h : i ≠ j) : (b.clearBit i).testBit j = b.testBit j := by
  simp [testBit_clearBit, h]

theorem and_shift_eq_zero {b : Bitmap} {i j : Nat} (hj : j < 32) :
    b i &&& (1#32 <<< j) = 0#32 ↔ b.testBit (i * 32 + j) = false := by
  have hw : (i * 32 + j) / 32 = i := by omega
  have hb : (i * 32 + j) % 32 = j := by omega
  rw [testBit, mask, hw, hb]
  simp

theorem testBit_of_ones {b : Bitmap} {i : Nat} (h : b (i / 32) = 0xFFFFFFFF#32) : b.testBit i := by
  rw [testBit_eq, h, show (0xFFFFFFFF#32) = BitVec.allOnes 32 from rfl, BitVec.getLsbD_allOnes]
  exact decide_eq_true (Nat.mod_lt _ (by decide))

end Bitmap

/-! ### Loops that count -/

section Count

variable {p : Nat → Prop} [DecidablePred p]

theorem foldl_count {c : Nat → Prop} [DecidablePred c] {k : Nat} (h : ∀ j < k, c j ↔ p j) :
    ∀ n, (List.range k).foldl (fun n j => if c j then n + 1 else n) n = n + Nat.count p k := by
  intro n
  induction k with
  | zero => rfl
  | succ k ih =>
    rw [List.range_succ, List.foldl_append, ih fun j hj => h j (Nat.lt_succ_of_lt hj),
      Nat.count_succ, List.foldl_cons, List.foldl_nil]
    by_cases hp : p k
    · rw [if_pos hp, if_pos ((h k (Nat.lt_succ_self k)).mpr hp), Nat.add_assoc]
    · rw [if_neg hp, if_neg fun hc => hp ((h k (Nat.lt_succ_self k)).mp hc), Nat.add_zero]

theorem foldl_count_blocks {f : Nat → Nat → Nat}
    (hf : ∀ i n, f n i = n + Nat.count (fun j => p (i * 32 + j)) 32) :
    ∀ k, (List.range k).foldl f 0 = Nat.count p (k * 32) := by
  intro k
  induction k with
  | zero => rfl
  | succ k ih =>
    rw [List.range_succ, List.foldl_append, ih, List.foldl_cons, List.foldl_nil, hf,
      Nat.add_mul, Nat.one_mul, Nat.count_add]

end Count

/-! ### Loops that leave at the first result -/

variable {α : Type*}

def firstSome (f : Nat → Option α) : Nat → Nat → Option α
  | 0, _ => none
  | n + 1, i => match f i with
    | some r => some r
    | none => firstSome f n (i + 1)

theorem firstSome_some {f : Nat → Option α} {n i : Nat} {r : α} (h : firstSome f n i = some r) :
    ∃ k, i ≤ k ∧ k < i + n ∧ f k = some r := by
  induction n generalizing i with
  | zero => simp [firstSome] at h
  | succ n ih =>
    cases hf : f i with
    | some x =>
      simp only [firstSome, hf] at h
      exact ⟨i, Nat.le_refl i, by omega, by rw [hf, h]⟩
    | none =>
      simp only [firstSome, hf] at h
      obtain ⟨k, h1, h2, h3⟩ := ih h
      exact ⟨k, by omega, by omega, h3⟩

theorem firstSome_first {f : Nat → Option α} {n i : Nat} {r : α} (h : firstSome f n i = some r) :
    ∃ k, i ≤ k ∧ k < i + n ∧ f k = some r ∧ ∀ j, i ≤ j → j < k → f j = none := by
  induction n generalizing i with
  | zero => simp [firstSome] at h
  | succ n ih =>
    cases hf : f i with
    | some x =>
      simp only [firstSome, hf] at h
      exact ⟨i, Nat.le_refl i, by omega, by rw [hf, h], fun j hj hj' => by omega⟩
    | none =>
      simp only [firstSome, hf] at h
      obtain ⟨k, h1, h2, h3, h4⟩ := ih h
      refine ⟨k, by omega, by omega, h3, ?_⟩
      intro j hj hj'
      rcases Nat.eq_or_lt_of_le hj with rfl | hlt
      · exact hf
      · exact h4 j hlt hj'

theorem firstSome_none {f : Nat → Option α} {n i k : Nat} (h : firstSome f n i = none)
    (hk : i ≤ k) (hk' : k < i + n) : f k = none := by
  induction n generalizing i with
  | zero => omega
  | succ n ih =>
    cases hf : f i with
    | some x => simp [firstSome, hf] at h
    | none =>
      simp only [firstSome, hf] at h
      rcases Nat.eq_or_lt_of_le hk with rfl | hlt
      · exact hf
      · exact ih h hlt (by omega)
