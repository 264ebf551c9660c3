import Mathlib.Data.Nat.Digits.Lemmas
import Mathlib.Logic.Function.Basic

/-!
# Numbers to text

The conversions of `libc/stdio/internal.c`.  A `char` array is seen from the
pointer that the function is given.  `__utoa` and `__ulltoa` are the same loop on
words of two sizes; `__itoa` is another one, on signed numbers.

Both write the digits from the lowest one on, a NUL behind them, and turn them
round with two pointers.  `storeChars b i l` is the array with the bytes `l` at `i`:
`digitLoop_eq` and `itoaLoop_eq` say which list the loops store, and
`swapLoop_store` turns it round.  `toa_eq` puts this together, and `Prints` is the
string in the array after, which does not depend on the one before.
-/

namespace ChoOS

/-- A `char` array. -/
abbrev CharArray := Nat → UInt8

/-- `(mod < 10) ? (mod + '0') : (mod - 10 + 'a')` -/
def digitChar (mod : Nat) : UInt8 := UInt8.ofNat (if mod < 10 then mod + 48 else mod - 10 + 97)

/-- The loop of `__utoa` and `__ulltoa` that writes the digits; `none` is a loop
that does not end. -/
def digitLoop (base : Nat) : Nat → Nat → Nat → CharArray → Option (Nat × CharArray)
  | 0, _, _, _ => none
  | fuel + 1, value, ptr, b =>
    let b := Function.update b ptr (digitChar (value % base))
    let value := value / base
    if 0 < value then digitLoop base fuel value (ptr + 1) b else some (ptr + 1, b)

/-- `while (low < ptr) swap(low++, ptr--)` -/
def swapLoop (low ptr : Nat) (b : CharArray) : CharArray :=
  if low < ptr then
    swapLoop (low + 1) (ptr - 1) (Function.update (Function.update b low (b ptr)) ptr (b low))
  else b
termination_by ptr - low

/-- The common body of `__utoa` and `__ulltoa`, with the array from `start` on. -/
def toa (value base start : Nat) (b : CharArray) : Option CharArray := do
  let (ptr, b) ← digitLoop base 65 value start b
  return swapLoop start (ptr - 1) (Function.update b ptr 0)

/-- `__utoa` -/
def utoa (value : UInt32) (base : Nat) (b : CharArray) : Option CharArray :=
  toa value.toNat base 0 b

/-- `__ulltoa` -/
def ulltoa (value : UInt64) (base : Nat) (b : CharArray) : Option CharArray :=
  toa value.toNat base 0 b

/-- `__lltoa` -/
def lltoa (value : Int64) (base : Nat) (b : CharArray) : Option CharArray :=
  if value.toInt < 0 ∧ base = 10 then
    toa ((-(value.toInt + 1)).toNat + 1) base 1 (Function.update b 0 0x2D)
  else toa (value.toInt % 18446744073709551616).toNat base 0 b

/-- `(rem > 9) ? (rem - 10) + 'a' : rem + '0'` -/
def remChar (rem : Int) : UInt8 := UInt8.ofInt (if 9 < rem then rem - 10 + 97 else rem + 48)

/-- The loop of `__itoa`. -/
def itoaLoop (base : Int) : Nat → Int → Nat → CharArray → Option (Nat × CharArray)
  | 0, _, _, _ => none
  | fuel + 1, num, i, b =>
    if num ≠ 0 then
      itoaLoop base fuel (num.tdiv base) (i + 1) (Function.update b i (remChar (num.tmod base)))
    else some (i, b)

/-- `__itoa`; the negation of an `int` wraps. -/
def itoa (num : Int32) (base : Int) (b : CharArray) : Option CharArray :=
  if num.toInt = 0 then some (Function.update (Function.update b 0 0x30) 1 0)
  else do
    let isNegative := decide (num.toInt < 0 ∧ base = 10)
    let num := if isNegative then (-num).toInt else num.toInt
    let (i, b) ← itoaLoop base 33 num 0 b
    let (i, b) := if isNegative then (i + 1, Function.update b i 0x2D) else (i, b)
    return swapLoop 0 (i - 1) (Function.update b i 0)

/-- The string in an array of `n` bytes, up to its NUL. -/
def charsUpToNul : Nat → Nat → CharArray → List UInt8
  | 0, _, _ => []
  | n + 1, i, b => if b i = 0 then [] else b i :: charsUpToNul n (i + 1) b

/-! ### Arrays with a list in them -/

/-- The array with the bytes `l` at `i`. -/
def storeChars (b : CharArray) : Nat → List UInt8 → CharArray
  | _, [] => b
  | i, c :: l => storeChars (Function.update b i c) (i + 1) l

theorem storeChars_apply : ∀ (l : List UInt8) (b : CharArray) (i x : Nat),
    storeChars b i l x = if i ≤ x then (l[x - i]?).getD (b x) else b x := by
  intro l
  induction l with
  | nil =>
    intro b i x
    simp [storeChars]
  | cons c l ih =>
    intro b i x
    rw [storeChars, ih]
    by_cases hx : x = i
    · subst hx
      simp
    · rw [Function.update_of_ne hx]
      by_cases hlt : i ≤ x
      · rw [if_pos hlt, if_pos (by omega), show x - i = (x - (i + 1)) + 1 by omega,
          List.getElem?_cons_succ]
      · rw [if_neg hlt, if_neg (by omega)]

theorem storeChars_append : ∀ (l l' : List UInt8) (b : CharArray) (i : Nat),
    storeChars b i (l ++ l') = storeChars (storeChars b i l) (i + l.length) l' := by
  intro l l'
  induction l with
  | nil =>
    intro b i
    rfl
  | cons c l ih =>
    intro b i
    rw [List.cons_append, storeChars, ih, storeChars, List.length_cons]
    congr 1
    omega

theorem storeChars_concat (l : List UInt8) (b : CharArray) (i : Nat) (c : UInt8) :
    storeChars b i (l ++ [c]) = Function.update (storeChars b i l) (i + l.length) c := by
  rw [storeChars_append]
  rfl

theorem swapLoop_apply (low ptr : Nat) (b : CharArray) (x : Nat) :
    swapLoop low ptr b x = if low ≤ x ∧ x ≤ ptr then b (low + ptr - x) else b x := by
  fun_induction swapLoop low ptr b with
  | case1 low ptr b hlt ih =>
    rw [ih]
    by_cases hin : low + 1 ≤ x ∧ x ≤ ptr - 1
    · rw [if_pos hin, if_pos (by omega), Function.update_of_ne (by omega),
        Function.update_of_ne (by omega)]
      congr 1
      omega
    · rw [if_neg hin]
      by_cases hp : x = ptr
      · rw [if_pos (by omega), hp, Function.update_self]
        congr 1
        omega
      · rw [Function.update_of_ne hp]
        by_cases hl : x = low
        · rw [if_pos (by omega), hl, Function.update_self]
          congr 1
          omega
        · rw [if_neg (by omega), Function.update_of_ne hl]
  | case2 low ptr b hlt =>
    split
    · congr 1
      omega
    · rfl

/-- **A stored list is turned round**, with its NUL behind it. -/
theorem swapLoop_store (b : CharArray) (i : Nat) (l : List UInt8) (hl : l ≠ []) :
    swapLoop i (i + l.length - 1) (storeChars b i (l ++ [0]))
      = storeChars b i (l.reverse ++ [0]) := by
  have hpos := List.length_pos_iff.mpr hl
  funext x
  rw [swapLoop_apply, storeChars_apply, storeChars_apply, storeChars_apply]
  by_cases hin : i ≤ x ∧ x ≤ i + l.length - 1
  · have hx : x - i < l.length := by omega
    rw [if_pos hin, if_pos (by omega), if_pos hin.1, List.getElem?_append_left (by omega),
      List.getElem?_append_left (by simpa using hx), List.getElem?_reverse hx,
      show i + (i + l.length - 1) - x - i = l.length - 1 - (x - i) by omega]
    have hlast : l.length - 1 - (x - i) < l.length := by omega
    rw [List.getElem?_eq_getElem hlast]
    rfl
  · rw [if_neg hin]
    by_cases hx : i ≤ x
    · rw [if_pos hx, if_pos hx, List.getElem?_append_right (by omega),
        List.getElem?_append_right (by rw [List.length_reverse]; omega), List.length_reverse]
    · rw [if_neg hx, if_neg hx]

theorem charsUpToNul_store (b : CharArray) : ∀ (l : List UInt8) (n i : Nat), 0 ∉ l →
    l.length < n → (∀ k < l.length, some (b (i + k)) = l[k]?) → b (i + l.length) = 0 →
    charsUpToNul n i b = l := by
  intro l
  induction l with
  | nil =>
    intro n i _ hn _ hnul
    obtain ⟨n, rfl⟩ := Nat.exists_eq_add_of_lt hn
    rw [charsUpToNul]
    exact if_pos hnul
  | cons c l ih =>
    intro n i hne hn hl hnul
    obtain ⟨hc, htail⟩ := not_or.mp (List.mem_cons.not.mp hne)
    obtain ⟨n, rfl⟩ := Nat.exists_eq_add_of_lt hn
    have hhead : b i = c := Option.some.inj (hl 0 (Nat.succ_pos _))
    rw [List.length_cons] at hnul
    rw [charsUpToNul, hhead, if_neg (Ne.symm hc), ih _ (i + 1) htail]
    · rw [List.length_cons]
      omega
    · intro k hk
      rw [show i + 1 + k = i + (k + 1) by omega]
      exact hl (k + 1) (Nat.succ_lt_succ hk)
    · rwa [show i + 1 + l.length = i + (l.length + 1) by omega]

/-! ### The digits -/

/-- The digits of a number, the lowest one first. -/
def digitChars (base value : Nat) : List UInt8 :=
  if value = 0 then [digitChar 0] else (Nat.digits base value).map digitChar

theorem digitChars_ne_nil (base value : Nat) : digitChars base value ≠ [] := by
  unfold digitChars
  split
  · simp
  · simpa using Nat.digits_ne_nil_iff_ne_zero.mpr ‹_›

theorem digitChars_of_le {base value : Nat} (hb : 1 < base) (h : 0 < value / base) :
    digitChars base value = digitChar (value % base) :: digitChars base (value / base) := by
  have hv : value ≠ 0 := by
    rintro rfl
    simp at h
  rw [digitChars, digitChars, if_neg hv, if_neg (by omega),
    Nat.digits_def' hb (Nat.pos_of_ne_zero hv), List.map_cons]

theorem digitChars_of_lt {base value : Nat} (h : value < base) :
    digitChars base value = [digitChar (value % base)] := by
  rw [digitChars, Nat.mod_eq_of_lt h]
  split
  · rw [‹value = 0›]
  · rw [Nat.digits_of_lt base value ‹_› h]
    rfl

/-- **The digit loop stores the digits.** -/
theorem digitLoop_eq {base : Nat} (hb : 1 < base) : ∀ (fuel value ptr : Nat) (b : CharArray),
    value < base ^ fuel → 0 < fuel →
    digitLoop base fuel value ptr b
      = some (ptr + (digitChars base value).length, storeChars b ptr (digitChars base value)) := by
  intro fuel
  induction fuel with
  | zero =>
    intro value ptr b _ h
    exact absurd h (lt_irrefl 0)
  | succ fuel ih =>
    intro value ptr b hv _
    rw [digitLoop]
    by_cases hnext : 0 < value / base
    · have hlt : value / base < base ^ fuel := by
        rw [Nat.div_lt_iff_lt_mul (by omega)]
        exact hv
      have hfuel : 0 < fuel := by
        by_contra h0
        obtain rfl : fuel = 0 := by omega
        rw [Nat.pow_zero] at hlt
        omega
      rw [if_pos hnext, ih _ _ _ hlt hfuel, digitChars_of_le hb hnext, List.length_cons, storeChars]
      congr 2
      omega
    · have hlt : value < base := by
        by_contra hge
        exact hnext (Nat.div_pos (not_lt.mp hge) (by omega))
      rw [if_neg hnext, digitChars_of_lt hlt]
      rfl

/-- **`__utoa` and `__ulltoa` store the numeral.** -/
theorem toa_eq {value base : Nat} (hb : 1 < base) (hv : value < base ^ 65) (start : Nat)
    (b : CharArray) :
    toa value base start b = some (storeChars b start ((digitChars base value).reverse ++ [0])) := by
  rw [toa, digitLoop_eq hb 65 value start b hv (by decide), ← swapLoop_store _ _ _
    (digitChars_ne_nil base value), storeChars_concat]
  rfl

/-- The remainders of `__itoa`, the first one first. -/
def remChars (base : Int) : Nat → Int → List UInt8
  | 0, _ => []
  | fuel + 1, num =>
    if num ≠ 0 then remChar (num.tmod base) :: remChars base fuel (num.tdiv base) else []

/-- **The loop of `__itoa` stores the remainders.** -/
theorem itoaLoop_eq {base : Nat} (hb : 0 < base) : ∀ (fuel i : Nat) (num : Int) (b : CharArray),
    num.natAbs < base ^ fuel →
    itoaLoop base (fuel + 1) num i b
      = some (i + (remChars base (fuel + 1) num).length,
        storeChars b i (remChars base (fuel + 1) num)) := by
  intro fuel
  induction fuel with
  | zero =>
    intro i num b h
    obtain rfl : num = 0 := by
      rw [Nat.pow_zero] at h
      omega
    rfl
  | succ fuel ih =>
    intro i num b h
    rw [itoaLoop, remChars]
    by_cases h0 : num = 0
    · rw [if_neg (not_not.mpr h0), if_neg (not_not.mpr h0)]
      rfl
    · have hlt : (num.tdiv base).natAbs < base ^ fuel := by
        rw [Int.natAbs_tdiv, Int.natAbs_natCast]
        exact (Nat.div_lt_iff_lt_mul hb).mpr h
      rw [if_pos h0, if_pos h0, ih _ _ _ hlt, List.length_cons, storeChars]
      congr 2
      omega

theorem remChars_length (base : Int) : ∀ (fuel : Nat) (num : Int),
    (remChars base fuel num).length ≤ fuel := by
  intro fuel
  induction fuel with
  | zero =>
    intro num
    exact Nat.le_refl 0
  | succ fuel ih =>
    intro num
    rw [remChars]
    split
    · exact Nat.succ_le_succ (ih _)
    · exact Nat.zero_le _

/-! ### The strings -/

/-- The function leaves the string `text` in an array of 65 bytes, whatever was in
it. -/
structure Prints (f : CharArray → Option CharArray) (text : List UInt8) : Prop where
  noNul : 0 ∉ text
  fits : text.length < 65
  eq : ∀ b, f b = some (storeChars b 0 (text ++ [0]))

theorem Prints.chars {f : CharArray → Option CharArray} {text : List UInt8} {b b' : CharArray}
    (h : Prints f text) (hf : f b = some b') : charsUpToNul 65 0 b' = text := by
  obtain rfl := Option.some.inj ((h.eq b).symm.trans hf)
  refine charsUpToNul_store _ text 65 0 h.noNul h.fits ?_ ?_
  · intro k hk
    rw [storeChars_apply, if_pos (Nat.zero_le _), Nat.zero_add, Nat.sub_zero,
      List.getElem?_append_left hk, List.getElem?_eq_getElem hk]
    rfl
  · rw [storeChars_apply, if_pos (Nat.zero_le _), Nat.zero_add, Nat.sub_zero,
      List.getElem?_append_right (Nat.le_refl _), Nat.sub_self]
    rfl

theorem digitChar_ne_zero {d : Nat} (h : d < 36) : digitChar d ≠ 0 := by
  revert h
  revert d
  decide

theorem digitChars_spec {base : Nat} (value : Nat) (hb : 1 < base) (hb' : base ≤ 36) :
    0 ∉ digitChars base value ∧ ∀ k, 0 < k → value < base ^ k → (digitChars base value).length ≤ k := by
  unfold digitChars
  split
  · exact ⟨by decide, fun k hk _ => hk⟩
  · refine ⟨?_, ?_⟩
    · intro h
      obtain ⟨d, hd, h0⟩ := List.mem_map.mp h
      exact digitChar_ne_zero ((Nat.digits_lt_base hb hd).trans_le hb') h0
    · intro k _ hv
      rw [List.length_map]
      exact (Nat.digits_length_le_iff hb value).mpr hv

theorem pow_le_pow_65 {base : Nat} (hb : 1 < base) : 18446744073709551616 ≤ base ^ 64 :=
  (show 18446744073709551616 = 2 ^ 64 by decide) ▸ Nat.pow_le_pow_left hb 64

theorem toa_prints (value : Nat) {base : Nat} (hb : 1 < base) (hb' : base ≤ 36)
    (hv : value < 18446744073709551616) :
    Prints (toa value base 0) (digitChars base value).reverse := by
  have hlt : value < base ^ 64 := hv.trans_le (pow_le_pow_65 hb)
  obtain ⟨hne, hlen⟩ := digitChars_spec value hb hb'
  refine ⟨?_, ?_, ?_⟩
  · simpa using hne
  · rw [List.length_reverse]
    exact Nat.lt_succ_of_le (hlen 64 (by decide) hlt)
  · exact toa_eq hb (hlt.trans (Nat.pow_lt_pow_right hb (by decide))) 0

theorem utoa_prints (value : UInt32) {base : Nat} (hb : 1 < base) (hb' : base ≤ 36) :
    Prints (utoa value base) (digitChars base value.toNat).reverse :=
  toa_prints _ hb hb' (value.toNat_lt.trans (by decide))

theorem ulltoa_prints (value : UInt64) {base : Nat} (hb : 1 < base) (hb' : base ≤ 36) :
    Prints (ulltoa value base) (digitChars base value.toNat).reverse :=
  toa_prints _ hb hb' value.toNat_lt

/-- `__lltoa` writes the sign itself. -/
theorem lltoa_prints_neg {value : Int64} (hneg : value.toInt < 0) :
    Prints (lltoa value 10) (0x2D :: (digitChars 10 value.toInt.natAbs).reverse) := by
  have hlo : -9223372036854775808 ≤ value.toInt := value.le_toInt
  have habs : (-(value.toInt + 1)).toNat + 1 = value.toInt.natAbs := by omega
  have hlt : value.toInt.natAbs < 10 ^ 20 := by omega
  obtain ⟨hne, hlen⟩ := digitChars_spec value.toInt.natAbs (show 1 < 10 by decide) (by decide)
  refine ⟨?_, ?_, ?_⟩
  · simpa using hne
  · have := hlen 20 (by decide) hlt
    rw [List.length_cons, List.length_reverse]
    omega
  · intro b
    rw [lltoa, if_pos ⟨hneg, rfl⟩, habs, toa_eq (by decide) (hlt.trans (by decide))]
    rfl

/-- Without a sign it is `__ulltoa` of the number modulo `2 ^ 64`. -/
theorem lltoa_prints_mod {value : Int64} {base : Nat} (hb : 1 < base) (hb' : base ≤ 36)
    (h : ¬ (value.toInt < 0 ∧ base = 10)) :
    Prints (lltoa value base)
      (digitChars base (value.toInt % 18446744073709551616).toNat).reverse := by
  have hprints := toa_prints (value.toInt % 18446744073709551616).toNat hb hb' (by omega)
  refine ⟨hprints.noNul, hprints.fits, ?_⟩
  intro b
  rw [lltoa, if_neg h]
  exact hprints.eq b

theorem lltoa_prints (value : Int64) : ∃ text, Prints (lltoa value 10) text := by
  by_cases hneg : value.toInt < 0
  · exact ⟨_, lltoa_prints_neg hneg⟩
  · exact ⟨_, lltoa_prints_mod (by decide) (by decide) fun h => hneg h.1⟩

theorem remChar_ne_zero (num : Int) : remChar (num.tmod 10) ≠ 0 := by
  have hlt := Int.tmod_lt_of_pos num (show (0 : Int) < 10 by decide)
  have hgt := Int.lt_tmod_of_pos num (show (0 : Int) < 10 by decide)
  generalize num.tmod 10 = rem at hlt hgt
  -- a remainder is one of the 19 numbers from -9 to 9
  obtain ⟨k, rfl⟩ : ∃ k : Nat, rem = (k : Int) - 9 := ⟨(rem + 9).toNat, by omega⟩
  have hk : k < 19 := by omega
  clear hlt hgt
  revert k
  decide

theorem remChars_ne_zero : ∀ (fuel : Nat) (num : Int), 0 ∉ remChars 10 fuel num := by
  intro fuel
  induction fuel with
  | zero =>
    intro num
    exact List.not_mem_nil
  | succ fuel ih =>
    intro num
    rw [remChars]
    split
    · rw [List.mem_cons, not_or]
      exact ⟨(remChar_ne_zero num).symm, ih _⟩
    · exact List.not_mem_nil

theorem itoaLoop_int (n : Int32) (b : CharArray) : itoaLoop 10 33 n.toInt 0 b
    = some (0 + (remChars 10 33 n.toInt).length, storeChars b 0 (remChars 10 33 n.toInt)) := by
  have h₁ := n.le_toInt
  have h₂ := n.toInt_lt
  exact itoaLoop_eq (show 0 < 10 by decide) 32 0 _ b (by omega)

theorem itoa_prints_zero {num : Int32} (h0 : num.toInt = 0) : Prints (itoa num 10) [0x30] := by
  refine ⟨by decide, by decide, ?_⟩
  intro b
  rw [itoa, if_pos h0]
  rfl

/-- `__itoa` writes the sign behind the digits and turns both round. -/
theorem itoa_prints_neg {num : Int32} (hneg : num.toInt < 0) :
    Prints (itoa num 10) (remChars 10 33 (-num).toInt ++ [0x2D]).reverse := by
  refine ⟨?_, ?_, ?_⟩
  · simp [remChars_ne_zero]
  · have := remChars_length 10 33 (-num).toInt
    simp only [List.length_reverse, List.length_append, List.length_singleton]
    omega
  · intro b
    rw [← swapLoop_store b 0 _ (by simp), storeChars_concat, storeChars_concat,
      List.length_append, itoa, if_neg hneg.ne, decide_eq_true ⟨hneg, rfl⟩]
    change (itoaLoop 10 33 (-num).toInt 0 b).bind _ = _
    rw [itoaLoop_int]
    rfl

theorem itoa_prints_pos {num : Int32} (hpos : 0 < num.toInt) :
    Prints (itoa num 10) (remChars 10 33 num.toInt).reverse := by
  have hne : remChars 10 33 num.toInt ≠ [] := by
    rw [remChars, if_pos hpos.ne']
    exact List.cons_ne_nil _ _
  refine ⟨?_, ?_, ?_⟩
  · simp [remChars_ne_zero]
  · have := remChars_length 10 33 num.toInt
    rw [List.length_reverse]
    omega
  · intro b
    rw [← swapLoop_store b 0 _ hne, storeChars_concat, itoa, if_neg hpos.ne',
      decide_eq_false (fun h => hpos.not_gt h.1)]
    change (itoaLoop 10 33 num.toInt 0 b).bind _ = _
    rw [itoaLoop_int]
    rfl

theorem itoa_prints (num : Int32) : ∃ text, Prints (itoa num 10) text := by
  rcases lt_trichotomy num.toInt 0 with hneg | h0 | hpos
  · exact ⟨_, itoa_prints_neg hneg⟩
  · exact ⟨_, itoa_prints_zero h0⟩
  · exact ⟨_, itoa_prints_pos hpos⟩

end ChoOS
