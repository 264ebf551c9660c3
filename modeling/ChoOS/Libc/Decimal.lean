import ChoOS.Lib.Numeral
import ChoOS.Libc.Convert

/-!
# The numbers as text

What the conversions leave in the array.  `formatting_exact`: `__utoa`,
`__ulltoa` and `__lltoa` write the numeral of their number, in every base that
has enough digits.  `itoa_agrees`: `__itoa` writes the same as `__lltoa` in base 10
unless the number is the smallest one, whose negation is itself; its remainders
are negative then, and the characters are not digits.
-/

namespace ChoOS

/-- The function ends with the string `text` in the array; with the NUL these are at
most 65 bytes, and the bytes behind it are as they were. -/
structure Formats (f : CharArray → Option CharArray) (text : List UInt8) : Prop where
  fits : text.length + 1 ≤ 65
  leaves : ∀ b, ∃ b', f b = some b' ∧ charsUpToNul 65 0 b' = text ∧ b' text.length = 0 ∧
    ∀ x, text.length < x → b' x = b x

theorem Prints.formats {f : CharArray → Option CharArray} {text : List UInt8} (h : Prints f text) :
    Formats f text := by
  refine ⟨h.fits, ?_⟩
  intro b
  refine ⟨_, h.eq b, h.chars (h.eq b), ?_, ?_⟩
  · rw [storeChars_apply, if_pos (Nat.zero_le _), Nat.sub_zero,
      List.getElem?_append_right (Nat.le_refl _), Nat.sub_self]
    rfl
  · intro x hx
    rw [storeChars_apply, if_pos (Nat.zero_le _), Nat.sub_zero, List.getElem?_eq_none]
    · rfl
    · rw [List.length_append, List.length_singleton]
      omega

theorem Formats.unique {f : CharArray → Option CharArray} {text text' : List UInt8}
    (h : Formats f text) (h' : Formats f text') : text = text' := by
  obtain ⟨b, hb, htext, -⟩ := h.leaves fun _ => 0
  obtain ⟨b', hb', htext', -⟩ := h'.leaves fun _ => 0
  obtain rfl := Option.some.inj (hb.symm.trans hb')
  exact htext.symm.trans htext'

/-! ### The digits -/

theorem charValue_digitChar {d : Nat} (h : d < 36) : charValue (digitChar d) = some d := by
  revert h
  revert d
  decide

theorem digitChars_numeral {base : Nat} (value : Nat) (hb : 1 < base) (hb' : base ≤ 36) :
    Numeral base value (digitChars base value).reverse := by
  by_cases h0 : value = 0
  · subst h0
    refine ⟨?_, by simp [digitChars], fun _ => rfl, ?_⟩
    · intro c hc
      obtain rfl : c = digitChar 0 := by simpa [digitChars] using hc
      exact ⟨0, by omega, charValue_digitChar (by decide)⟩
    · simp [digitChars, readDigits, charValue_digitChar]
  rw [digitChars, if_neg h0]
  have hval : ∀ d ∈ Nat.digits base value, charValue (digitChar d) = some d := fun d hd =>
    charValue_digitChar ((Nat.digits_lt_base hb hd).trans_le hb')
  have hlow : lowDigits ((Nat.digits base value).map digitChar).reverse = Nat.digits base value := by
    rw [lowDigits, List.reverse_reverse, List.map_map]
    refine (List.map_congr_left ?_).trans (List.map_id _)
    intro d hd
    simp [hval d hd]
  refine ⟨?_, ?_, ?_, ?_⟩
  · intro c hc
    obtain ⟨d, hd, rfl⟩ := List.mem_map.mp (List.mem_reverse.mp hc)
    exact ⟨d, Nat.digits_lt_base hb hd, hval d hd⟩
  · simpa using Nat.digits_ne_nil_iff_ne_zero.mpr h0
  · -- the highest digit is not zero
    intro hhead
    have hne : Nat.digits base value ≠ [] := Nat.digits_ne_nil_iff_ne_zero.mpr h0
    rw [List.head?_reverse, List.getLast?_map, List.getLast?_eq_getLast_of_ne_nil hne,
      Option.map_some] at hhead
    have hd := hval _ (List.getLast_mem hne)
    rw [Option.some.inj hhead] at hd
    exact absurd (Option.some.inj hd).symm (Nat.getLast_digit_ne_zero base h0)
  · rw [readDigits_eq, hlow, Nat.ofDigits_digits]

/-! ### `__utoa`, `__ulltoa` and `__lltoa` -/

/-- `__lltoa` in base 10 writes the number itself, in the other bases its value modulo
`2 ^ 64`. -/
theorem lltoa_numeral (value : Int64) {base : Nat} (hb : 1 < base) (hb' : base ≤ 36) :
    ∃ text, Formats (lltoa value base) text ∧
      SignedNumeral base (if base = 10 then value.toInt else value.toInt % 18446744073709551616)
        text := by
  by_cases h : value.toInt < 0 ∧ base = 10
  · obtain ⟨hneg, rfl⟩ := h
    refine ⟨_, (lltoa_prints_neg hneg).formats, ?_⟩
    have hnumeral := SignedNumeral.neg (by omega)
      (digitChars_numeral value.toInt.natAbs (show 1 < 10 by decide) (by decide))
    rwa [show -(value.toInt.natAbs : Int) = value.toInt by omega] at hnumeral
  · refine ⟨_, (lltoa_prints_mod hb hb' h).formats, ?_⟩
    have hnat : (if base = 10 then value.toInt else value.toInt % 18446744073709551616)
        = ((value.toInt % 18446744073709551616).toNat : Int) := by
      have hlt := value.toInt_lt
      split <;> omega
    rw [hnat]
    exact .nonneg (digitChars_numeral _ hb hb')

/-- **Formatting is exact**, in every base from 2 to 36. -/
theorem formatting_exact {base : Nat} (hb : 2 ≤ base) (hb' : base ≤ 36) :
    (∀ value : UInt32, ∃ text, Formats (utoa value base) text ∧ Numeral base value.toNat text) ∧
    (∀ value : UInt64, ∃ text, Formats (ulltoa value base) text ∧ Numeral base value.toNat text) ∧
    ∀ value : Int64, ∃ text, Formats (lltoa value base) text ∧
      SignedNumeral base (if base = 10 then value.toInt else value.toInt % 18446744073709551616)
        text ∧
      readSigned base text
        = (if base = 10 then value.toInt else value.toInt % 18446744073709551616) ∧
      (text.head? = some 0x2D ↔ value.toInt < 0 ∧ base = 10) := by
  refine ⟨?_, ?_, ?_⟩
  · intro value
    exact ⟨_, (utoa_prints value hb hb').formats, digitChars_numeral _ hb hb'⟩
  · intro value
    exact ⟨_, (ulltoa_prints value hb hb').formats, digitChars_numeral _ hb hb'⟩
  · intro value
    obtain ⟨text, hf, hn⟩ := lltoa_numeral value hb hb'
    refine ⟨text, hf, hn, hn.read, hn.minus_iff.trans ?_⟩
    split
    · exact (and_iff_left ‹_›).symm
    · exact iff_of_false (by omega) fun h => ‹¬ base = 10› h.2

theorem formatting_exact_hex : ∃ text, Formats (utoa 0xC0FFEE 16) text ∧
    Numeral 16 0xC0FFEE text :=
  (formatting_exact (show 2 ≤ 16 by decide) (by decide)).1 0xC0FFEE

/-! ### `__itoa` -/

theorem remChar_natCast {d : Nat} (h : d < 10) : remChar d = digitChar d := by
  revert h
  revert d
  decide

theorem remChars_natCast : ∀ (fuel value : Nat), 0 < value → value < 10 ^ fuel →
    remChars 10 fuel value = digitChars 10 value := by
  intro fuel
  induction fuel with
  | zero =>
    intro value hpos hlt
    rw [Nat.pow_zero] at hlt
    omega
  | succ fuel ih =>
    intro value hpos hlt
    have hmod : ((value : Int).tmod 10) = (value % 10 : Nat) := (Int.ofNat_tmod value 10).symm
    have hdiv : ((value : Int).tdiv 10) = (value / 10 : Nat) := (Int.ofNat_tdiv value 10).symm
    rw [remChars, if_pos (by omega), hmod, hdiv, remChar_natCast (Nat.mod_lt _ (by decide))]
    by_cases hnext : 0 < value / 10
    · rw [ih _ hnext (by omega), digitChars_of_le (by decide) hnext]
    · obtain h0 : value / 10 = 0 := by omega
      rw [digitChars_of_lt (by omega), h0]
      cases fuel <;> rfl

theorem itoa_numeral {num : Int32} (h : num.toInt ≠ -2147483648) :
    ∃ text, Formats (itoa num 10) text ∧ SignedNumeral 10 num.toInt text := by
  have hlo := num.le_toInt
  have hhi := num.toInt_lt
  have hten (value : Nat) : Numeral 10 value (digitChars 10 value).reverse :=
    digitChars_numeral value (by decide) (by decide)
  rcases lt_trichotomy num.toInt 0 with hneg | h0 | hpos
  · have habs : (-num).toInt = (num.toInt.natAbs : Int) := by
      rw [Int32.toInt_neg, Int.bmod_eq_of_le (by omega) (by omega)]
      omega
    refine ⟨_, (itoa_prints_neg hneg).formats, ?_⟩
    rw [habs, remChars_natCast 33 _ (by omega) (by omega), List.reverse_append,
      List.reverse_singleton, List.singleton_append]
    have hnumeral := SignedNumeral.neg (by omega) (hten num.toInt.natAbs)
    rwa [show -(num.toInt.natAbs : Int) = num.toInt by omega] at hnumeral
  · refine ⟨_, (itoa_prints_zero h0).formats, ?_⟩
    rw [h0]
    exact .nonneg (hten 0)
  · refine ⟨_, (itoa_prints_pos hpos).formats, ?_⟩
    have hnat : ((num.toInt.natAbs : Nat) : Int) = num.toInt := by omega
    rw [← hnat, remChars_natCast 33 _ (by omega) (by omega)]
    exact .nonneg (hten _)

/-- The two functions leave the decimal numeral of `num`. -/
def SameDecimal (num : Int32) : Prop :=
  ∃ text, Formats (itoa num 10) text ∧ Formats (lltoa num.toInt64 10) text ∧
    SignedNumeral 10 num.toInt text

/-- The remainders of the smallest number are negative. -/
theorem itoa_minValue : Formats (itoa Int32.minValue 10)
    [0x2D, 0x2E, 0x2F, 0x2C, 0x29, 0x2C, 0x28, 0x2D, 0x2A, 0x2C, 0x28] := by
  have hprints := itoa_prints_neg (show Int32.minValue.toInt < 0 by decide)
  have htext : (remChars 10 33 (-Int32.minValue).toInt ++ [0x2D]).reverse
      = [0x2D, 0x2E, 0x2F, 0x2C, 0x29, 0x2C, 0x28, 0x2D, 0x2A, 0x2C, 0x28] := by decide
  rw [htext] at hprints
  exact hprints.formats

/-- **`%d` and `%lld` agree** on every number but the smallest. -/
theorem itoa_agrees (num : Int32) : SameDecimal num ↔ num ≠ Int32.minValue := by
  constructor
  · rintro ⟨text, hf, -, hn⟩ rfl
    obtain rfl := hf.unique itoa_minValue
    have hread := hn.read
    exact absurd hread (by decide)
  · intro hne
    have hmin : num.toInt ≠ -2147483648 := fun h => hne (Int32.toInt_inj.mp h)
    obtain ⟨text, hf, hn⟩ := itoa_numeral hmin
    obtain ⟨text', hf', hn'⟩ := lltoa_numeral num.toInt64 (show 1 < 10 by decide) (by decide)
    rw [if_pos rfl, Int32.toInt_toInt64] at hn'
    obtain rfl := hn.unique (by decide) hn'
    exact ⟨text, hf, hf', hn⟩

/-- **`%d` of `INT_MIN`** has no digit in it. -/
theorem itoa_minValue_differs : ¬ SameDecimal Int32.minValue := by
  rintro ⟨text, hf, -, hn⟩
  obtain rfl := hf.unique itoa_minValue
  exact absurd hn.read (by decide)

end ChoOS
