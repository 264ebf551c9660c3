import Mathlib.Data.Nat.Digits.Lemmas

/-!
# Numerals

The text of a natural number in a base up to 36, with lower case letters for the
digits from ten on.  `Numeral` is what a text must be like to be *the* numeral of a
number: `Numeral.unique` says that there is only one, so leading zeros are
excluded and zero is written `0`.  A sign stands in front of it.
-/

/-- The value of a digit. -/
def charValue (c : UInt8) : Option Nat :=
  if 0x30 ≤ c ∧ c ≤ 0x39 then some (c.toNat - 0x30)
  else if 0x61 ≤ c ∧ c ≤ 0x7A then some (c.toNat - 0x61 + 10)
  else none

/-- The number that a text stands for, read from the left. -/
def readDigits (base : Nat) (text : List UInt8) : Nat :=
  text.foldl (fun value c => value * base + (charValue c).getD 0) 0

/-- The numeral of `value`. -/
structure Numeral (base value : Nat) (text : List UInt8) : Prop where
  digits : ∀ c ∈ text, ∃ d < base, charValue c = some d
  nonempty : text ≠ []
  noLeadingZero : text.head? = some 0x30 → text = [0x30]
  reads : readDigits base text = value

theorem charValue_inj {c c' : UInt8} {d : Nat} (h : charValue c = some d)
    (h' : charValue c' = some d) : c = c' := by
  have key : ∀ c : UInt8, charValue c = some d →
      c.toNat = if d < 10 then d + 0x30 else d - 10 + 0x61 := by
    intro c hc
    simp only [charValue, UInt8.le_iff_toNat_le] at hc
    split at hc
    · obtain rfl := Option.some.inj hc
      simp only [UInt8.reduceToNat] at *
      rw [if_pos (by omega)]
      omega
    · split at hc
      · obtain rfl := Option.some.inj hc
        simp only [UInt8.reduceToNat] at *
        rw [if_neg (by omega)]
        omega
      · exact absurd hc (by simp)
  exact UInt8.toNat_inj.mp ((key c h).trans (key c' h').symm)

/-- The digits of a text, the lowest one first. -/
def lowDigits (text : List UInt8) : List Nat := text.reverse.map fun c => (charValue c).getD 0

theorem readDigits_eq (base : Nat) (text : List UInt8) :
    readDigits base text = Nat.ofDigits base (lowDigits text) := by
  induction text using List.reverseRecOn with
  | nil => rfl
  | append_singleton text c ih =>
    rw [readDigits, List.foldl_append, ← readDigits, ih, lowDigits, lowDigits, List.reverse_append,
      List.reverse_singleton, List.singleton_append, List.map_cons, Nat.ofDigits_cons]
    simp only [List.foldl_cons, List.foldl_nil]
    rw [Nat.mul_comm, Nat.add_comm]

theorem lowDigits_inj {base : Nat} {text text' : List UInt8}
    (h : ∀ c ∈ text, ∃ d < base, charValue c = some d)
    (h' : ∀ c ∈ text', ∃ d < base, charValue c = some d) (heq : lowDigits text = lowDigits text') :
    text = text' := by
  have hmap : text.map (fun c => (charValue c).getD 0) = text'.map fun c => (charValue c).getD 0 := by
    rw [lowDigits, lowDigits, List.map_reverse, List.map_reverse] at heq
    exact List.reverse_injective heq
  clear heq
  induction text generalizing text' with
  | nil => exact (List.map_eq_nil_iff.mp hmap.symm).symm
  | cons c text ih =>
    cases text' with
    | nil => exact absurd hmap (by simp)
    | cons c' text' =>
      obtain ⟨hc, htail⟩ := List.cons.inj hmap
      obtain ⟨d, -, hd⟩ := h c (List.mem_cons_self ..)
      obtain ⟨d', -, hd'⟩ := h' c' (List.mem_cons_self ..)
      have hdd : d = d' := by simpa [hd, hd'] using hc
      subst hdd
      rw [charValue_inj hd hd', ih (fun x hx => h x (List.mem_cons_of_mem _ hx))
        (fun x hx => h' x (List.mem_cons_of_mem _ hx)) htail]

namespace Numeral

variable {base value : Nat} {text text' : List UInt8}

theorem lowDigits_eq (hb : 1 < base) (h : Numeral base value text) (hne : text ≠ [0x30]) :
    Nat.digits base value = lowDigits text := by
  rw [← h.reads, readDigits_eq]
  refine Nat.digits_ofDigits base hb _ ?_ ?_
  · intro d hd
    obtain ⟨c, hc, rfl⟩ := List.mem_map.mp hd
    obtain ⟨d, hlt, hd⟩ := h.digits c (List.mem_reverse.mp hc)
    rwa [hd]
  · intro hnil
    cases text with
    | nil => exact absurd rfl h.nonempty
    | cons c text =>
      obtain ⟨d, -, hd⟩ := h.digits c (List.mem_cons_self ..)
      have hlast : (lowDigits (c :: text)).getLast hnil = d := by
        simp [lowDigits, hd]
      rw [hlast]
      rintro rfl
      -- a digit of value zero is the character of zero
      have hc : c = 0x30 := charValue_inj hd (by decide)
      exact hne (h.noLeadingZero (by rw [hc]; rfl))

theorem zero_iff (hb : 1 < base) (h : Numeral base value text) : value = 0 ↔ text = [0x30] := by
  constructor
  · rintro rfl
    by_contra hne
    have hlow := h.lowDigits_eq hb hne
    rw [Nat.digits_zero] at hlow
    exact h.nonempty (by simpa [lowDigits] using hlow.symm)
  · rintro rfl
    rw [← h.reads]
    simp [readDigits, charValue]

theorem unique (hb : 1 < base) (h : Numeral base value text) (h' : Numeral base value text') :
    text = text' := by
  by_cases h0 : value = 0
  · rw [(h.zero_iff hb).mp h0, (h'.zero_iff hb).mp h0]
  · refine lowDigits_inj h.digits h'.digits ?_
    rw [← h.lowDigits_eq hb (mt (h.zero_iff hb).mpr h0),
      ← h'.lowDigits_eq hb (mt (h'.zero_iff hb).mpr h0)]

end Numeral

/-! ### Signs -/

/-- The numeral of an integer, with its sign. -/
inductive SignedNumeral (base : Nat) : Int → List UInt8 → Prop
  | nonneg {value : Nat} {text : List UInt8} : Numeral base value text →
      SignedNumeral base value text
  | neg {value : Nat} {text : List UInt8} : 0 < value → Numeral base value text →
      SignedNumeral base (-value) (0x2D :: text)

/-- The number that a text with a sign stands for. -/
def readSigned (base : Nat) : List UInt8 → Int
  | 0x2D :: text => -readDigits base text
  | text => readDigits base text

theorem Numeral.head_ne_minus {base value : Nat} {text : List UInt8} (h : Numeral base value text) :
    text.head? ≠ some 0x2D := by
  intro hhead
  cases text with
  | nil => exact absurd hhead (by simp)
  | cons c text =>
    obtain rfl : c = 0x2D := Option.some.inj hhead
    obtain ⟨d, -, hd⟩ := h.digits 0x2D (List.mem_cons_self ..)
    simp [charValue] at hd

theorem readSigned_of_numeral {base value : Nat} {text : List UInt8}
    (h : Numeral base value text) : readSigned base text = value := by
  rw [readSigned, h.reads]
  intro t ht
  exact h.head_ne_minus (by rw [ht]; rfl)

theorem SignedNumeral.read {base : Nat} {n : Int} {text : List UInt8}
    (h : SignedNumeral base n text) : readSigned base text = n := by
  cases h with
  | nonneg h => exact readSigned_of_numeral h
  | neg _ h => rw [readSigned, h.reads]

theorem SignedNumeral.minus_iff {base : Nat} {n : Int} {text : List UInt8}
    (h : SignedNumeral base n text) : text.head? = some 0x2D ↔ n < 0 := by
  cases h with
  | nonneg h => exact iff_of_false h.head_ne_minus (by omega)
  | neg hpos _ => exact iff_of_true rfl (by omega)

theorem SignedNumeral.unique {base : Nat} (hb : 1 < base) {n : Int} {text text' : List UInt8}
    (h : SignedNumeral base n text) (h' : SignedNumeral base n text') : text = text' := by
  have hsign := h.minus_iff.trans h'.minus_iff.symm
  have hread := h.read.trans h'.read.symm
  cases h with
  | nonneg h =>
    generalize hn : ((_ : Nat) : Int) = n at h'
    cases h' with
    | nonneg h' =>
      rw [readSigned_of_numeral h, readSigned_of_numeral h'] at hread
      obtain rfl := Int.ofNat_inj.mp hread
      exact h.unique hb h'
    | neg => exact absurd (hsign.mpr rfl) h.head_ne_minus
  | @neg value text hpos h =>
    generalize hn : -(value : Int) = n at h'
    cases h' with
    | nonneg h' => exact absurd (hsign.mp rfl) h'.head_ne_minus
    | neg _ h' =>
      obtain rfl := Int.ofNat_inj.mp (neg_injective hn)
      rw [h.unique hb h']
