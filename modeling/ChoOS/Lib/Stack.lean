import Mathlib.Data.List.Basic
import Mathlib.Tactic.Common
import ChoOS.Lib.Memory

/-!
# Words on a stack

A stack grows down through a byte memory with 32-bit addresses, and its pointer
wraps at `2 ^ 32`: a word may stand across the end of the memory.  No lemma
here asks where the stack lies.

`Stacked m p ws` says that the words `ws` stand in `m` from `p` on, the top of
the stack first.  `pushAll` pushes a list of words.  `stacked_pushAll` is what
stands on the stack after it, and `Stacked.pushes` is the frame rule: words
that the pushes do not reach still stand.

Whether one area meets another is said by the distance `q - p` of their starts
(`Beyond`), which wraps as the addresses do.
-/

/-- The word at `p`. -/
def wordAt (m : ByteMem) (p : BitVec 32) : BitVec 32 := BitVec.ofNat 32 (m.read32 p.toNat)

def setWord (m : ByteMem) (p v : BitVec 32) : ByteMem := m.write32 p.toNat v.toNat

/-- The `k` words from `q` on lie outside of the `n` words from `p` on. -/
def Beyond (p : BitVec 32) (n : Nat) (q : BitVec 32) (k : Nat) : Prop :=
  4 * n ≤ (q - p).toNat ∧ (q - p).toNat + 4 * k ≤ 4294967296

instance {p q : BitVec 32} {n k : Nat} : Decidable (Beyond p n q k) :=
  inferInstanceAs (Decidable (_ ∧ _))

/-- The words `ws` stand from `p` on. -/
def Stacked (m : ByteMem) (p : BitVec 32) : List (BitVec 32) → Prop
  | [] => True
  | w :: ws => wordAt m p = w ∧ Stacked m (p + 4) ws

/-- Push the words of a list, with the pointer at `p`. -/
def pushAll (m : ByteMem) (p : BitVec 32) : List (BitVec 32) → ByteMem
  | [] => m
  | v :: vs => pushAll (setWord m (p - 4) v) (p - 4) vs

variable {m m' : ByteMem} {p q v : BitVec 32} {n k : Nat} {vs ws us : List (BitVec 32)}

/-! ### One word -/

theorem wordAt_setWord_self (m : ByteMem) (p v : BitVec 32) : wordAt (setWord m p v) p = v := by
  rw [wordAt, setWord, ByteMem.read32_write32 v.isLt, BitVec.ofNat_toNat, BitVec.setWidth_eq]

theorem wordAt_setWord_of_beyond (h : Beyond p 1 q 1) (m : ByteMem) (v : BitVec 32) :
    wordAt (setWord m q v) p = wordAt m p := by
  have hp := p.isLt
  have hq := q.isLt
  obtain ⟨h, h'⟩ := h
  have hne : ∀ i < 4, ∀ j < 4, u32 (p.toNat + i) ≠ u32 (q.toNat + j) := by
    intro i hi j hj
    rw [BitVec.toNat_sub] at h h'
    unfold u32
    omega
  have hread : ∀ i < 4, (setWord m q v).read8 (p.toNat + i) = m.read8 (p.toNat + i) := by
    intro i hi
    rw [setWord, ByteMem.write32, ByteMem.read8_write8_of_ne (hne i hi 3 (by decide)),
      ByteMem.read8_write8_of_ne (hne i hi 2 (by decide)),
      ByteMem.read8_write8_of_ne (hne i hi 1 (by decide)),
      ByteMem.read8_write8_of_ne (by simpa using hne i hi 0 (by decide))]
  have h0 := hread 0 (by decide)
  rw [Nat.add_zero] at h0
  rw [wordAt, wordAt, ByteMem.read32, ByteMem.read32, h0, hread 1 (by decide),
    hread 2 (by decide), hread 3 (by decide)]

/-! ### Words on a stack -/

theorem Stacked.congr : ∀ {ws : List (BitVec 32)} {p : BitVec 32}, Stacked m p ws →
    (∀ i < ws.length,
      wordAt m' (p + BitVec.ofNat 32 (4 * i)) = wordAt m (p + BitVec.ofNat 32 (4 * i))) →
    Stacked m' p ws := by
  intro ws
  induction ws with
  | nil =>
    intro p _ _
    trivial
  | cons w ws ih =>
    intro p h hm
    obtain ⟨hw, hws⟩ := h
    refine ⟨?_, ih hws ?_⟩
    · have h0 := hm 0 (by simp)
      rw [show p + BitVec.ofNat 32 (4 * 0) = p by bv_omega] at h0
      rw [h0, hw]
    · intro i hi
      have hi' := hm (i + 1) (by simpa using hi)
      rwa [show p + BitVec.ofNat 32 (4 * (i + 1)) = p + 4 + BitVec.ofNat 32 (4 * i) by bv_omega]
        at hi'

theorem Stacked.get : ∀ {ws : List (BitVec 32)} {p : BitVec 32}, Stacked m p ws →
    ∀ {i : Nat} {w : BitVec 32}, ws[i]? = some w → wordAt m (p + BitVec.ofNat 32 (4 * i)) = w := by
  intro ws
  induction ws with
  | nil =>
    intro p _ i w hi
    simp at hi
  | cons v ws ih =>
    intro p h i w hi
    obtain ⟨hv, hws⟩ := h
    cases i with
    | zero =>
      rw [show p + BitVec.ofNat 32 (4 * 0) = p by bv_omega, hv]
      simpa using hi
    | succ i =>
      rw [show p + BitVec.ofNat 32 (4 * (i + 1)) = p + 4 + BitVec.ofNat 32 (4 * i) by bv_omega]
      exact ih hws (by simpa using hi)

theorem Stacked.drop : ∀ (n : Nat) {ws : List (BitVec 32)} {p : BitVec 32}, Stacked m p ws →
    Stacked m (p + BitVec.ofNat 32 (4 * n)) (ws.drop n) := by
  intro n
  induction n with
  | zero =>
    intro ws p h
    rw [show p + BitVec.ofNat 32 (4 * 0) = p by bv_omega]
    exact h
  | succ n ih =>
    intro ws p h
    cases ws with
    | nil => exact trivial
    | cons w ws =>
      rw [show p + BitVec.ofNat 32 (4 * (n + 1)) = p + 4 + BitVec.ofNat 32 (4 * n) by bv_omega]
      exact ih h.2

theorem Stacked.store (h : Stacked m p ws) (hq : Beyond p ws.length q 1) (v : BitVec 32) :
    Stacked (setWord m q v) p ws := by
  refine h.congr fun i hi => wordAt_setWord_of_beyond ?_ m v
  obtain ⟨hq, hq'⟩ := hq
  unfold Beyond
  constructor
  · bv_omega
  · bv_omega

theorem Stacked.push (h : Stacked m p ws) (hn : 4 * (ws.length + 1) ≤ 4294967296)
    (v : BitVec 32) : Stacked (setWord m (p - 4) v) (p - 4) (v :: ws) := by
  refine ⟨wordAt_setWord_self m (p - 4) v, ?_⟩
  rw [BitVec.sub_add_cancel]
  refine h.store ?_ v
  unfold Beyond
  constructor
  · bv_omega
  · bv_omega

theorem stacked_pushAll : ∀ (vs : List (BitVec 32)) {m : ByteMem} {p : BitVec 32}
    {ws : List (BitVec 32)}, Stacked m p ws → 4 * (ws.length + vs.length) ≤ 4294967296 →
    Stacked (pushAll m p vs) (p - BitVec.ofNat 32 (4 * vs.length)) (vs.reverse ++ ws) := by
  intro vs
  induction vs with
  | nil =>
    intro m p ws h _
    rw [List.length_nil, show p - BitVec.ofNat 32 (4 * 0) = p by bv_omega]
    exact h
  | cons v vs ih =>
    intro m p ws h hn
    rw [List.length_cons] at hn
    have hpush := ih (h.push (by omega) v) (by rw [List.length_cons]; omega)
    rw [pushAll, List.reverse_cons, List.append_assoc, List.singleton_append, List.length_cons,
      show p - BitVec.ofNat 32 (4 * (vs.length + 1)) = p - 4 - BitVec.ofNat 32 (4 * vs.length) by
        bv_omega]
    exact hpush

theorem Stacked.pushes : ∀ (vs : List (BitVec 32)) {m : ByteMem}
    {p : BitVec 32}, Stacked m q us → Beyond p 0 q (us.length + vs.length) →
    Stacked (pushAll m p vs) q us := by
  intro vs
  induction vs with
  | nil =>
    intro m p h _
    exact h
  | cons v vs ih =>
    intro m p h hp
    obtain ⟨hp, hp'⟩ := hp
    rw [List.length_cons] at hp'
    refine ih (h.store ?_ v) ?_
    · unfold Beyond
      constructor
      · bv_omega
      · bv_omega
    · unfold Beyond
      constructor
      · omega
      · bv_omega
