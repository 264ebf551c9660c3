import Mathlib.Logic.Function.Basic

/-!
# The 8253 interval timer

Three channels that divide a clock.  A control word chooses the access and the mode of a
channel and stops it; the data port of the channel then takes its count, with access 3
the low byte first.  A count that is complete is in the count register `cr`.

The first clock after that takes the count over into the counting element `ce`, and from
then on every `cr` clocks the output rises.  A count of zero is the greatest one.  This is
a period of the modes 2 and 3; where the output falls in between is left out, and so are
the other modes, the latch and the read-back command.

`PitChannel.run_eq` counts the rising edges, `PitChannel.run_start` those behind a new
count.
-/

structure PitChannel where
  access : BitVec 2
  mode : BitVec 3
  bcd : Bool
  low : Option (BitVec 8)
  cr : Option Nat
  ce : Option Nat

namespace PitChannel

/-- The control word of this channel. -/
def writeControl (v : BitVec 8) (c : PitChannel) : PitChannel :=
  if v.extractLsb' 4 2 = 0 then c
  else
    { access := v.extractLsb' 4 2
      mode := v.extractLsb' 1 3
      bcd := v.getLsbD 0
      low := none
      cr := none
      ce := none }

/-- The value of a count, binary or in four decimal digits. -/
def countValue (bcd : Bool) (w : BitVec 16) : Nat :=
  if bcd then
    let n := (w.extractLsb' 12 4).toNat * 1000 + (w.extractLsb' 8 4).toNat * 100
      + (w.extractLsb' 4 4).toNat * 10 + (w.extractLsb' 0 4).toNat
    if n = 0 then 10000 else n
  else if w.toNat = 0 then 65536 else w.toNat

def writeData (v : BitVec 8) (c : PitChannel) : PitChannel :=
  if c.access = 1 then { c with cr := some (countValue c.bcd (0#8 ++ v)) }
  else if c.access = 2 then { c with cr := some (countValue c.bcd (v ++ 0#8)) }
  else
    match c.low with
    | none => { c with low := some v }
    | some l => { c with low := none, cr := some (countValue c.bcd (v ++ l)) }

/-- One clock, and whether the output rises. -/
def clock (c : PitChannel) : PitChannel × Bool :=
  match c.cr, c.ce with
  | none, _ => (c, false)
  | some n, none => ({ c with ce := some n }, false)
  | some n, some k => if k ≤ 1 then ({ c with ce := some n }, true) else ({ c with ce := some (k - 1) }, false)

/-- So many clocks, and how often the output rose. -/
def run : Nat → PitChannel → PitChannel × Nat
  | 0, c => (c, 0)
  | n + 1, c =>
    let (c, rises) := run n c
    let (c, rise) := c.clock
    (c, if rise then rises + 1 else rises)

variable {c : PitChannel} {p k : Nat}

theorem clock_start (hcr : c.cr = some p) (hce : c.ce = none) :
    c.clock = ({ c with ce := some p }, false) := by
  simp only [clock, hcr, hce]

/-- **A channel divides by its count.**  `k` clocks are left of the period at the start. -/
theorem run_eq (hcr : c.cr = some p) (hce : c.ce = some k) (hk : 0 < k) (hle : k ≤ p) (n : Nat) :
    run n c = ({ c with ce := some (p - (n + (p - k)) % p) }, (n + (p - k)) / p) := by
  have hp : 0 < p := by omega
  induction n with
  | zero =>
    rw [Nat.zero_add, Nat.mod_eq_of_lt (by omega), Nat.div_eq_of_lt (by omega), Nat.sub_sub_self hle,
      ← hce]
    rfl
  | succ n ih =>
    rw [Nat.add_right_comm]
    obtain ⟨m, hm⟩ : ∃ m, m = n + (p - k) := ⟨_, rfl⟩
    rw [run, ih, ← hm]
    have hlt := Nat.mod_lt m hp
    have hmod := Nat.div_add_mod m p
    simp only [clock, hcr]
    by_cases hlast : p - m % p ≤ 1
    · -- the last clock of a period
      have hsucc : m + 1 = p * (m / p + 1) := by
        rw [Nat.mul_add]
        omega
      have hdiv : (m + 1) / p = m / p + 1 := by
        rw [hsucc, Nat.mul_div_cancel_left _ hp]
      have hzero : (m + 1) % p = 0 := by
        rw [hsucc, Nat.mul_mod_right]
      rw [if_pos hlast, hdiv, hzero]
      simp
    · have hdiv : (m + 1) / p = m / p :=
        Nat.div_eq_of_lt_le (by rw [Nat.mul_comm]; omega) (by rw [Nat.mul_comm, Nat.mul_add]; omega)
      have hnext : (m + 1) % p = m % p + 1 := by
        have := Nat.div_add_mod (m + 1) p
        rw [hdiv] at this
        omega
      rw [if_neg hlast, hdiv, hnext, Nat.sub_sub]
      simp

theorem run_quiet {c' : PitChannel} (h : c.clock = (c', false)) (n : Nat) :
    run (n + 1) c = run n c' := by
  induction n with
  | zero =>
    rw [run, run, run]
    simp only [h]
    rfl
  | succ n ih =>
    rw [run, ih]
    rfl

theorem run_start (hcr : c.cr = some p) (hce : c.ce = none) (hp : 0 < p) (n : Nat) :
    run (n + 1) c = ({ c with ce := some (p - n % p) }, n / p) := by
  rw [run_quiet (clock_start hcr hce), run_eq (c := { c with ce := some p }) hcr rfl hp
    (Nat.le_refl p), Nat.sub_self, Nat.add_zero]

end PitChannel

/-- The timer at its four ports. -/
structure Pit where
  channel : Fin 3 → PitChannel

namespace Pit

/-- A write to a port: three data ports, and behind them the one of the control words. -/
def outb (base port : BitVec 16) (v : BitVec 8) (t : Pit) : Pit :=
  if port = base + 3 then
    if h : (v.extractLsb' 6 2).toNat < 3 then
      ⟨Function.update t.channel ⟨(v.extractLsb' 6 2).toNat, h⟩ ((t.channel ⟨_, h⟩).writeControl v)⟩
    else t
  else if h : (port - base).toNat < 3 then
    ⟨Function.update t.channel ⟨(port - base).toNat, h⟩ ((t.channel ⟨_, h⟩).writeData v)⟩
  else t

end Pit
