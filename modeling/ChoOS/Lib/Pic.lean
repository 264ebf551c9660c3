import Mathlib.Data.Fin.Tuple.Basic

/-!
# The 8259A interrupt controller

One controller with eight inputs, in the edge triggered and fully nested mode.
`irr` are the requests, `isr` the inputs in service and `imr` the masked ones;
input 0 comes first.  `output` is the input that the controller asks the
processor to serve: one that is requested, not masked, and before every input in
service.  `acknowledge` takes it into service and `eoi`, the non specific end of
interrupt, ends the service of the first input that is in service.

The other writes are the initialization sequence: `ICW1` at the command port
resets the controller, and the data port takes `ICW2` to `ICW4` and then the
mask.  The other commands of `OCW2` and `OCW3` change nothing here.

`Serves p l` says that `l` are the inputs in service, the last one first.
`Serves.acknowledge` and `Serves.eoi` are the rules of the fully nested mode:
interrupts are served as a stack, and a non specific `eoi` ends the service of
its top.

`Pics` are two controllers, the output of the slave at an input of the master.
-/

/-- What the data port takes. -/
inductive PicPort
  | icw2
  | icw3
  | icw4
  | mask
  deriving DecidableEq

structure Pic where
  data : PicPort
  single : Bool
  needIcw4 : Bool
  offset : BitVec 8
  cascade : BitVec 8
  autoEoi : Bool
  irr : Fin 8 → Bool
  imr : Fin 8 → Bool
  isr : Fin 8 → Bool

namespace Pic

def writeIcw1 (v : BitVec 8) (p : Pic) : Pic :=
  { p with
    data := .icw2
    single := v.getLsbD 1
    needIcw4 := v.getLsbD 0
    autoEoi := false
    irr := fun _ => false
    imr := fun _ => false
    isr := fun _ => false }

/-- The first input in service. -/
def serving (p : Pic) : Option (Fin 8) := Fin.find? p.isr

/-- The non specific end of interrupt. -/
def eoi (p : Pic) : Pic :=
  match p.serving with
  | none => p
  | some i => { p with isr := Function.update p.isr i false }

def writeCommand (v : BitVec 8) (p : Pic) : Pic :=
  if v.getLsbD 4 then p.writeIcw1 v else if v = 0x20 then p.eoi else p

def writeData (v : BitVec 8) (p : Pic) : Pic :=
  match p.data with
  | .icw2 =>
    { p with
      offset := v &&& 0xF8
      data := if p.single then if p.needIcw4 then .icw4 else .mask else .icw3 }
  | .icw3 => { p with cascade := v, data := if p.needIcw4 then .icw4 else .mask }
  | .icw4 => { p with autoEoi := v.getLsbD 1, data := .mask }
  | .mask => { p with imr := fun i => v.getLsbD i }

/-- A rising edge at an input. -/
def raise (i : Fin 8) (p : Pic) : Pic := { p with irr := Function.update p.irr i true }

/-- The input may be served: nothing at or before it is in service. -/
def free (p : Pic) (i : Fin 8) : Bool := (p.serving).all fun j => i < j

def output (p : Pic) : Option (Fin 8) := Fin.find? fun i => p.irr i && !p.imr i && p.free i

def acknowledge (i : Fin 8) (p : Pic) : Pic :=
  { p with
    irr := Function.update p.irr i false
    isr := Function.update p.isr i (p.isr i || !p.autoEoi) }

variable {p q : Pic} {i j : Fin 8} {l : List (Fin 8)}

theorem eoi_eq (p : Pic) : p.eoi = { p with isr := p.eoi.isr } := by
  unfold eoi
  split
  · rfl
  · rfl

theorem imr_eoi (p : Pic) : p.eoi.imr = p.imr := by
  rw [eoi_eq]

theorem serving_eq_some_iff : p.serving = some i ↔ p.isr i ∧ ∀ j < i, p.isr j = false :=
  Fin.find?_eq_some_iff

theorem serving_eq_none_iff : p.serving = none ↔ ∀ i, p.isr i = false := by
  simp [serving]

theorem free_iff : p.free i ↔ ∀ j, p.isr j → i < j := by
  rw [free]
  cases h : p.serving with
  | none =>
    rw [serving_eq_none_iff] at h
    simp [h]
  | some k =>
    rw [serving_eq_some_iff] at h
    simp only [Option.all_some, decide_eq_true_eq]
    constructor
    · intro hik j hj
      by_contra hlt
      have := h.2 j (by omega)
      simp [hj] at this
    · intro hall
      exact hall k h.1

theorem output_eq_some (h : p.output = some i) : p.irr i ∧ p.imr i = false ∧ p.free i := by
  have := (Fin.find?_eq_some_iff.mp h).1
  simpa [and_assoc] using this

theorem output_isSome_iff : p.output.isSome ↔ ∃ i, p.irr i ∧ p.imr i = false ∧ p.free i := by
  rw [output, Fin.isSome_find?_iff]
  simp [and_assoc]

/-! ### Serving as a stack -/

/-- `l` are the inputs in service, the last one first. -/
structure Serves (p : Pic) (l : List (Fin 8)) : Prop where
  sorted : l.Pairwise (· < ·)
  isr : ∀ i, p.isr i ↔ i ∈ l

theorem Serves.of_isr (h : Serves p l) (hq : q.isr = p.isr) : Serves q l :=
  ⟨h.sorted, by rw [hq]; exact h.isr⟩

theorem serves_nil (h : ∀ i, p.isr i = false) : Serves p [] := ⟨.nil, by simp [h]⟩

theorem Serves.acknowledge (h : Serves p l) (hp : p.autoEoi = false) (hi : p.free i) :
    Serves (p.acknowledge i) (i :: l) := by
  rw [free_iff] at hi
  refine ⟨List.pairwise_cons.mpr ⟨fun j hj => hi j ((h.isr j).mpr hj), h.sorted⟩, ?_⟩
  intro j
  by_cases hj : j = i
  · subst hj
    simp [Pic.acknowledge, hp]
  · simp [Pic.acknowledge, hj, h.isr j]

theorem Serves.serving (h : Serves p (i :: l)) : p.serving = some i := by
  obtain ⟨hhead, -⟩ := List.pairwise_cons.mp h.sorted
  refine serving_eq_some_iff.mpr ⟨(h.isr i).mpr List.mem_cons_self, ?_⟩
  intro j hj
  by_contra hne
  have hmem := (h.isr j).mp (by simpa using hne)
  rcases List.mem_cons.mp hmem with rfl | hmem
  · exact absurd hj (lt_irrefl _)
  · exact absurd hj (not_lt.mpr (hhead j hmem).le)

theorem Serves.eoi (h : Serves p (i :: l)) : Serves p.eoi l := by
  obtain ⟨hhead, htail⟩ := List.pairwise_cons.mp h.sorted
  refine ⟨htail, ?_⟩
  intro j
  rw [Pic.eoi, h.serving]
  by_cases hj : j = i
  · subst hj
    have : j ∉ l := fun hm => lt_irrefl _ (hhead j hm)
    simp [this]
  · simp [hj, h.isr j]

end Pic

/-- Two controllers. -/
structure Pics where
  master : Pic
  slave : Pic

namespace Pics

/-- The input of the master that the slave is at. -/
def cascadeLine : Fin 8 := ⟨2, by decide⟩

/-- The input of the master for one of the sixteen lines. -/
def masterInput (line : Fin 16) : Fin 8 := if h : line.val < 8 then ⟨line, h⟩ else cascadeLine

/-- The input of the slave. -/
def slaveInput (line : Fin 16) : Option (Fin 8) :=
  if line.val < 8 then none else some ⟨line.val - 8, by omega⟩

/-- The master with the output of the slave at its input. -/
def wired (p : Pics) : Pic :=
  { p.master with irr := Function.update p.master.irr cascadeLine p.slave.output.isSome }

def raise (line : Fin 16) (p : Pics) : Pics :=
  match slaveInput line with
  | none => { p with master := p.master.raise (masterInput line) }
  | some j => { p with slave := p.slave.raise j }

def requested (p : Pics) (line : Fin 16) : Bool :=
  match slaveInput line with
  | none => p.master.irr (masterInput line)
  | some j => p.slave.irr j

def masked (p : Pics) (line : Fin 16) : Bool :=
  match slaveInput line with
  | none => p.master.imr (masterInput line)
  | some j => p.slave.imr j

/-- The service of a line begins. -/
def accept (line : Fin 16) (p : Pics) : Pics where
  master := p.master.acknowledge (masterInput line)
  slave :=
    match slaveInput line with
    | none => p.slave
    | some j => p.slave.acknowledge j

/-- The processor acknowledges: the vector, and the controllers behind it.  The
slave answers when both were told of the cascade. -/
def acknowledge (p : Pics) : Option (BitVec 8 × Pics) :=
  match p.wired.output with
  | none => none
  | some i =>
    if p.master.cascade.getLsbD i && p.slave.cascade = BitVec.ofNat 8 i then
      p.slave.output.map fun (j : Fin 8) =>
        (p.slave.offset ||| BitVec.ofNat 8 j, ⟨p.master.acknowledge i, p.slave.acknowledge j⟩)
    else some (p.master.offset ||| BitVec.ofNat 8 i, { p with master := p.master.acknowledge i })

/-- Both are ready, with their vectors one behind the other. -/
structure Ready (o : BitVec 8) (p : Pics) : Prop where
  masterData : p.master.data = .mask
  slaveData : p.slave.data = .mask
  masterCascade : p.master.cascade = 4
  slaveCascade : p.slave.cascade = 2
  masterEoi : p.master.autoEoi = false
  slaveEoi : p.slave.autoEoi = false
  masterOffset : p.master.offset = o
  slaveOffset : p.slave.offset = o ||| 8
  /-- Nothing but the slave is at its input. -/
  wire : p.master.irr cascadeLine = false

variable {p q : Pics} {o v : BitVec 8} {line l : Fin 16} {i j : Fin 8}

theorem lines : ∀ line : Fin 16, line ≠ 2 →
    (slaveInput line = none ∧ masterInput line ≠ cascadeLine ∧ (masterInput line).val = line) ∨
      (∃ j, slaveInput line = some j ∧ masterInput line = cascadeLine ∧ 8 + j.val = line) := by
  decide

theorem cascaded_iff : ∀ i : Fin 8,
    ((4 : BitVec 8).getLsbD i && decide ((2 : BitVec 8) = BitVec.ofNat 8 i)) = true ↔
      i = cascadeLine := by
  decide

theorem or_slave : ∀ j : Fin 8, (8 : BitVec 8) ||| BitVec.ofNat 8 j = BitVec.ofNat 8 (8 + j) := by
  decide

/-- A line that may be served now. -/
structure Servable (p : Pics) (line : Fin 16) : Prop where
  requested : p.requested line
  unmasked : p.masked line = false
  masterFree : p.master.free (masterInput line)
  slaveFree : ∀ j, slaveInput line = some j → p.slave.free j

theorem slave_output (h : p.slave.output = some j) :
    ∃ line : Fin 16, line ≠ 2 ∧ slaveInput line = some j ∧ masterInput line = cascadeLine ∧
      8 + j.val = line ∧ p.requested line ∧ p.masked line = false := by
  obtain ⟨hirr, himr, -⟩ := Pic.output_eq_some h
  have hline : ∀ j : Fin 8, ∃ line : Fin 16, line ≠ 2 ∧ slaveInput line = some j ∧
      masterInput line = cascadeLine ∧ 8 + j.val = line := by decide
  obtain ⟨line, h2, hs, hm, hv⟩ := hline j
  exact ⟨line, h2, hs, hm, hv, by simpa [requested, hs] using hirr, by simpa [masked, hs] using himr⟩

/-- **What an acknowledge gives**: the vector of a line that may be served, and
its service begins. -/
theorem acknowledge_spec (h : p.Ready o) (ha : p.acknowledge = some (v, q)) :
    ∃ line : Fin 16, line ≠ 2 ∧ p.Servable line ∧ v = o ||| BitVec.ofNat 8 line ∧
      q = p.accept line := by
  unfold acknowledge at ha
  cases hout : p.wired.output with
  | none => simp [hout] at ha
  | some i =>
    obtain ⟨hirr, himr, hfree⟩ := Pic.output_eq_some hout
    simp only [hout, h.masterCascade, h.slaveCascade, cascaded_iff] at ha
    by_cases hi : i = cascadeLine
    · subst hi
      rw [if_pos rfl, Option.map_eq_some_iff] at ha
      obtain ⟨j, hj, heq⟩ := ha
      obtain ⟨line, h2, hs, hm, hv, hreq, hmask⟩ := slave_output hj
      obtain ⟨rfl, rfl⟩ := Prod.mk.inj heq
      refine ⟨line, h2, ⟨hreq, hmask, hm ▸ hfree, ?_⟩, ?_, ?_⟩
      · intro j' hj'
        rw [hs] at hj'
        obtain rfl := Option.some.inj hj'
        exact (Pic.output_eq_some hj).2.2
      · rw [h.slaveOffset, BitVec.or_assoc, or_slave, hv]
      · simp [accept, hs, hm]
    · rw [if_neg hi] at ha
      obtain ⟨rfl, rfl⟩ := Prod.mk.inj (Option.some.inj ha)
      have hline : ∀ i : Fin 8, i ≠ cascadeLine → ∃ line : Fin 16, line ≠ 2 ∧
          slaveInput line = none ∧ masterInput line = i ∧ line.val = i := by decide
      obtain ⟨line, h2, hs, hm, hv⟩ := hline i hi
      have hirr' : p.master.irr i := by simpa [wired, hi] using hirr
      refine ⟨line, h2, ⟨?_, ?_, hm ▸ hfree, by simp [hs]⟩, ?_, ?_⟩
      · simpa [requested, hs, hm] using hirr'
      · simpa [masked, hs, hm, wired] using himr
      · rw [h.masterOffset, hv]
      · simp [accept, hs, hm]

theorem acknowledge_of_requested (h : p.Ready o) (h2 : line ≠ 2) (hr : p.requested line)
    (hm : ∀ i, p.master.imr i = false ∧ p.master.isr i = false)
    (hs : ∀ j, p.slave.imr j = false ∧ p.slave.isr j = false) :
    ∃ v q, p.acknowledge = some (v, q) := by
  have hmfree : ∀ i, p.wired.free i := fun i => Pic.free_iff.mpr fun j hj => by
    simp [wired, (hm j).2] at hj
  have hsfree : ∀ i, p.slave.free i := fun i => Pic.free_iff.mpr fun j hj => by
    simp [(hs j).2] at hj
  -- some input of the master is up, and the slave answers for its own
  have hout : p.wired.output.isSome := by
    rw [Pic.output_isSome_iff]
    rcases lines line h2 with ⟨hsl, hne, -⟩ | ⟨j, hsl, -, -⟩
    · refine ⟨masterInput line, ?_, (hm _).1, hmfree _⟩
      simpa [wired, hne, requested, hsl] using hr
    · refine ⟨cascadeLine, ?_, (hm _).1, hmfree _⟩
      have : p.slave.output.isSome :=
        Pic.output_isSome_iff.mpr ⟨j, by simpa [requested, hsl] using hr, (hs j).1, hsfree j⟩
      simpa [wired] using this
  obtain ⟨i, hi⟩ := Option.isSome_iff_exists.mp hout
  simp only [acknowledge, hi, h.masterCascade, h.slaveCascade, cascaded_iff]
  by_cases hc : i = cascadeLine
  · subst hc
    have hirr := (Pic.output_eq_some hi).1
    have hslave : p.slave.output.isSome := by simpa [wired] using hirr
    obtain ⟨j, hj⟩ := Option.isSome_iff_exists.mp hslave
    exact ⟨_, _, by rw [if_pos rfl, hj]; rfl⟩
  · exact ⟨_, _, by rw [if_neg hc]⟩

/-! ### Requests -/

theorem slaveInput_injective : ∀ {l line : Fin 16} {j : Fin 8}, slaveInput l = some j →
    slaveInput line = some j → l = line := by
  decide

theorem masterInput_injective : ∀ {l line : Fin 16}, slaveInput l = none → slaveInput line = none →
    masterInput l = masterInput line → l = line := by
  decide

theorem requested_raise (h2 : line ≠ 2) (l : Fin 16) :
    (p.raise line).requested l = (p.requested l || decide (l = line)) := by
  by_cases hl : l = line
  · subst hl
    cases hs : slaveInput l <;> simp [raise, requested, hs, Pic.raise]
  · cases hs : slaveInput line with
    | none =>
      cases hs' : slaveInput l with
      | none =>
        have hne : masterInput l ≠ masterInput line := fun he => hl (masterInput_injective hs' hs he)
        simp [raise, requested, hs, hs', Pic.raise, hne, hl]
      | some j => simp [raise, requested, hs, hs', hl]
    | some k =>
      cases hs' : slaveInput l with
      | none => simp [raise, requested, hs, hs', hl]
      | some j =>
        have hne : j ≠ k := fun he => hl (slaveInput_injective hs' (he ▸ hs))
        simp [raise, requested, hs, hs', Pic.raise, hne, hl]

theorem requested_accept (h2 : line ≠ 2) (hl2 : l ≠ 2) :
    (p.accept line).requested l = (p.requested l && !decide (l = line)) := by
  by_cases hl : l = line
  · subst hl
    cases hs : slaveInput l <;> simp [accept, requested, hs, Pic.acknowledge]
  · cases hs' : slaveInput l with
    | none =>
      have hne : masterInput l ≠ masterInput line := by
        rcases lines line h2 with ⟨hs, -⟩ | ⟨_, -, hm, -⟩
        · exact fun he => hl (masterInput_injective hs' hs he)
        · rcases lines l hl2 with ⟨-, hc, -⟩ | ⟨_, hs, -⟩
          · rwa [hm]
          · simp [hs] at hs'
      simp [accept, requested, hs', Pic.acknowledge, hne, hl]
    | some j =>
      cases hs : slaveInput line with
      | none => simp [accept, requested, hs, hs', hl]
      | some k =>
        have hne : j ≠ k := fun he => hl (slaveInput_injective hs' (he ▸ hs))
        simp [accept, requested, hs, hs', Pic.acknowledge, hne, hl]

theorem isr_raise (p : Pics) (line : Fin 16) :
    (p.raise line).master.isr = p.master.isr ∧ (p.raise line).slave.isr = p.slave.isr := by
  unfold raise
  split <;> exact ⟨rfl, rfl⟩

theorem imr_raise (p : Pics) (line : Fin 16) :
    (p.raise line).master.imr = p.master.imr ∧ (p.raise line).slave.imr = p.slave.imr := by
  unfold raise
  split <;> exact ⟨rfl, rfl⟩

theorem imr_accept (p : Pics) (line : Fin 16) :
    (p.accept line).master.imr = p.master.imr ∧ (p.accept line).slave.imr = p.slave.imr := by
  refine ⟨rfl, ?_⟩
  unfold accept
  split <;> rfl

theorem Ready.raise (h : p.Ready o) (h2 : line ≠ 2) : (p.raise line).Ready o := by
  rcases lines line h2 with ⟨hs, hm, -⟩ | ⟨j, hs, -⟩
  · simp only [Pics.raise, hs]
    exact ⟨h.1, h.2, h.3, h.4, h.5, h.6, h.7, h.8, by simp [Pic.raise, hm.symm, h.wire]⟩
  · simp only [Pics.raise, hs]
    exact ⟨h.1, h.2, h.3, h.4, h.5, h.6, h.7, h.8, h.wire⟩

theorem Ready.accept (h : p.Ready o) (line : Fin 16) : (p.accept line).Ready o := by
  have hwire : (p.accept line).master.irr cascadeLine = false := by
    by_cases hm : cascadeLine = masterInput line
    · simp [Pics.accept, Pic.acknowledge, hm]
    · simp [Pics.accept, Pic.acknowledge, hm, h.wire]
  cases hs : slaveInput line with
  | none => exact ⟨h.1, by simp [Pics.accept, hs, h.2], h.3, by simp [Pics.accept, hs, h.4], h.5,
      by simp [Pics.accept, hs, h.6], h.7, by simp [Pics.accept, hs, h.8], hwire⟩
  | some j => exact ⟨h.1, by simp [Pics.accept, hs, Pic.acknowledge, h.2], h.3,
      by simp [Pics.accept, hs, Pic.acknowledge, h.4], h.5,
      by simp [Pics.accept, hs, Pic.acknowledge, h.6], h.7,
      by simp [Pics.accept, hs, Pic.acknowledge, h.8], hwire⟩

/-! ### Ports -/

/-- `outb` to a port of the controllers. -/
def write (port : BitVec 16) (v : BitVec 8) (p : Pics) : Pics :=
  if port = 0x20 then { p with master := p.master.writeCommand v }
  else if port = 0x21 then { p with master := p.master.writeData v }
  else if port = 0xA0 then { p with slave := p.slave.writeCommand v }
  else if port = 0xA1 then { p with slave := p.slave.writeData v }
  else p

theorem write_masterEoi (p : Pics) : p.write 0x20 0x20 = { p with master := p.master.eoi } := rfl

theorem write_slaveEoi (p : Pics) : p.write 0xA0 0x20 = { p with slave := p.slave.eoi } := rfl

theorem requested_masterEnd (p : Pics) :
    requested { p with master := p.master.eoi } = p.requested := by
  rw [Pic.eoi_eq]
  rfl

theorem requested_slaveEnd (p : Pics) :
    requested { p with slave := p.slave.eoi } = p.requested := by
  rw [Pic.eoi_eq]
  rfl

theorem Ready.masterEnd (h : p.Ready o) : Ready o { p with master := p.master.eoi } := by
  rw [Pic.eoi_eq]
  exact ⟨h.1, h.2, h.3, h.4, h.5, h.6, h.7, h.8, h.9⟩

theorem Ready.slaveEnd (h : p.Ready o) : Ready o { p with slave := p.slave.eoi } := by
  rw [Pic.eoi_eq]
  exact ⟨h.1, h.2, h.3, h.4, h.5, h.6, h.7, h.8, h.9⟩

end Pics
