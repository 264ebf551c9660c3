import ChoOS.Lib.Trace

/-!
# First in, first out

A queue as it is seen from outside: `Passage` is what arrives in a step and what is
served, and `FifoStep` says that the one is put at the end and the other taken from the
front.  Nothing else is said about a step, so any system with a queue has such runs.

`Trace.fifo` is the law for a run, `Trace.served` what it means for one element: it is
served in its turn, and until then it stays in the queue with as many fewer in front of
it as were served.
-/

/-- What a step puts into a queue and takes from it. -/
structure Passage (α : Type*) where
  arrived : List α
  served : List α

variable {α : Type*} {q q' : List α} {p : Passage α} {ps : List (Passage α)} {a : α} {i : ℕ}

/-- One step of a queue. -/
def FifoStep (q : List α) (p : Passage α) (q' : List α) : Prop :=
  q ++ p.arrived = p.served ++ q'

/-- All that were served in a run. -/
def allServed (ps : List (Passage α)) : List α := ps.flatMap Passage.served

@[simp] theorem allServed_nil : allServed ([] : List (Passage α)) = [] := rfl

@[simp] theorem allServed_concat : allServed (ps ++ [p]) = allServed ps ++ p.served := by
  simp [allServed]

/-- **First in, first out.** -/
theorem Trace.fifo (h : Trace FifoStep q ps q') :
    q ++ ps.flatMap Passage.arrived = allServed ps ++ q' := by
  induction h with
  | nil => simp
  | snoc _ hp ih =>
    rw [List.flatMap_append, List.flatMap_singleton, ← List.append_assoc, ih, allServed_concat,
      List.append_assoc, List.append_assoc, hp]

/-- **Everyone is served in turn.** -/
theorem Trace.served (h : Trace FifoStep q ps q') (ha : q[i]? = some a) :
    (allServed ps)[i]? = some a ∨
      (allServed ps).length ≤ i ∧ q'[i - (allServed ps).length]? = some a := by
  have hlt : i < q.length := by
    by_contra hle
    rw [List.getElem?_eq_none (by omega)] at ha
    cases ha
  have hlaw : (allServed ps ++ q')[i]? = some a := by
    rw [← h.fifo, List.getElem?_append_left hlt, ha]
  by_cases hi : i < (allServed ps).length
  · rw [List.getElem?_append_left hi] at hlaw
    exact .inl hlaw
  · rw [List.getElem?_append_right (by omega)] at hlaw
    exact .inr ⟨by omega, hlaw⟩
