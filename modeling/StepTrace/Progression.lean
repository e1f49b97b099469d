import StepTrace.Value

/-!
Arithmetic progressions of 64-bit integers, and the positions that a slice selects.
-/

set_option autoImplicit false

namespace StepTrace

/-- `start`, `start + step`, … strictly before `stop` in the direction of the step. -/
structure Progression where
  start : Int64
  stop : Int64
  step : Int64
deriving DecidableEq, Repr

namespace Progression

/-- The distance to cover, at most the greatest 64-bit integer. -/
def span (p : Progression) : Int :=
  let distance := if 0 < p.step then p.stop.toInt - p.start.toInt else p.start.toInt - p.stop.toInt
  min distance (0x8000000000000000 - 1)

/-- How many items there are. -/
def size (p : Progression) : Nat :=
  if p.span ≤ 0 then 0
  else (p.span.toNat + p.step.toInt.natAbs - 1) / p.step.toInt.natAbs

/-- The item at a place. -/
def get? (p : Progression) (i : Nat) : Option Int64 :=
  if i < p.size then some (p.start + p.step * Int64.ofNat i) else none

def contains (p : Progression) (n : Int64) : Bool :=
  (if 0 < p.step then p.start ≤ n && n < p.stop else n ≤ p.start && p.stop < n) &&
    (n - p.start) % p.step == 0

/-- The items in order. -/
def toList (p : Progression) : List Int64 :=
  (List.range p.size).filterMap p.get?

/-- Whether two progressions have the same items. -/
def same (p q : Progression) : Bool :=
  p.size == q.size && (p.size == 0 || (p.start == q.start && p.get? 1 == q.get? 1))

end Progression

/-- The bounds of a slice, where they are given. -/
structure SliceBounds where
  lower : Option Int64
  upper : Option Int64
  step : Option Int64
deriving DecidableEq, Repr

/-- The positions `start`, `start + step`, … of a slice, `count` of them. -/
structure Slice where
  start : Int
  step : Int
  count : Nat
deriving DecidableEq, Repr

namespace Slice

/-- A bound brought into a sequence of length `n`; negative ones count from the end. -/
def clamp (n step bound : Int) : Int :=
  if bound < 0 then
    if bound + n < 0 then (if step < 0 then -1 else 0) else bound + n
  else if n ≤ bound then (if step < 0 then n - 1 else n)
  else bound

/-- How many steps fit between two bounds. -/
def countBetween (start stop step : Int) : Int :=
  if 0 < step ∧ start < stop then (stop - start + step - 1) / step
  else if step < 0 ∧ stop < start then (start - stop - step - 1) / -step
  else 0

/-- The positions that bounds select in a sequence of length `n`; a zero step selects none. -/
def of? (n : Nat) (b : SliceBounds) : Option Slice :=
  let step := (b.step.map Int64.toInt).getD 1
  if step = 0 then none
  else
    let start := (b.lower.map fun l => clamp n step l.toInt).getD (if 0 < step then 0 else n - 1)
    let stop := (b.upper.map fun u => clamp n step u.toInt).getD (if 0 < step then n else -1)
    some ⟨start, step, (countBetween start stop step).toNat⟩

/-- The selected positions, in the order of the slice. -/
def indices (s : Slice) : List Nat :=
  (List.range s.count).map fun k : Nat => (s.start + (k : Int) * s.step).toNat

end Slice

/-- The place that an index means in a sequence of length `n`; negative ones count from the end. -/
def position? (n : Nat) (i : Int64) : Option Nat :=
  let i : Int := if i < 0 then i.toInt + n else i.toInt
  if 0 ≤ i ∧ i < n then some i.toNat else none

theorem position?_lt {n : Nat} {i : Int64} {p : Nat} (h : position? n i = some p) : p < n := by
  unfold position? at h
  dsimp only at h
  generalize (if i < 0 then i.toInt + n else i.toInt) = j at h
  by_cases hj : 0 ≤ j ∧ j < n
  · rw [if_pos hj, Option.some.injEq] at h
    omega
  · simp [hj] at h

end StepTrace
