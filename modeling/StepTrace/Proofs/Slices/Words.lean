import StepTrace.Proofs.Integers.Words
import StepTrace.Proofs.Slices.Operations

/-!
The positions of a slice, computed step by step. The bounds never leave the words on the way, and
neither do the positions; the step is added to the way from the first bound to the second one before
the positions are counted, and that sum has to be a word.
-/

set_option autoImplicit false

namespace StepTrace

open Number

/-! ### Steps in words -/

namespace Words

/-- A bound brought into a sequence; a negative one is added to the length, as far as words go. -/
def clamp? (len step bound : Int64) : Option Int64 :=
  if bound < 0 then
    let adjusted := clampWord (bound.toInt + len.toInt)
    some (if adjusted < 0 then (if step < 0 then -1 else 0) else adjusted)
  else if len ≤ bound then
    if step < 0 then difference? len 1 else some len
  else some bound

def start? (len step : Int64) (lower : Option Int64) : Option Int64 :=
  match lower with
  | some l => clamp? len step l
  | none => if 0 < step then some 0 else difference? len 1

def stop? (len step : Int64) (upper : Option Int64) : Option Int64 :=
  match upper with
  | some u => clamp? len step u
  | none => some (if 0 < step then len else -1)

def count? (start stop step : Int64) : Option Int64 :=
  if 0 < step ∧ start < stop then do
    let raised ← sum? (← difference? stop start) step
    divided? (← difference? raised 1) step
  else if step < 0 ∧ stop < start then do
    let raised ← difference? (← difference? start stop) step
    divided? (← difference? raised 1) (← opposite? step)
  else some 0

/-- The slice that bounds select, which is none for a zero step. -/
def slice? (len : Int64) (b : SliceBounds) : Option (Option Slice) :=
  let step := b.step.getD 1
  if step = 0 then some none
  else do
    let start ← start? len step b.lower
    let stop ← stop? len step b.upper
    let count ← count? start stop step
    if count < 0 then none else some (some ⟨start.toInt, step.toInt, count.toInt.toNat⟩)

/-- The position of a slice at a place in it. -/
def position? (s : Slice) (k : Nat) : Option Nat := do
  let way ← product? (← ofInt? k) (← ofInt? s.step)
  let position ← sum? (← ofInt? s.start) way
  if position < 0 then none else some position.toInt.toNat

/-- The progression of the items that a slice selects. -/
def sliced? (p : Progression) (s : Slice) : Option Progression := do
  let start ← sum? p.start (← product? (← ofInt? s.start) p.step)
  let step ← product? p.step (← ofInt? s.step)
  let stop ← sum? start (← product? step (← ofInt? s.count))
  return ⟨start, stop, step⟩

end Words

/-! ### Counting -/

namespace Slice

/-- The way from one bound to the other, in the direction of the step. -/
def ahead (start stop step : Int) : Int := if 0 < step then stop - start else start - stop

/-- The sum of the way and the step is a word, or there is nothing to count. -/
def HasRoom (start stop step : Int) : Prop :=
  ahead start stop step ≤ 0 ∨ ahead start stop step + step.natAbs < 2 ^ 63

theorem countBetween_nonneg (start stop step : Int) : 0 ≤ countBetween start stop step := by
  unfold countBetween
  split
  next forward => exact Int.ediv_nonneg (by omega) (by omega)
  next =>
    split
    next backward => exact Int.ediv_nonneg (by omega) (by omega)
    next => exact Int.le_refl 0

end Slice

namespace Words

variable {len start stop step : Int64}

-- A quotient of numbers that are not negative is at most the dividend.
theorem exists_divided? (total divisor : Int64) (dividend : 0 ≤ total.toInt)
    (positive : 0 < divisor.toInt) :
    ∃ w, divided? total divisor = some w ∧ w.toInt = total.toInt / divisor.toInt := by
  have small := fits_toInt total
  have least := Int.ediv_nonneg dividend (Int.le_of_lt positive)
  have most := Int.ediv_le_self divisor.toInt dividend
  have other : divisor ≠ 0 := toInt_ne_zero.2 (by omega)
  rw [divided?, if_neg other, Int.tdiv_eq_ediv_of_nonneg dividend]
  refine exists_ofInt? ?_
  unfold FitsWord at *
  omega

theorem exists_count? (near : Slice.ahead start.toInt stop.toInt step.toInt < 2 ^ 63)
    (room : Slice.HasRoom start.toInt stop.toInt step.toInt) :
    ∃ w, count? start stop step = some w ∧
      w.toInt = Slice.countBetween start.toInt stop.toInt step.toInt := by
  rw [count?, Slice.countBetween]
  simp only [Int64.lt_iff_toInt_lt, Int64.toInt_zero]
  unfold Slice.HasRoom at room
  unfold Slice.ahead at near room
  by_cases forward : 0 < step.toInt ∧ start.toInt < stop.toInt
  next =>
    rw [if_pos forward, if_pos forward]
    rw [if_pos forward.1] at near room
    obtain ⟨way, subtracted, wayIs⟩ := exists_ofInt? (n := stop.toInt - start.toInt)
      ⟨by omega, by omega⟩
    obtain ⟨raised, added, raisedIs⟩ := exists_ofInt? (n := way.toInt + step.toInt)
      ⟨by omega, by omega⟩
    obtain ⟨total, lowered, totalIs⟩ := exists_ofInt? (n := raised.toInt - 1) ⟨by omega, by omega⟩
    obtain ⟨w, divided, quotient⟩ := exists_divided? total step (by omega) forward.1
    refine ⟨w, ?_, by rw [quotient, totalIs, raisedIs, wayIs]⟩
    simp [difference?, sum?, subtracted, added, lowered, divided]
  next =>
  rw [if_neg forward, if_neg forward]
  by_cases backward : step.toInt < 0 ∧ stop.toInt < start.toInt
  next =>
    rw [if_pos backward, if_pos backward]
    rw [if_neg (by omega)] at near room
    obtain ⟨way, subtracted, wayIs⟩ := exists_ofInt? (n := start.toInt - stop.toInt)
      ⟨by omega, by omega⟩
    obtain ⟨raised, added, raisedIs⟩ := exists_ofInt? (n := way.toInt - step.toInt)
      ⟨by omega, by omega⟩
    obtain ⟨total, lowered, totalIs⟩ := exists_ofInt? (n := raised.toInt - 1) ⟨by omega, by omega⟩
    obtain ⟨size, turned, sizeIs⟩ := exists_ofInt? (n := -step.toInt) ⟨by omega, by omega⟩
    obtain ⟨w, divided, quotient⟩ := exists_divided? total size (by omega) (by omega)
    refine ⟨w, ?_, by rw [quotient, totalIs, raisedIs, wayIs, sizeIs]⟩
    simp [difference?, opposite?, subtracted, added, lowered, turned, divided]
  next =>
    rw [if_neg backward, if_neg backward]
    exact ⟨0, rfl, rfl⟩

-- Without room the sum of the way and the step leaves the words, and nothing is counted.
theorem count?_eq_none (near : Slice.ahead start.toInt stop.toInt step.toInt < 2 ^ 63)
    (full : ¬ Slice.HasRoom start.toInt stop.toInt step.toInt) : count? start stop step = none := by
  rw [count?]
  simp only [Int64.lt_iff_toInt_lt, Int64.toInt_zero]
  unfold Slice.HasRoom at full
  unfold Slice.ahead at near full
  by_cases up : 0 < step.toInt
  next =>
    rw [if_pos up] at near full
    rw [if_pos ⟨up, by omega⟩]
    obtain ⟨way, subtracted, wayIs⟩ := exists_ofInt? (n := stop.toInt - start.toInt)
      ⟨by omega, by omega⟩
    have outside : ofInt? (way.toInt + step.toInt) = none :=
      ofInt?_eq_none_iff.2 fun fits => by have := fits.2; omega
    simp [difference?, sum?, subtracted, outside]
  next =>
    rw [if_neg up] at near full
    rw [if_neg fun forward => up forward.1, if_pos ⟨by omega, by omega⟩]
    obtain ⟨way, subtracted, wayIs⟩ := exists_ofInt? (n := start.toInt - stop.toInt)
      ⟨by omega, by omega⟩
    have outside : ofInt? (way.toInt - step.toInt) = none :=
      ofInt?_eq_none_iff.2 fun fits => by have := fits.2; omega
    simp [difference?, subtracted, outside]

/-! ### The bounds -/

-- For a length that is not negative.
variable (sequence : 0 ≤ len.toInt)

include sequence

theorem exists_clamp? (bound : Int64) :
    ∃ w, clamp? len step bound = some w ∧
      w.toInt = Slice.clamp len.toInt step.toInt bound.toInt := by
  have word := fits_toInt bound
  have length := fits_toInt len
  unfold FitsWord at word length
  rw [clamp?, Slice.clamp]
  simp only [Int64.lt_iff_toInt_lt, Int64.le_iff_toInt_le, Int64.toInt_zero]
  split
  next =>
    have inside : (clampWord (bound.toInt + len.toInt)).toInt = bound.toInt + len.toInt := by
      have := clampWord_toInt (bound.toInt + len.toInt)
      omega
    rw [inside]
    split
    next => split <;> exact ⟨_, rfl, rfl⟩
    next => exact ⟨_, rfl, inside⟩
  next =>
    split
    next =>
      split
      next =>
        rw [difference?, Int64.toInt_one]
        exact exists_ofInt? ⟨by omega, by omega⟩
      next => exact ⟨_, rfl, rfl⟩
    next => exact ⟨_, rfl, rfl⟩

theorem exists_start? (step : Int64) (lower : Option Int64) :
    ∃ w, start? len step lower = some w ∧
      w.toInt = (lower.map fun l => Slice.clamp len.toInt step.toInt l.toInt).getD
        (if 0 < step.toInt then 0 else len.toInt - 1) := by
  cases lower with
  | some l => exact exists_clamp? sequence l
  | none =>
    have length := fits_toInt len
    unfold FitsWord at length
    rw [start?]
    simp only [Int64.lt_iff_toInt_lt, Int64.toInt_zero]
    split
    next => exact ⟨_, rfl, rfl⟩
    next =>
      rw [difference?, Int64.toInt_one]
      exact exists_ofInt? ⟨by omega, by omega⟩

theorem exists_stop? (step : Int64) (upper : Option Int64) :
    ∃ w, stop? len step upper = some w ∧
      w.toInt = (upper.map fun u => Slice.clamp len.toInt step.toInt u.toInt).getD
        (if 0 < step.toInt then len.toInt else -1) := by
  cases upper with
  | some u => exact exists_clamp? sequence u
  | none =>
    rw [stop?]
    simp only [Int64.lt_iff_toInt_lt, Int64.toInt_zero]
    split <;> exact ⟨_, rfl, rfl⟩

end Words

/-! ### Slices -/

namespace SliceBounds

/-- What bounds select among `n` items can be counted in words. -/
def HasRoom (b : SliceBounds) (n : Nat) : Prop := Slice.HasRoom (b.start n) (b.stop n) b.stride

section

variable {b : SliceBounds} {n : Nat} {s : Slice} (given : Slice.of? n b = some s)

include given

theorem count_le : s.count ≤ n := by
  have selects := selects given
  have among : s.indices ⊆ List.range n := fun i hi => List.mem_range.2 (selects.inside i hi)
  have fewer := (List.subperm_of_subset selects.nodup among).length_le
  simpa [Slice.indices] using fewer

theorem start_edges : -1 ≤ s.start ∧ s.start ≤ n := by
  obtain ⟨-, fields⟩ := fields_of_slice given
  have start : s.start = b.start n := by rw [fields]
  have edges := b.start_mem n
  unfold first last at edges
  split at edges <;> omega

-- The positions of a slice by single steps are a segment.
theorem segment_inside (one : s.step = 1) : 0 ≤ s.start ∧ s.start + s.count ≤ n := by
  obtain ⟨-, fields⟩ := fields_of_slice given
  have start : s.start = b.start n := by rw [fields]
  have stride : s.step = b.stride := by rw [fields]
  have edges := b.start_mem n
  rw [first, last, if_neg (by omega), if_neg (by omega), ← start] at edges
  cases count : s.count with
  | zero => omega
  | succ k =>
    have last := place_inside given (k := k) (by omega)
    rw [one] at last
    omega

end

end SliceBounds

namespace Words

variable {len : Int64} {n : Nat} {b : SliceBounds} {s : Slice}

theorem toInt_step (b : SliceBounds) : (b.step.getD 1).toInt = b.stride := by
  rw [SliceBounds.stride]
  cases b.step <;> rfl

theorem ahead_le (b : SliceBounds) (n : Nat) :
    Slice.ahead (b.start n) (b.stop n) b.stride ≤ n := by
  have hstart := b.start_mem n
  have hstop := b.stop_mem n
  unfold SliceBounds.first SliceBounds.last at hstart hstop
  unfold Slice.ahead
  split at hstart <;> rename_i down <;> simp only [down, if_true, if_false] at hstop <;> split <;>
    omega

-- The count is all that may be missing.
theorem slice?_eq (length : len.toInt = n) (nonzero : b.stride ≠ 0) :
    ∃ start stop, start.toInt = b.start n ∧ stop.toInt = b.stop n ∧
      slice? len b = (count? start stop (b.step.getD 1)).bind fun count =>
        if count < 0 then none else some (some ⟨b.start n, b.stride, count.toInt.toNat⟩) := by
  have step := toInt_step b
  have other : b.step.getD 1 ≠ 0 := toInt_ne_zero.2 (step ▸ nonzero)
  have natural : 0 ≤ len.toInt := length ▸ Int.natCast_nonneg n
  obtain ⟨start, first, startIs⟩ := exists_start? natural (b.step.getD 1) b.lower
  obtain ⟨stop, last, stopIs⟩ := exists_stop? natural (b.step.getD 1) b.upper
  rw [step, length, b.clamp_lower n nonzero] at startIs
  rw [step, length, b.clamp_upper n nonzero] at stopIs
  refine ⟨start, stop, startIs, stopIs, ?_⟩
  rw [slice?, if_neg other, first, last, ← startIs, ← step]
  rfl

theorem slice?_of_room (length : len.toInt = n) (nonzero : b.stride ≠ 0) (room : b.HasRoom n) :
    slice? len b = some (Slice.of? n b) := by
  obtain ⟨start, stop, startIs, stopIs, computed⟩ := slice?_eq length nonzero
  have near := ahead_le b n
  have word := fits_toInt len
  unfold FitsWord at word
  rw [SliceBounds.HasRoom, ← startIs, ← stopIs, ← toInt_step] at room
  rw [← startIs, ← stopIs, ← toInt_step] at near
  obtain ⟨count, counted, countIs⟩ := exists_count? (by omega) room
  have natural := Slice.countBetween_nonneg start.toInt stop.toInt (b.step.getD 1).toInt
  have notBelow : ¬ count < 0 := by
    rw [Int64.lt_iff_toInt_lt, Int64.toInt_zero]
    omega
  rw [computed, counted, Option.bind_some, if_neg notBelow, b.slice_eq n nonzero, countIs, startIs,
    stopIs, toInt_step]

theorem slice?_eq_none (length : len.toInt = n) (nonzero : b.stride ≠ 0) (full : ¬ b.HasRoom n) :
    slice? len b = none := by
  obtain ⟨start, stop, startIs, stopIs, computed⟩ := slice?_eq length nonzero
  have near := ahead_le b n
  have word := fits_toInt len
  unfold FitsWord at word
  rw [SliceBounds.HasRoom, ← startIs, ← stopIs, ← toInt_step] at full
  rw [← startIs, ← stopIs, ← toInt_step] at near
  rw [computed, count?_eq_none (by omega) full, Option.bind_none]

theorem position?_eq (few : n < 2 ^ 63) (given : Slice.of? n b = some s) {k : Nat}
    (hk : k < s.count) : position? s k = s.indices[k]? := by
  obtain ⟨low, high⟩ := SliceBounds.place_inside given hk
  have stepIs := toInt_step b
  have count := SliceBounds.count_le given
  have edges := SliceBounds.start_edges given
  obtain ⟨-, fields⟩ := SliceBounds.fields_of_slice given
  have strideIs : s.step = b.stride := by rw [fields]
  obtain ⟨start, first, startIs⟩ := exists_ofInt? (n := s.start) ⟨by omega, by omega⟩
  obtain ⟨place, index, placeIs⟩ := exists_ofInt? (n := (k : Int)) ⟨by omega, by omega⟩
  obtain ⟨way, multiplied, wayIs⟩ := exists_ofInt? (n := place.toInt * (b.step.getD 1).toInt)
    ⟨by rw [placeIs, stepIs, ← strideIs]; omega, by rw [placeIs, stepIs, ← strideIs]; omega⟩
  rw [placeIs, stepIs, ← strideIs] at wayIs
  obtain ⟨position, added, positionIs⟩ := exists_ofInt? (n := start.toInt + way.toInt)
    ⟨by omega, by omega⟩
  rw [startIs, wayIs] at positionIs
  have notBelow : ¬ position < 0 := by
    rw [Int64.lt_iff_toInt_lt, Int64.toInt_zero]
    omega
  have step : ofInt? s.step = some (b.step.getD 1) := by rw [strideIs, ← stepIs, ofInt?_toInt]
  have there : s.indices[k]? = some position.toInt.toNat := by
    rw [positionIs]
    simp [Slice.indices, hk]
  rw [there]
  simp only [position?, product?, sum?, first, index, step, multiplied, added, notBelow, if_false,
    Option.bind_eq_bind, Option.bind_some]

/-! ### Slices of progressions -/

-- The items next to the ends, where a slice of nothing may start.
theorem item_near {p : Progression} (short : p.Short) {i : Int} (low : -1 ≤ i) (high : i ≤ p.size) :
    (p.item i).natAbs < 2 ^ 32 := by
  have inside (j : Nat) (hj : j < p.size) := Progression.short_item short hj
  obtain ⟨hstart, hstop, hstep⟩ := short
  unfold HalfWord Progression.item at *
  by_cases before : i = -1
  next =>
    rw [before, Int.mul_neg_one]
    omega
  next =>
  obtain ⟨j, rfl⟩ := Int.eq_ofNat_of_zero_le (a := i) (by omega)
  cases j with
  | zero => simp only [Nat.cast_zero, Int.mul_zero]; omega
  | succ j =>
    have previous := inside j (by omega)
    rw [Nat.cast_succ, Int.mul_add, Int.mul_one]
    omega

theorem size_le {p : Progression} (short : p.Short) : p.size ≤ 2 ^ 32 := by
  cases size : p.size with
  | zero => exact Nat.zero_le _
  | succ i =>
    have inside : i < p.size := by omega
    have last := Progression.short_item short inside
    have start := short.start
    have other := Int.natAbs_pos.2 (Progression.step_ne_zero inside)
    unfold HalfWord Progression.item at *
    have way : (p.step.toInt * i).natAbs < 2 ^ 32 := by omega
    rw [Int.natAbs_mul, Int.natAbs_natCast] at way
    have := Nat.le_mul_of_pos_left i other
    omega

-- A step beyond the last of the selected items is not far either.
theorem covered_near {p : Progression} (given : Slice.of? p.size b = some s) (short : p.Short)
    (factor : (p.step.toInt * s.step).natAbs < 2 ^ 31 * 2 ^ 31) :
    (p.step.toInt * s.step * s.count).natAbs < 2 ^ 62 + 2 ^ 33 := by
  have edges := SliceBounds.start_edges given
  have first := item_near short edges.1 edges.2
  cases count : s.count with
  | zero => simp
  | succ k =>
    obtain ⟨low, high⟩ := SliceBounds.place_inside given (k := k) (by omega)
    have last := item_near short (Int.le_trans (by decide) low) (Int.le_of_lt high)
    have lastItem : p.item (s.start + k * s.step) =
        p.item s.start + p.step.toInt * s.step * k := by
      unfold Progression.item
      ring
    rw [lastItem] at last
    rw [Nat.cast_succ, Int.mul_add, Int.mul_one]
    omega

theorem sliced?_eq {p : Progression} (given : Slice.of? p.size b = some s) (short : p.Short)
    (shortStep : HalfWord b.stride) : sliced? p s = some (p.sliced s) := by
  obtain ⟨-, fields⟩ := SliceBounds.fields_of_slice given
  have strideIs : s.step = b.stride := by rw [fields]
  have edges := SliceBounds.start_edges given
  have first := item_near short edges.1 edges.2
  have factor : (p.step.toInt * s.step).natAbs < 2 ^ 31 * 2 ^ 31 := by
    rw [Int.natAbs_mul, strideIs]
    exact Nat.mul_lt_mul'' short.step shortStep
  have covers := covered_near given short factor
  have size := size_le short
  have few := SliceBounds.count_le given
  have halfStart := short.start
  unfold HalfWord at halfStart shortStep
  unfold Progression.item at first
  have startIs := toInt_ofInt_of_fits (n := s.start) ⟨by omega, by omega⟩
  have stepIs := toInt_ofInt_of_fits (n := s.step) ⟨by omega, by omega⟩
  have countIs := toInt_ofInt_of_fits (n := (s.count : Int)) ⟨by omega, by omega⟩
  have moved : product? (Int64.ofInt s.start) p.step = some (Int64.ofInt s.start * p.step) := by
    refine product?_of_fits ?_
    rw [startIs, Int.mul_comm]
    exact ⟨by omega, by omega⟩
  have start : sum? p.start (Int64.ofInt s.start * p.step) =
      some (p.start + Int64.ofInt s.start * p.step) := by
    refine sum?_of_fits ?_
    rw [ofInt?_eq_some_iff.1 moved, startIs, Int.mul_comm]
    exact ⟨by omega, by omega⟩
  have step : product? p.step (Int64.ofInt s.step) = some (p.step * Int64.ofInt s.step) := by
    refine product?_of_fits ?_
    rw [stepIs]
    exact ⟨by omega, by omega⟩
  have covered : product? (p.step * Int64.ofInt s.step) (Int64.ofInt s.count) =
      some (p.step * Int64.ofInt s.step * Int64.ofInt s.count) := by
    refine product?_of_fits ?_
    rw [ofInt?_eq_some_iff.1 step, stepIs, countIs]
    exact ⟨by omega, by omega⟩
  have stop : sum? (p.start + Int64.ofInt s.start * p.step)
      (p.step * Int64.ofInt s.step * Int64.ofInt s.count) =
        some (p.start + Int64.ofInt s.start * p.step +
          p.step * Int64.ofInt s.step * Int64.ofInt s.count) := by
    refine sum?_of_fits ?_
    rw [ofInt?_eq_some_iff.1 start, ofInt?_eq_some_iff.1 moved, ofInt?_eq_some_iff.1 covered,
      ofInt?_eq_some_iff.1 step, startIs, stepIs, countIs, Int.mul_comm s.start]
    exact ⟨by omega, by omega⟩
  simp only [sliced?, ofInt?_of_fits (n := s.start) ⟨by omega, by omega⟩,
    ofInt?_of_fits (n := s.step) ⟨by omega, by omega⟩,
    ofInt?_of_fits (n := (s.count : Int)) ⟨by omega, by omega⟩, moved, start, step, covered, stop,
    Option.bind_eq_bind, Option.bind_some]
  rfl

end Words

/-! ### What fits -/

/-- A slice is computed in words: its bounds, its count and its positions, which are inside. -/
structure SliceBounds.Computed (b : SliceBounds) (len : Int64) (n : Nat) (s : Slice) : Prop where
  slice : Words.slice? len b = some (some s)
  given : Slice.of? n b = some s
  count : s.count ≤ n
  positions : ∀ k < s.count, Words.position? s k = s.indices[k]?
  inside : ∀ i ∈ s.indices, i < n
  segment : s.step = 1 → 0 ≤ s.start ∧ s.start + s.count ≤ n
  range : ∀ p : Progression, p.size = n → p.Short → HalfWord b.stride →
    Words.sliced? p s = some (p.sliced s)

/--
A slice is computed without leaving the words if its positions can be counted in words, and only
then.
-/
theorem slices_stay_in_words {len : Int64} {n : Nat} {b : SliceBounds} (length : len.toInt = n)
    (nonzero : b.stride ≠ 0) :
    (b.HasRoom n → ∃ s, b.Computed len n s) ∧ (¬ b.HasRoom n → Words.slice? len b = none) := by
  refine ⟨fun room => ?_, Words.slice?_eq_none length nonzero⟩
  have few : n < 2 ^ 63 := by
    have := (fits_toInt len).2
    omega
  obtain ⟨s, given⟩ : ∃ s, Slice.of? n b = some s := ⟨_, b.slice_eq n nonzero⟩
  refine ⟨s, ?_⟩
  constructor
  case slice => rw [Words.slice?_of_room length nonzero room, given]
  case given => exact given
  case count => exact SliceBounds.count_le given
  case positions => exact fun k hk => Words.position?_eq few given hk
  case inside => exact (SliceBounds.selects given).inside
  case segment => exact SliceBounds.segment_inside given
  case range =>
    rintro p rfl short shortStep
    exact Words.sliced?_eq given short shortStep

-- As great a step as there is room for.
theorem slices_stay_in_words_far :
    let b : SliceBounds := ⟨none, none, some 0x7ffffffffffffffc⟩
    (3 : Int64).toInt = (3 : Nat) ∧ b.stride ≠ 0 ∧ b.HasRoom 3 ∧
      ∃ s, b.Computed 3 3 s ∧ s.indices = [0] := by
  intro b
  have room : b.HasRoom 3 := .inr (by decide)
  have length : (3 : Int64).toInt = (3 : Nat) := rfl
  obtain ⟨s, computed⟩ := (slices_stay_in_words length (by decide)).1 room
  have first : (Slice.of? 3 b).map Slice.indices = some [0] := by decide
  rw [computed.given] at first
  exact ⟨length, by decide, room, s, computed, Option.some.inj first⟩

-- With the greatest step the sum leaves the words, though only the first position is selected. The
-- step of a progression that is sliced wraps round, and the selected item is lost.
theorem great_steps_leave_words :
    let b : SliceBounds := ⟨none, none, some 0x7fffffffffffffff⟩
    let p : Progression := ⟨0, 0x7fffffffffffffff, 0x4000000000000000⟩
    let s : Slice := ⟨0, 4, 1⟩
    (b.stride ≠ 0 ∧ Words.slice? 3 b = none ∧ (Slice.of? 3 b).map Slice.indices = some [0]) ∧
      Slice.of? p.size ⟨none, none, some 4⟩ = some s ∧ Words.sliced? p s = none ∧
      (p.sliced s).size = 0 := by
  decide

end StepTrace
