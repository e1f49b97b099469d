import StepTrace.Eval.Item
import StepTrace.Proofs.Slices.Positions
import Mathlib.Tactic.Positivity

/-!
What slices do to items: the selected ones are read, left out, or replaced. A slice of a progression
is the progression of the selected items.
-/

set_option autoImplicit false

namespace StepTrace

/-! ### Reading -/

-- The items at some positions, in the order of the positions.
def ItemsAt {α : Type} (items : List α) (indices : List Nat) (picked : List α) : Prop :=
  indices.map (items[·]?) = picked.map some

theorem itemsAt_filterMap {α : Type} {items : List α} {indices : List Nat}
    (inside : ∀ i ∈ indices, i < items.length) :
    ItemsAt items indices (indices.filterMap (items[·]?)) := by
  unfold ItemsAt
  induction indices with
  | nil => rfl
  | cons i rest ih =>
    obtain ⟨here, inside⟩ := List.forall_mem_cons.1 inside
    have found : items[i]? = some items[i] := List.getElem?_eq_getElem here
    rw [List.filterMap_cons_some found, List.map_cons, List.map_cons, ih inside, found]

theorem Slice.itemsAt_select {α : Type} {s : Slice} {items : Array α}
    (inside : ∀ i ∈ s.indices, i < items.size) :
    ItemsAt items.toList s.indices (s.select items).toList := by
  have among : ∀ i ∈ s.indices, i < items.toList.length := by simpa using inside
  simpa [Slice.select] using itemsAt_filterMap among

/-! ### Leaving out -/

-- The items that are not at some positions.
def without {α : Type} (items : List α) (indices : List Nat) : List α :=
  (items.zipIdx.filter fun p => p.2 ∉ indices).map Prod.fst

theorem getElem?_marked (indices : List Nat) (kept : Array Bool) (j : Nat) :
    (indices.foldl (fun kept i => kept.setIfInBounds i false) kept)[j]? =
      kept[j]?.map (· && decide (j ∉ indices)) := by
  induction indices generalizing kept with
  | nil => simp
  | cons i rest ih =>
    rw [List.foldl_cons, ih, Array.getElem?_setIfInBounds]
    by_cases same : i = j
    · subst same
      by_cases inside : i < kept.size <;> simp [inside]
    · simp [same, Ne.symm same]

theorem filterMap_kept (p : Nat → Bool) (marked : List (Value × Nat)) :
    (marked.filterMap fun e => if p e.2 then some e.1 else none) =
      (marked.filter fun e => p e.2).map Prod.fst := by
  induction marked with
  | nil => rfl
  | cons e rest ih => by_cases keep : p e.2 <;> simp [keep, ih]

theorem Slice.toList_remove (s : Slice) (items : Array Value) :
    (s.remove items).toList = without items.toList s.indices := by
  have kept : (s.indices.foldl (fun kept i => kept.setIfInBounds i false)
      (Array.replicate items.size true)).toList =
      (List.range' 0 items.size).map fun j => decide (j ∉ s.indices) := by
    refine List.ext_getElem? fun j => ?_
    rw [Array.getElem?_toList, getElem?_marked, Array.getElem?_replicate, List.getElem?_map]
    by_cases inside : j < items.size <;> simp [inside]
  unfold Slice.remove without
  rw [Array.toList_filterMap, Array.toList_zip, kept, List.zip_map_right, List.filterMap_map,
    List.zipIdx_eq_zip_range', Array.length_toList]
  exact filterMap_kept (fun j => decide (j ∉ s.indices)) _

/-! ### Replacing -/

-- What is written when items at some positions are replaced one by one.
structure Replaced (indices : List Nat) (new items written : List Value) : Prop where
  length : written.length = items.length
  there : ItemsAt written indices new
  elsewhere : ∀ j, j ∉ indices → written[j]? = items[j]?

theorem replaced_zip {indices : List Nat} {new : List Value} {items : Array Value}
    (distinct : indices.Nodup) (inside : ∀ i ∈ indices, i < items.size)
    (fits : new.length = indices.length) :
    Replaced indices new items.toList
      ((indices.zip new).foldl (fun items (i, v) => items.setIfInBounds i v) items).toList := by
  induction indices generalizing new items with
  | nil =>
    obtain rfl : new = [] := List.length_eq_zero_iff.1 fits
    exact ⟨rfl, rfl, fun _ _ => rfl⟩
  | cons i rest ih =>
    obtain ⟨v, new, rfl⟩ := List.exists_cons_of_length_eq_add_one fits
    obtain ⟨fresh, distinct⟩ := List.nodup_cons.1 distinct
    obtain ⟨here, inside⟩ := List.forall_mem_cons.1 inside
    obtain ⟨length, there, elsewhere⟩ := @ih new (items.setIfInBounds i v) distinct
      (by simpa using inside) (by simpa using fits)
    rw [List.zip_cons_cons, List.foldl_cons]
    refine ⟨by simpa using length, ?_, fun j hj => ?_⟩
    · have first := elsewhere i fresh
      have put : (items.setIfInBounds i v).toList[i]? = some v := by simp [here]
      rw [put] at first
      exact List.cons_eq_cons.2 ⟨first, there⟩
    · simp only [List.mem_cons, not_or] at hj
      obtain ⟨differ, hj⟩ := hj
      rw [elsewhere j hj, Array.getElem?_toList, Array.getElem?_toList,
        Array.getElem?_setIfInBounds_ne (Ne.symm differ)]

theorem Slice.replaced {s : Slice} {items new : Array Value} (distinct : s.indices.Nodup)
    (inside : ∀ i ∈ s.indices, i < items.size) (fits : new.size = s.indices.length) :
    Replaced s.indices new.toList items.toList (s.replace items new).toList :=
  replaced_zip distinct inside fits

/-! ### Splicing -/

theorem Slice.indices_of_step_one {s : Slice} (one : s.step = 1) (positive : 0 ≤ s.start) :
    s.indices = List.range' s.start.toNat s.count := by
  rw [Slice.indices, one, List.range'_eq_map_range]
  exact List.map_congr_left fun k _ => by omega

-- What is written when the items at some positions, one after the other from `start`, are replaced
-- as a whole.
def Spliced (start : Nat) (indices : List Nat) (new items written : List Value) : Prop :=
  ∃ before segment after, items = before ++ segment ++ after ∧ before.length = start ∧
    indices = List.range' start segment.length ∧ written = before ++ new ++ after

theorem Slice.spliced {s : Slice} {items : Array Value} (one : s.step = 1)
    (positive : 0 ≤ s.start) (start : s.start ≤ items.size)
    (inside : ∀ i ∈ s.indices, i < items.size) (new : Array Value) :
    Spliced s.start.toNat s.indices new.toList items.toList
      (StepTrace.spliced items s.start.toNat s.count new).toList := by
  have indices := indices_of_step_one one positive
  have room : s.start.toNat + s.count ≤ items.size := by
    cases none : s.count with
    | zero => omega
    | succ k =>
      have last : s.start.toNat + k ∈ s.indices := by
        rw [indices, none, List.mem_range']
        exact ⟨k, by omega, by omega⟩
      have := inside _ last
      omega
  refine ⟨items.toList.take s.start.toNat, (items.toList.drop s.start.toNat).take s.count,
    items.toList.drop (s.start.toNat + s.count), ?_, ?_, ?_, ?_⟩
  · rw [List.append_assoc, ← List.drop_drop, List.take_append_drop, List.take_append_drop]
  · rw [List.length_take, Array.length_toList]
    omega
  · rw [indices, List.length_take, List.length_drop, Array.length_toList]
    congr 1
    omega
  · have rest (k : Nat) : (items.toList.drop k).take (items.size - k) = items.toList.drop k :=
      List.take_of_length_le (by simp)
    simp [StepTrace.spliced, List.extract_eq_take_drop, rest]

/-! ### Progressions -/

-- Numbers whose products with each other fit into a word.
def HalfWord (n : Int) : Prop := n.natAbs < 2 ^ 31

namespace Progression

structure Short (p : Progression) : Prop where
  start : HalfWord p.start.toInt
  stop : HalfWord p.stop.toInt
  step : HalfWord p.step.toInt

-- The items as a program sees them.
def values (p : Progression) : Array Value :=
  Array.ofFn fun i : Fin p.size => .int (p.start + p.step * Int64.ofNat i)

theorem toList_values (p : Progression) :
    p.values.toList = (List.range p.size).map fun i => .int (p.start + p.step * Int64.ofNat i) := by
  refine List.ext_getElem? fun i => ?_
  by_cases inside : i < p.size <;> simp [values, inside]

-- The item at a place as a number, before it is put into a word.
def item (p : Progression) (i : Int) : Int := p.start.toInt + p.step.toInt * i

theorem ofInt_item (p : Progression) (i : Nat) :
    Int64.ofInt (p.item i) = p.start + p.step * Int64.ofNat i := by
  rw [item, Int64.ofInt_add, Int64.ofInt_mul, Int64.ofInt_toInt, Int64.ofInt_toInt,
    Int64.ofInt_eq_ofNat]

theorem mul_lt_of_lt_ceil {i span step : Nat} (h : i < (span + step - 1) / step) :
    i * step < span := by
  have positive : 0 < step := Nat.pos_of_ne_zero fun zero => by simp [zero] at h
  have room := (Nat.le_div_iff_mul_le positive).1 h
  rw [Nat.succ_mul] at room
  omega

-- The items lie between the ends.
theorem item_before_stop {p : Progression} {i : Nat} (inside : i < p.size) :
    if 0 < p.step.toInt then p.start.toInt ≤ p.item i ∧ p.item i < p.stop.toInt
    else p.stop.toInt < p.item i ∧ p.item i ≤ p.start.toInt := by
  have up : 0 < p.step ↔ 0 < p.step.toInt := Int64.lt_iff_toInt_lt
  have reached : (i * p.step.toInt.natAbs : Nat) < p.span := by
    unfold size at inside
    split at inside
    · omega
    · have := mul_lt_of_lt_ceil inside
      omega
  rw [Nat.cast_mul] at reached
  unfold span at reached
  simp only [up] at reached
  unfold item
  split
  · next positive =>
    have size : (p.step.toInt.natAbs : Int) = p.step.toInt := by omega
    have forward : 0 ≤ p.step.toInt * i := by positivity
    rw [if_pos positive, size, Int.mul_comm] at reached
    omega
  · next negative =>
    have size : (p.step.toInt.natAbs : Int) = -p.step.toInt := by omega
    have back : p.step.toInt * i ≤ 0 := Int.mul_nonpos_of_nonpos_of_nonneg (by omega) (by omega)
    rw [if_neg negative, size, Int.mul_comm, Int.neg_mul] at reached
    omega

theorem short_item {p : Progression} (short : p.Short) {i : Nat} (inside : i < p.size) :
    HalfWord (p.item i) := by
  obtain ⟨hstart, hstop, -⟩ := short
  unfold HalfWord at hstart hstop ⊢
  have between := item_before_stop inside
  split at between <;> omega

-- A progression that stops `count` steps after its start has that many items.
theorem size_of_stop {q : Progression} {count : Nat} (nonzero : q.step.toInt ≠ 0)
    (stop : q.stop.toInt = q.start.toInt + q.step.toInt * count)
    (fits : (q.step.toInt * count).natAbs < 2 ^ 63) : q.size = count := by
  have up : 0 < q.step ↔ 0 < q.step.toInt := Int64.lt_iff_toInt_lt
  have span : q.span = (q.step.toInt * count).natAbs := by
    unfold Progression.span
    simp only [up, stop]
    by_cases positive : 0 < q.step.toInt
    · have forward : 0 ≤ q.step.toInt * count := by positivity
      rw [if_pos positive]
      omega
    · have back : q.step.toInt * count ≤ 0 :=
        Int.mul_nonpos_of_nonpos_of_nonneg (by omega) (by omega)
      rw [if_neg positive]
      omega
  have steps : 0 < q.step.toInt.natAbs := by omega
  rw [Int.natAbs_mul, Int.natAbs_natCast] at span
  unfold size
  rw [span, Int.toNat_natCast]
  by_cases none : count = 0
  · simp [none]
  · have some : 0 < q.step.toInt.natAbs * count := Nat.mul_pos steps (by omega)
    rw [if_neg (by omega), Nat.add_sub_assoc steps, Nat.mul_add_div steps,
      Nat.div_eq_of_lt (by omega), Nat.add_zero]

-- The progression that a slice makes of one.
def sliced (p : Progression) (s : Slice) : Progression :=
  let step := p.step * Int64.ofInt s.step
  let start := p.start + Int64.ofInt s.start * p.step
  ⟨start, start + step * Int64.ofNat s.count, step⟩

theorem step_ne_zero {p : Progression} {i : Nat} (inside : i < p.size) : p.step.toInt ≠ 0 := by
  intro zero
  simp [size, zero] at inside

theorem ofInt_sliced_start (p : Progression) (s : Slice) :
    (p.sliced s).start = Int64.ofInt (p.item s.start) := by
  rw [item, Int64.ofInt_add, Int64.ofInt_mul, Int64.ofInt_toInt, Int64.ofInt_toInt, Int64.mul_comm]
  rfl

theorem ofInt_sliced_step (p : Progression) (s : Slice) :
    (p.sliced s).step = Int64.ofInt (p.step.toInt * s.step) := by
  rw [Int64.ofInt_mul, Int64.ofInt_toInt]
  rfl

theorem ofInt_sliced_stop (p : Progression) (s : Slice) :
    (p.sliced s).stop = Int64.ofInt (p.item s.start + p.step.toInt * s.step * s.count) := by
  rw [Int64.ofInt_add, Int64.ofInt_mul, ← ofInt_sliced_start, ← ofInt_sliced_step,
    Int64.ofInt_eq_ofNat]
  rfl

section

variable {p : Progression} {s : Slice}
  (inside : ∀ k : Nat, k < s.count → 0 ≤ s.start + k * s.step ∧ s.start + k * s.step < p.size)

include inside

theorem size_sliced (short : p.Short) (shortStep : HalfWord s.step) (nonzero : s.step ≠ 0) :
    (p.sliced s).size = s.count := by
  cases count : s.count with
  | zero =>
    have same : (p.sliced s).stop = (p.sliced s).start := by simp [sliced, count]
    simp [size, span, same]
  | succ k =>
    have item_inside (i : Nat) (hi : i ≤ k) : HalfWord (p.item (s.start + i * s.step)) := by
      obtain ⟨positive, lt⟩ := inside i (by omega)
      have here := short_item short (i := (s.start + i * s.step).toNat) (by omega)
      rwa [Int.toNat_of_nonneg positive] at here
    have first := item_inside 0 (Nat.zero_le k)
    have last := item_inside k (Nat.le_refl k)
    have lastItem : p.item (s.start + k * s.step) =
        p.item s.start + p.step.toInt * s.step * k := by
      unfold item
      ring
    have product : (p.step.toInt * s.step).natAbs < 2 ^ 31 * 2 ^ 31 := by
      rw [Int.natAbs_mul]
      exact Nat.mul_lt_mul'' short.step shortStep
    have whole : p.step.toInt * s.step * (k + 1 : Nat) =
        p.step.toInt * s.step * k + p.step.toInt * s.step := by
      rw [Nat.cast_succ]
      ring
    rw [Nat.cast_zero, Int.zero_mul, Int.add_zero] at first
    rw [lastItem] at last
    unfold HalfWord at first last
    have start : (p.sliced s).start.toInt = p.item s.start := by
      rw [ofInt_sliced_start, Int64.toInt_ofInt_of_le (by omega) (by omega)]
    have step : (p.sliced s).step.toInt = p.step.toInt * s.step := by
      rw [ofInt_sliced_step, Int64.toInt_ofInt_of_le (by omega) (by omega)]
    have stop : (p.sliced s).stop.toInt =
        p.item s.start + p.step.toInt * s.step * (k + 1 : Nat) := by
      rw [ofInt_sliced_stop, count, Int64.toInt_ofInt_of_le (by omega) (by omega)]
    obtain ⟨positive, lt⟩ := inside 0 (by omega)
    have forward : p.step.toInt ≠ 0 := step_ne_zero (i := (s.start + (0 : Nat) * s.step).toNat)
      (by omega)
    refine size_of_stop ?_ ?_ ?_
    · rw [step]
      exact Int.mul_ne_zero forward nonzero
    · rw [stop, start, step]
    · rw [step]
      omega

theorem values_sliced (sizes : (p.sliced s).size = s.count) :
    ItemsAt p.values.toList s.indices (p.sliced s).values.toList := by
  have item_at (k : Nat) (hk : k < s.count) :
      (p.sliced s).start + (p.sliced s).step * Int64.ofNat k =
        p.start + p.step * Int64.ofNat (s.start + k * s.step).toNat := by
    obtain ⟨positive, -⟩ := inside k hk
    have old := p.ofInt_item (s.start + k * s.step).toNat
    rw [Int.toNat_of_nonneg positive] at old
    rw [← old, ofInt_sliced_start, ofInt_sliced_step, ← Int64.ofInt_eq_ofNat, ← Int64.ofInt_mul,
      ← Int64.ofInt_add]
    congr 1
    unfold item
    ring
  rw [ItemsAt, toList_values, toList_values, sizes, Slice.indices, List.map_map, List.map_map]
  refine List.map_congr_left fun k hk => ?_
  have hk := List.mem_range.1 hk
  obtain ⟨positive, lt⟩ := inside k hk
  have here : (s.start + k * s.step).toNat < p.size := by omega
  simp [here, item_at k hk]

end

end Progression

end StepTrace
