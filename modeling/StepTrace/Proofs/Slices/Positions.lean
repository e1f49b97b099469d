import StepTrace.Number.Word
import StepTrace.Progression
import Mathlib.Tactic.Ring

/-!
The positions that a slice selects, as the language defines them: the bounds are brought into the
sequence, and then one goes by steps from the first bound to the second one.
-/

set_option autoImplicit false

namespace StepTrace

/-! ### What the bounds of a slice mean -/

namespace SliceBounds

def stride (b : SliceBounds) : Int := (b.step.map Int64.toInt).getD 1

-- The first and the last place that a bound of a slice of `n` items may mean.
def first (b : SliceBounds) : Int := if b.stride < 0 then -1 else 0

def last (b : SliceBounds) (n : Nat) : Int := if b.stride < 0 then n - 1 else n

-- A bound that is given; negative ones count from the end.
def place (b : SliceBounds) (n : Nat) (bound : Int) : Int :=
  if bound < 0 then max (bound + n) b.first else min bound (b.last n)

def start (b : SliceBounds) (n : Nat) : Int :=
  match b.lower with
  | some l => b.place n l.toInt
  | none => if b.stride < 0 then b.last n else b.first

def stop (b : SliceBounds) (n : Nat) : Int :=
  match b.upper with
  | some u => b.place n u.toInt
  | none => if b.stride < 0 then b.first else b.last n

end SliceBounds

-- From a place one goes by steps as long as the end is not reached.
inductive Visits (step stop : Int) : Int → List Int → Prop
  | reached {i : Int} (past : if 0 < step then stop ≤ i else i ≤ stop) : Visits step stop i []
  | next {i : Int} {is : List Int} (before : if 0 < step then i < stop else stop < i)
    (rest : Visits step stop (i + step) is) : Visits step stop i (i :: is)

namespace Visits

variable {step stop i : Int} {is : List Int}

theorem neg (h : Visits step stop i is) (up : 0 < step) :
    Visits (-step) (-stop) (-i) (is.map (-·)) := by
  have down : ¬ 0 < -step := by omega
  induction h with
  | reached past =>
    rw [if_pos up] at past
    exact .reached (by rw [if_neg down]; omega)
  | @next i is before _ ih =>
    rw [if_pos up] at before
    refine .next (by rw [if_neg down]; omega) ?_
    rwa [← Int.neg_add]

-- Places that follow each other lie between the ends, and none comes twice.
theorem between (h : Visits step stop i is) :
    ∀ j ∈ is, if 0 < step then i ≤ j ∧ j < stop else stop < j ∧ j ≤ i := by
  induction h with
  | reached => exact fun _ never => absurd never List.not_mem_nil
  | @next i is before _ ih =>
    refine List.forall_mem_cons.2 ⟨?_, fun j hj => ?_⟩
    · by_cases up : 0 < step <;> simp only [up, if_true, if_false] at before ⊢ <;> omega
    · have later := ih j hj
      by_cases up : 0 < step <;> simp only [up, if_true, if_false] at later ⊢ <;> omega

theorem nodup (h : Visits step stop i is) (nonzero : step ≠ 0) : is.Nodup := by
  induction h with
  | reached => exact .nil
  | @next i is before rest ih =>
    refine List.nodup_cons.2 ⟨fun again => ?_, ih⟩
    have later := rest.between i again
    split at later <;> omega

end Visits

/-! ### The positions of a slice -/

namespace Slice

-- One step less is left after a step upwards.
theorem countBetween_next {start stop step : Int} (up : 0 < step) (before : start < stop) :
    countBetween start stop step = countBetween (start + step) stop step + 1 := by
  have split : stop - start + step - 1 = stop - (start + step) + step - 1 + 1 * step := by ring
  rw [countBetween, if_pos ⟨up, before⟩, split, Int.add_mul_ediv_right _ _ (by omega)]
  unfold countBetween
  by_cases more : start + step < stop
  · rw [if_pos ⟨up, more⟩]
  · rw [if_neg (by omega), if_neg (by omega), Int.ediv_eq_zero_of_lt (by omega) (by omega)]

theorem countBetween_reached {start stop step : Int} (up : 0 < step) (past : stop ≤ start) :
    countBetween start stop step = 0 := by
  rw [countBetween, if_neg (by omega), if_neg (by omega)]

theorem countBetween_pos {start stop step : Int} (up : 0 < step) (before : start < stop) :
    0 < countBetween start stop step := by
  rw [countBetween, if_pos ⟨up, before⟩]
  exact Int.le_ediv_of_mul_le up (by omega)

theorem countBetween_neg (start stop step : Int) :
    countBetween (-start) (-stop) (-step) = countBetween start stop step := by
  have down : (0 < -step ∧ -start < -stop) ↔ step < 0 ∧ stop < start := by omega
  have up : (-step < 0 ∧ -stop < -start) ↔ 0 < step ∧ start < stop := by omega
  have total : -stop - -start + -step - 1 = start - stop - step - 1 := by omega
  have total' : -start - -stop - -step - 1 = stop - start + step - 1 := by omega
  simp only [countBetween, down, up, total, total', neg_neg]
  by_cases positive : 0 < step ∧ start < stop
  · rw [if_pos positive, if_neg (by omega)]
    simp [positive]
  · simp [positive]

-- The places from `start` by steps, `count` of them.
def places (start step : Int) (count : Nat) : List Int :=
  (List.range count).map fun k : Nat => start + (k : Int) * step

theorem places_succ (start step : Int) (count : Nat) :
    places start step (count + 1) = start :: places (start + step) step count := by
  simp only [places, List.range_succ_eq_map, List.map_cons, List.map_map, List.cons.injEq]
  refine ⟨by simp, List.map_congr_left fun k _ => ?_⟩
  simp only [Function.comp_apply, Nat.cast_succ]
  ring

theorem places_neg (start step : Int) (count : Nat) :
    (places (-start) (-step) count).map (-·) = places start step count := by
  simp only [places, List.map_map]
  refine List.map_congr_left fun k _ => ?_
  simp only [Function.comp_apply]
  ring

theorem visits_up {start stop step : Int} (up : 0 < step) (count : Nat)
    (all : countBetween start stop step = count) :
    Visits step stop start (places start step count) := by
  induction count generalizing start with
  | zero =>
    have past : ¬ start < stop := fun before => by
      have := countBetween_pos up before
      omega
    exact .reached (by rw [if_pos up]; omega)
  | succ count ih =>
    by_cases before : start < stop
    · rw [places_succ]
      have fewer := countBetween_next up before
      exact .next (by rwa [if_pos up]) (ih (by omega))
    · rw [countBetween_reached up (by omega)] at all
      omega

theorem visits {start stop step : Int} (nonzero : step ≠ 0) :
    Visits step stop start (places start step (countBetween start stop step).toNat) := by
  have counted (start stop step : Int) (up : 0 < step) :
      countBetween start stop step = ((countBetween start stop step).toNat : Nat) := by
    by_cases before : start < stop
    · have := countBetween_pos up before
      omega
    · rw [countBetween_reached up (by omega)]
      rfl
  by_cases up : 0 < step
  · exact visits_up up _ (counted start stop step up)
  · have turned := visits_up (by omega) _ (counted (-start) (-stop) (-step) (by omega))
    rw [countBetween_neg] at turned
    simpa [places_neg] using turned.neg (by omega)

end Slice

-- These are the positions that bounds select among `n` items.
structure SliceBounds.Selects (b : SliceBounds) (n : Nat) (indices : List Nat) : Prop where
  visits : Visits b.stride (b.stop n) (b.start n) (indices.map Nat.cast)
  nodup : indices.Nodup
  inside : ∀ i ∈ indices, i < n

namespace SliceBounds

variable (b : SliceBounds) (n : Nat)

theorem place_mem (bound : Int) : b.first ≤ b.place n bound ∧ b.place n bound ≤ b.last n := by
  unfold place first last
  split <;> split <;> omega

theorem start_mem : b.first ≤ b.start n ∧ b.start n ≤ b.last n := by
  unfold start
  split
  · exact b.place_mem n _
  · unfold first last
    split <;> omega

theorem stop_mem : b.first ≤ b.stop n ∧ b.stop n ≤ b.last n := by
  unfold stop
  split
  · exact b.place_mem n _
  · unfold first last
    split <;> omega

-- What is divided by the step to count the positions is not too great.
theorem distance_fits (few : n ≤ 2 ^ 62) (short : b.stride.natAbs ≤ 2 ^ 62) :
    Number.FitsWord ((b.stop n - b.start n).natAbs + b.stride.natAbs - 1) := by
  have hstart := b.start_mem n
  have hstop := b.stop_mem n
  have far : (b.stop n - b.start n).natAbs ≤ n := by
    unfold first last at hstart hstop
    split at hstart <;> rename_i down <;> simp only [down, if_true, if_false] at hstop <;> omega
  unfold Number.FitsWord
  omega

theorem clamp_eq (bound : Int) : Slice.clamp n b.stride bound = b.place n bound := by
  unfold Slice.clamp place first last
  split <;> split <;> split <;> omega

theorem clamp_lower (nonzero : b.stride ≠ 0) :
    (b.lower.map fun l => Slice.clamp n b.stride l.toInt).getD
      (if 0 < b.stride then 0 else n - 1) = b.start n := by
  unfold SliceBounds.start first last
  cases b.lower with
  | some l => exact b.clamp_eq n l.toInt
  | none => simp only [Option.map_none, Option.getD_none]; split <;> split <;> omega

theorem clamp_upper (nonzero : b.stride ≠ 0) :
    (b.upper.map fun u => Slice.clamp n b.stride u.toInt).getD
      (if 0 < b.stride then (n : Int) else -1) = b.stop n := by
  unfold SliceBounds.stop first last
  cases b.upper with
  | some u => exact b.clamp_eq n u.toInt
  | none => simp only [Option.map_none, Option.getD_none]; split <;> split <;> omega

theorem slice_eq (nonzero : b.stride ≠ 0) :
    Slice.of? n b = some ⟨b.start n, b.stride,
      (Slice.countBetween (b.start n) (b.stop n) b.stride).toNat⟩ := by
  rw [← b.clamp_lower n nonzero, ← b.clamp_upper n nonzero]
  unfold Slice.of?
  exact if_neg nonzero

theorem slice_zero (zero : b.stride = 0) : Slice.of? n b = none := if_pos zero

section

variable {b n} {s : Slice} (given : Slice.of? n b = some s)

include given

theorem fields_of_slice : b.stride ≠ 0 ∧ s = ⟨b.start n, b.stride,
    (Slice.countBetween (b.start n) (b.stop n) b.stride).toNat⟩ := by
  have nonzero : b.stride ≠ 0 := fun zero => by simp [b.slice_zero n zero] at given
  rw [b.slice_eq n nonzero, Option.some.injEq] at given
  exact ⟨nonzero, given.symm⟩

theorem visits_places :
    Visits b.stride (b.stop n) (b.start n) (Slice.places s.start s.step s.count) := by
  obtain ⟨nonzero, rfl⟩ := fields_of_slice given
  exact Slice.visits nonzero

theorem place_inside {k : Nat} (hk : k < s.count) :
    0 ≤ s.start + k * s.step ∧ s.start + k * s.step < n := by
  have among : s.start + k * s.step ∈ Slice.places s.start s.step s.count :=
    List.mem_map_of_mem (List.mem_range.2 hk)
  have between := (visits_places given).between _ among
  have hstart := b.start_mem n
  have hstop := b.stop_mem n
  obtain ⟨nonzero, -⟩ := fields_of_slice given
  unfold first last at hstart hstop
  split at between <;> rename_i up
  · rw [if_neg (by omega), if_neg (by omega)] at hstart hstop
    omega
  · rw [if_pos (by omega), if_pos (by omega)] at hstart hstop
    omega

-- The slice that bounds give selects their positions.
theorem selects : b.Selects n s.indices := by
  have casts : s.indices.map Nat.cast = Slice.places s.start s.step s.count := by
    rw [Slice.indices, Slice.places, List.map_map]
    exact List.map_congr_left fun k hk =>
      Int.toNat_of_nonneg (place_inside given (List.mem_range.1 hk)).1
  refine ⟨casts ▸ visits_places given, ?_, fun i hi => ?_⟩
  · have distinct := (visits_places given).nodup (fields_of_slice given).1
    rw [← casts] at distinct
    exact List.Pairwise.of_map Nat.cast (fun _ _ differ same => differ (congrArg _ same)) distinct
  · obtain ⟨k, hk, rfl⟩ := List.mem_map.1 hi
    have := place_inside given (List.mem_range.1 hk)
    omega

end

end SliceBounds

end StepTrace
