import StepTrace.Proofs.Integers.Words
import StepTrace.Proofs.Slices.Operations

/-!
Progressions that programs count with. Their length, their items by place, their members and the
items of an iteration are computed apart from each other, and are those of one list as long as the
distance from start to stop is a word.
-/

set_option autoImplicit false

namespace StepTrace

open Number

-- Places that follow each other by steps lie whole steps apart.
theorem Visits.mem_iff {step stop i : Int} {is : List Int} (h : Visits step stop i is) (j : Int) :
    j ∈ is ↔ (if 0 < step then i ≤ j ∧ j < stop else stop < j ∧ j ≤ i) ∧ step ∣ j - i := by
  induction h with
  | @reached i past =>
    refine iff_of_false List.not_mem_nil fun ⟨between, _⟩ => ?_
    by_cases up : 0 < step <;> simp only [up, if_true, if_false] at past between <;> omega
  | @next i is before _ ih =>
    have apart : step ∣ j - (i + step) ↔ step ∣ j - i := by
      rw [← Int.sub_sub, dvd_sub_self_right]
    have far : step ∣ j - i → j ≠ i → step.natAbs ≤ (j - i).natAbs := fun whole other =>
      Nat.le_of_dvd (by omega) (Int.natAbs_dvd_natAbs.2 whole)
    rw [List.mem_cons, ih, apart]
    by_cases here : j = i
    next =>
      subst here
      refine iff_of_true (.inl rfl) ⟨?_, by simp⟩
      by_cases up : 0 < step <;> simp only [up, if_true, if_false] at before ⊢ <;> omega
    next =>
      rw [or_iff_right here]
      refine and_congr_left fun whole => ?_
      have := far whole here
      by_cases up : 0 < step <;> simp only [up, if_true, if_false] <;> omega

/-- An iteration hands out values and ends, whatever is on the heap meanwhile. -/
inductive Iteration.Yields : Iteration → List Value → Prop
  | done {it : Iteration} (last : ∀ h, it.next? h = none) : Yields it []
  | next {it rest : Iteration} {v : Value} {vs : List Value}
      (step : ∀ h, it.next? h = some (v, rest)) (later : Yields rest vs) : Yields it (v :: vs)

/-- Whether a number is between the ends, the start included. -/
def Progression.inBounds (p : Progression) (n : Int64) : Bool :=
  if 0 < p.step then p.start ≤ n && n < p.stop else n ≤ p.start && p.stop < n

/-! ### Steps in words -/

namespace Words

def span (p : Progression) : Int64 :=
  clampWord (if 0 < p.step then p.stop.toInt - p.start.toInt else p.start.toInt - p.stop.toInt)

/-- The length, computed with numbers of 64 bits without sign. -/
def size? (p : Progression) : Option Nat :=
  let span := (span p).toInt
  let step := p.step.toInt.natAbs
  if span ≤ 0 then some 0
  else if span.natAbs + step < 2 ^ 64 ∧ step ≠ 0 then some ((span.natAbs + step - 1) / step)
  else none

def item? (p : Progression) (i : Nat) : Option (Option Int64) :=
  if i < p.size then do
    let distance ← product? p.step (← ofInt? i)
    return some (← sum? p.start distance)
  else some none

def contains? (p : Progression) (n : Int64) : Option Bool :=
  if p.inBounds n then do
    let distance ← difference? n p.start
    return (← remaining? distance p.step) == 0
  else some false

end Words

namespace Progression

/-- How far the stop is from the start in the direction of the step. -/
def distance (p : Progression) : Int :=
  if 0 < p.step then p.stop.toInt - p.start.toInt else p.start.toInt - p.stop.toInt

/-- The words of a progression, as each way to ask for them gives them; no step leaves the words. -/
structure StandsFor (p : Progression) (ws : List Int64) : Prop where
  visits : Visits p.step.toInt p.stop.toInt p.start.toInt (ws.map Int64.toInt)
  size : p.size = ws.length
  item : ∀ i, p.get? i = ws[i]?
  member : ∀ n, p.contains n = true ↔ n ∈ ws
  iterated : ∀ (h : Heap) (id : ObjId), h.get? id = some (.range p) →
    ∃ it, h.iteration? (.ref id) = some it ∧ it.Yields (ws.map .int) ∧
      (it.toArray h).toList = ws.map .int
  sizeFits : Words.size? p = some p.size
  itemFits : ∀ i, Words.item? p i = some (p.get? i)
  memberFits : ∀ n, Words.contains? p n = some (p.contains n)

variable {p : Progression} {i : Nat} {n : Int64}

/-! ### The length -/

theorem toNat_ceil {d s : Int} (far : 0 < d) (up : 0 < s) :
    ((d + s - 1) / s).toNat = (d.toNat + s.toNat - 1) / s.toNat := by
  obtain ⟨d, rfl⟩ := Int.eq_ofNat_of_zero_le (Int.le_of_lt far)
  obtain ⟨s, rfl⟩ := Int.eq_ofNat_of_zero_le (Int.le_of_lt up)
  have whole : (d : Int) + s - 1 = (d + s - 1 : Nat) := by omega
  rw [whole, ← Int.natCast_ediv, Int.toNat_natCast, Int.toNat_natCast, Int.toNat_natCast]

theorem span_eq_distance (near : p.distance < 2 ^ 63) : p.span = p.distance :=
  Int.min_eq_left (by unfold distance at near; omega)

theorem size_eq_countBetween (nonzero : p.step ≠ 0) (near : p.distance < 2 ^ 63) :
    p.size = (Slice.countBetween p.start.toInt p.stop.toInt p.step.toInt).toNat := by
  have up : 0 < p.step ↔ 0 < p.step.toInt := Int64.lt_iff_toInt_lt
  have other := Words.toInt_ne_zero.1 nonzero
  rw [size, span_eq_distance near, distance]
  simp only [up]
  by_cases positive : 0 < p.step.toInt
  next =>
    have size : p.step.toInt.natAbs = p.step.toInt.toNat := by omega
    rw [if_pos positive, size]
    by_cases none : p.stop.toInt - p.start.toInt ≤ 0
    next => rw [if_pos none, Slice.countBetween_reached positive (by omega), Int.toNat_zero]
    next =>
      rw [if_neg none, Slice.countBetween, if_pos ⟨positive, by omega⟩,
        toNat_ceil (by omega) positive]
  next =>
    have size : p.step.toInt.natAbs = (-p.step.toInt).toNat := by omega
    rw [if_neg positive, size, ← Slice.countBetween_neg]
    by_cases none : p.start.toInt - p.stop.toInt ≤ 0
    next => rw [if_pos none, Slice.countBetween_reached (by omega) (by omega), Int.toNat_zero]
    next =>
      have turned : -p.stop.toInt - -p.start.toInt = p.start.toInt - p.stop.toInt := by omega
      rw [if_neg none, Slice.countBetween, if_pos ⟨by omega, by omega⟩, turned,
        toNat_ceil (by omega) (by omega)]

/-! ### The items -/

-- The items in order, as words.
def words (p : Progression) : List Int64 :=
  (List.range p.size).map fun i => p.start + p.step * Int64.ofNat i

theorem fits_item (inside : i < p.size) : FitsWord (p.item i) := by
  have between := item_before_stop inside
  have start := fits_toInt p.start
  have stop := fits_toInt p.stop
  unfold FitsWord at *
  split at between <;> omega

theorem toInt_item (inside : i < p.size) :
    (p.start + p.step * Int64.ofNat i).toInt = p.item i := by
  rw [← ofInt_item, toInt_ofInt_of_fits (fits_item inside)]

theorem map_toInt_words (p : Progression) :
    p.words.map Int64.toInt = Slice.places p.start.toInt p.step.toInt p.size := by
  rw [words, List.map_map, Slice.places]
  refine List.map_congr_left fun i member => ?_
  rw [Function.comp_apply, toInt_item (List.mem_range.1 member), item, Int.mul_comm]

theorem visits_words (nonzero : p.step ≠ 0) (near : p.distance < 2 ^ 63) :
    Visits p.step.toInt p.stop.toInt p.start.toInt (p.words.map Int64.toInt) := by
  rw [map_toInt_words, size_eq_countBetween nonzero near]
  exact Slice.visits (Words.toInt_ne_zero.1 nonzero)

theorem get?_eq_getElem? (p : Progression) (i : Nat) : p.get? i = p.words[i]? := by
  rw [get?, words]
  by_cases inside : i < p.size <;> simp [inside]

theorem yields_words (start step : Int64) (count : Nat) :
    (Iteration.progression start step count).Yields
      (((List.range count).map fun i => start + step * Int64.ofNat i).map .int) := by
  induction count generalizing start with
  | zero => exact .done fun _ => rfl
  | succ count ih =>
    have later : ∀ i, start + step + step * Int64.ofNat i = start + step * Int64.ofNat (i + 1) := by
      intro i
      rw [Int64.ofNat_add, Int64.mul_add, Int64.add_assoc, Int64.add_comm step]
      exact congrArg (fun one => start + (step * Int64.ofNat i + one)) (Int64.mul_one step).symm
    have first : start + step * Int64.ofNat 0 = start := by simp
    rw [List.range_succ_eq_map, List.map_cons, List.map_cons, List.map_map, first]
    refine .next (fun _ => rfl) ?_
    simpa only [List.map_map, Function.comp_def, later] using ih (start + step)

/-! ### The members -/

theorem contains_eq (p : Progression) (n : Int64) :
    p.contains n = (p.inBounds n && (n - p.start) % p.step == 0) := rfl

theorem inBounds_iff :
    p.inBounds n = true ↔
      if 0 < p.step.toInt then p.start.toInt ≤ n.toInt ∧ n.toInt < p.stop.toInt
      else p.stop.toInt < n.toInt ∧ n.toInt ≤ p.start.toInt := by
  have up : 0 < p.step ↔ 0 < p.step.toInt := Int64.lt_iff_toInt_lt
  unfold inBounds
  simp only [up]
  split
  next => simp [Int64.le_iff_toInt_le, Int64.lt_iff_toInt_lt]
  next => simp [Int64.le_iff_toInt_le, Int64.lt_iff_toInt_lt, And.comm]

theorem natAbs_lt_of_inBounds (near : p.distance < 2 ^ 63) (within : p.inBounds n = true) :
    (n.toInt - p.start.toInt).natAbs < 2 ^ 63 := by
  have up : 0 < p.step ↔ 0 < p.step.toInt := Int64.lt_iff_toInt_lt
  simp only [distance, up] at near
  rw [inBounds_iff] at within
  split at within <;> rename_i up <;> simp only [up, if_true, if_false] at near <;> omega

theorem difference?_of_inBounds (near : p.distance < 2 ^ 63) (within : p.inBounds n = true) :
    Words.difference? n p.start = some (n - p.start) := by
  have small := natAbs_lt_of_inBounds near within
  refine Words.difference?_of_fits ?_
  unfold FitsWord
  omega

theorem toInt_sub_of_inBounds (near : p.distance < 2 ^ 63) (within : p.inBounds n = true) :
    (n - p.start).toInt = n.toInt - p.start.toInt :=
  ofInt?_eq_some_iff.1 (difference?_of_inBounds near within)

theorem contains_iff (near : p.distance < 2 ^ 63) :
    p.contains n = true ↔ p.inBounds n = true ∧ p.step.toInt ∣ n.toInt - p.start.toInt := by
  rw [contains_eq, Bool.and_eq_true]
  refine and_congr_right fun within => ?_
  rw [beq_iff_eq, ← Int64.toInt_inj, Int64.toInt_mod, toInt_sub_of_inBounds near within,
    Int.dvd_iff_tmod_eq_zero]
  rfl

theorem contains_iff_mem (nonzero : p.step ≠ 0) (near : p.distance < 2 ^ 63) :
    p.contains n = true ↔ n ∈ p.words := by
  rw [contains_iff near, ← List.mem_map_of_injective (fun _ _ => Int64.toInt_inj.1),
    (visits_words nonzero near).mem_iff, inBounds_iff]

/-! ### Steps in words -/

theorem size?_eq_size (nonzero : p.step ≠ 0) : Words.size? p = some p.size := by
  have step := fits_toInt p.step
  have other := Words.toInt_ne_zero.1 nonzero
  have value := clampWord_toInt p.distance
  change (Words.span p).toInt = _ at value
  have span : p.span = min p.distance (2 ^ 63 - 1) := rfl
  unfold FitsWord at step
  unfold Words.size? size
  dsimp only
  split
  next none =>
    rw [if_pos (by omega)]
  next some =>
    have same : p.span = (Words.span p).toInt := by omega
    have abs : p.span.toNat = (Words.span p).toInt.natAbs := by omega
    rw [if_pos ⟨by omega, by omega⟩, if_neg (by omega), abs]

theorem item?_eq_get? (near : p.distance < 2 ^ 63) (i : Nat) :
    Words.item? p i = some (p.get? i) := by
  unfold Words.item? get?
  split
  next inside =>
    -- the way from the start to the item is shorter than the distance
    have way : (p.step.toInt * i).natAbs < 2 ^ 63 := by
      have up : 0 < p.step ↔ 0 < p.step.toInt := Int64.lt_iff_toInt_lt
      have between := item_before_stop inside
      simp only [distance, up] at near
      unfold item at between
      split at between <;> rename_i up <;> simp only [up, if_true, if_false] at near <;> omega
    have few : i < 2 ^ 63 := by
      have other := Int.natAbs_pos.2 (step_ne_zero inside)
      rw [Int.natAbs_mul, Int.natAbs_natCast] at way
      exact Nat.lt_of_le_of_lt (Nat.le_mul_of_pos_left i other) way
    have place : (Int64.ofNat i).toInt = i := Int64.toInt_ofNat_of_lt few
    have index : ofInt? (i : Int) = some (Int64.ofNat i) := ofInt?_eq_some_iff.2 place
    have product : Words.product? p.step (Int64.ofNat i) = some (p.step * Int64.ofNat i) := by
      refine Words.product?_of_fits ?_
      rw [place]
      unfold FitsWord
      omega
    have sum : Words.sum? p.start (p.step * Int64.ofNat i) =
        some (p.start + p.step * Int64.ofNat i) := by
      refine Words.sum?_of_fits ?_
      rw [ofInt?_eq_some_iff.1 product, place]
      exact fits_item inside
    simp [index, product, sum]
  next => rfl

theorem contains?_eq_contains (nonzero : p.step ≠ 0) (near : p.distance < 2 ^ 63) (n : Int64) :
    Words.contains? p n = some (p.contains n) := by
  rw [Words.contains?, contains_eq]
  cases within : p.inBounds n with
  | false => rfl
  | true =>
    have difference := difference?_of_inBounds near within
    have small : (n - p.start).toInt.natAbs < 2 ^ 63 := by
      rw [toInt_sub_of_inBounds near within]
      exact natAbs_lt_of_inBounds near within
    simp [difference, Words.remaining?, Words.divided?_of_small nonzero small]

end Progression

/-! ### One meaning -/

/--
The words of a progression are `start`, `start + step` and so on strictly before `stop`, and they
are what its length, its items by place, its members and iterations tell of.
-/
theorem ranges_have_one_meaning (p : Progression) (nonzero : p.step ≠ 0)
    (near : p.distance < 2 ^ 63) : ∃ ws, p.StandsFor ws := by
  refine ⟨p.words, ?_⟩
  constructor
  case visits => exact p.visits_words nonzero near
  case size => simp [Progression.words]
  case item => exact p.get?_eq_getElem?
  case member => exact fun _ => Progression.contains_iff_mem nonzero near
  case iterated =>
    intro h id found
    refine ⟨.progression p.start p.step p.size, ?_, Progression.yields_words .., ?_⟩
    · simp [Heap.iteration?, found]
    · exact p.toList_values.trans (by simp [Progression.words])
  case sizeFits => exact Progression.size?_eq_size nonzero
  case itemFits => exact Progression.item?_eq_get? near
  case memberFits => exact Progression.contains?_eq_contains nonzero near

-- A progression whose ends are as far apart as they may be.
theorem ranges_have_one_meaning_far :
    let p : Progression := ⟨-5, 0x7ffffffffffffffa, 0x4000000000000000⟩
    p.step ≠ 0 ∧ p.distance < 2 ^ 63 ∧
      ∃ ws, p.StandsFor ws ∧ ws.length = 2 ∧ ws[1]? = some 0x3ffffffffffffffb := by
  intro p
  obtain ⟨ws, meaning⟩ := ranges_have_one_meaning p (by decide) (by decide)
  refine ⟨by decide, by decide, ws, meaning, ?_, ?_⟩
  · rw [← meaning.size]
    decide
  · rw [← meaning.item]
    decide

-- Over a greater distance items are lost that are counted as members.
theorem far_ranges_lose_items :
    let p : Progression := ⟨-0x8000000000000000, 0x7fffffffffffffff, 0x7fffffffffffffff⟩
    Visits p.step.toInt p.stop.toInt p.start.toInt
        [-0x8000000000000000, -1, 0x7ffffffffffffffe] ∧
      p.size = 1 ∧ p.contains (-1) = true ∧ ¬ ∃ ws, p.StandsFor ws := by
  intro p
  have size : p.size = 1 := by decide
  have member : p.contains (-1) = true := by decide
  refine ⟨?_, size, member, ?_⟩
  · refine .next (by decide) (.next (by decide) (.next (by decide) (.reached (by decide))))
  · rintro ⟨ws, meaning⟩
    have one : ws.length = 1 := meaning.size.symm.trans size
    obtain ⟨w, rfl⟩ := List.length_eq_one_iff.1 one
    have first : p.get? 0 = some w := meaning.item 0
    have last : -1 = w := List.mem_singleton.1 ((meaning.member (-1)).1 member)
    rw [← last] at first
    revert first
    decide

end StepTrace
