import Mathlib.Data.Nat.Sqrt
import StepTrace.Eval.Builtin
import StepTrace.Proofs.Integers.Words

/-!
Square roots corrected from an estimate. One loop lowers the root while its square is above the
number, and another one raises it while the next square is not. A square beyond the words counts as
the greatest word. This is above every number but one: for the greatest word itself no square counts
as above it, so its root is never lowered, and it is raised without end.
-/

set_option autoImplicit false

namespace StepTrace

open Number

/-! ### The loops -/

namespace Arithmetic

variable {n : Nat}

theorem cappedSquare_le_iff (inner : n < 0x7fffffffffffffff) (r : Nat) :
    cappedSquare r ≤ n ↔ r * r ≤ n := by
  unfold cappedSquare
  omega

theorem cappedSquare_le (r : Nat) : cappedSquare r ≤ 0x7fffffffffffffff := Nat.min_le_right ..

theorem lowerRoot_eq (inner : n < 0x7fffffffffffffff) (estimate : Nat) :
    lowerRoot n estimate = min estimate n.sqrt := by
  induction estimate with
  | zero => exact (Nat.zero_min _).symm
  | succ r ih =>
    have kept : cappedSquare (r + 1) ≤ n ↔ r + 1 ≤ n.sqrt := by
      rw [cappedSquare_le_iff inner, Nat.le_sqrt]
    rw [lowerRoot, ih]
    split <;> omega

end Arithmetic

namespace Interp

variable {n : Nat}

theorem raiseRoot_eq (inner : n < 0x7fffffffffffffff) {fuel root : Nat} (low : root ≤ n.sqrt)
    (enough : n.sqrt < root + fuel) : raiseRoot n fuel root = pure n.sqrt := by
  induction fuel generalizing root with
  | zero => omega
  | succ fuel ih =>
    have raised : Arithmetic.cappedSquare (root + 1) ≤ n ↔ root + 1 ≤ n.sqrt := by
      rw [Arithmetic.cappedSquare_le_iff inner, Nat.le_sqrt]
    rw [raiseRoot]
    split
    next more => exact ih (raised.1 more) (by omega)
    next last =>
      obtain rfl : root = n.sqrt := by omega
      rfl

theorem correctedRoot_eq (inner : n < 0x7fffffffffffffff) (estimate : Nat) {r : Interp}
    (enough : 0x100000000 ≤ r.fuel) : r.correctedRoot n estimate = pure n.sqrt := by
  have small : n.sqrt < 0x100000000 := Nat.sqrt_lt.2 (by omega)
  rw [correctedRoot, Arithmetic.lowerRoot_eq inner]
  exact raiseRoot_eq inner (Nat.min_le_right ..) (by omega)

theorem raiseRoot_endless (fuel root : Nat) :
    raiseRoot 0x7fffffffffffffff fuel root = Run.outOfFuel := by
  induction fuel generalizing root with
  | zero => rfl
  | succ fuel ih => rw [raiseRoot, if_pos (Arithmetic.cappedSquare_le _), ih]

end Interp

/-! ### Step by step -/

namespace Words

/-- A square, or the greatest word if that is less. -/
def cappedSquare (root : Int64) : Int64 := clampWord (root.toInt * root.toInt)

/-- The root lowered while its square is above `n`; nothing comes out if a step is no word. -/
def lowerRoot? (n : Int64) : (steps : Nat) → (root : Int64) → Option Int64
  | 0, _ => none
  | steps + 1, root =>
    if n < cappedSquare root then (difference? root 1).bind (lowerRoot? n steps) else some root

/-- The root raised while the square of the next one is not above `n`. -/
def raiseRoot? (n : Int64) : (steps : Nat) → (root : Int64) → Option Int64
  | 0, _ => none
  | steps + 1, root =>
    (sum? root 1).bind fun next =>
      if cappedSquare next ≤ n then raiseRoot? n steps next else some root

/-- The root corrected from an estimate, if neither loop takes more steps than that. -/
def correctedRoot? (n : Int64) (steps : Nat) (estimate : Int64) : Option Int64 :=
  (lowerRoot? n steps estimate).bind (raiseRoot? n steps)

section

variable {n root : Int64} {k r steps : Nat}

theorem cappedSquare_le_iff (number : n.toInt = k) (value : root.toInt = r) :
    cappedSquare root ≤ n ↔ Arithmetic.cappedSquare r ≤ k := by
  have square : (r : Int) * r = (r * r : Nat) := (Int.natCast_mul ..).symm
  rw [Int64.le_iff_toInt_le, cappedSquare, clampWord_toInt, number, value, square,
    Arithmetic.cappedSquare]
  omega

theorem exists_lowerRoot? (number : n.toInt = k) (value : root.toInt = r) (enough : r < steps) :
    ∃ w, lowerRoot? n steps root = some w ∧ w.toInt = Arithmetic.lowerRoot k r := by
  induction r generalizing root steps with
  | zero =>
    obtain ⟨steps, rfl⟩ := Nat.exists_eq_add_one.2 enough
    have kept : cappedSquare root ≤ n := (cappedSquare_le_iff number value).2 (Nat.zero_le k)
    exact ⟨root, if_neg (Int64.not_lt.2 kept), value⟩
  | succ r ih =>
    obtain ⟨steps, rfl⟩ := Nat.exists_eq_add_one.2 (Nat.zero_lt_of_lt enough)
    have kept := cappedSquare_le_iff number value
    rw [lowerRoot?, Arithmetic.lowerRoot]
    by_cases above : k < Arithmetic.cappedSquare (r + 1)
    next =>
      have word := fits_toInt root
      have one : (1 : Int64).toInt = 1 := rfl
      unfold FitsWord at word
      obtain ⟨w, made, lower⟩ : ∃ w, difference? root 1 = some w ∧ w.toInt = root.toInt - 1 :=
        exists_ofInt? ⟨by omega, by omega⟩
      rw [if_pos above, if_pos (Int64.not_le.1 (mt kept.1 (Nat.not_le.2 above))), made]
      exact ih (by omega) (Nat.lt_of_succ_lt_succ enough)
    next =>
      rw [if_neg above, if_neg (Int64.not_lt.2 (kept.2 (Nat.le_of_not_lt above)))]
      exact ⟨root, rfl, value⟩

theorem exists_raiseRoot? (number : n.toInt = k) (inner : k < 0x7fffffffffffffff)
    (value : root.toInt = r) (low : r ≤ k.sqrt) (enough : k.sqrt < r + steps) :
    ∃ w, raiseRoot? n steps root = some w ∧ w.toInt = k.sqrt := by
  induction steps generalizing root r with
  | zero => omega
  | succ steps ih =>
    have one : (1 : Int64).toInt = 1 := rfl
    have small := Nat.sqrt_le_self k
    obtain ⟨next, made, raised⟩ : ∃ w, sum? root 1 = some w ∧ w.toInt = root.toInt + 1 :=
      exists_ofInt? ⟨by omega, by omega⟩
    have value' : next.toInt = (r + 1 : Nat) := by omega
    have more : cappedSquare next ≤ n ↔ r + 1 ≤ k.sqrt := by
      rw [cappedSquare_le_iff number value', Arithmetic.cappedSquare_le_iff inner, Nat.le_sqrt]
    rw [raiseRoot?, made, Option.bind_some]
    split
    next raise => exact ih value' (more.1 raise) (by omega)
    next last =>
      have high := mt more.2 last
      obtain rfl : r = k.sqrt := by omega
      exact ⟨root, rfl, value⟩

theorem exists_correctedRoot? (steps : Nat) (number : n.toInt = k) (inner : k < 0x7fffffffffffffff)
    (value : root.toInt = r) (below : r < steps) (enough : k.sqrt < steps) :
    ∃ w, correctedRoot? n steps root = some w ∧ w.toInt = k.sqrt := by
  obtain ⟨w, lowered, value⟩ := exists_lowerRoot? number value below
  rw [Arithmetic.lowerRoot_eq inner] at value
  rw [correctedRoot?, lowered]
  exact exists_raiseRoot? number inner value (Nat.min_le_right ..) (by omega)

-- No word is greater than the greatest, so the root goes up until it is no word.
theorem raiseRoot?_endless (steps : Nat) (root : Int64) :
    raiseRoot? 0x7fffffffffffffff steps root = none := by
  induction steps generalizing root with
  | zero => rfl
  | succ steps ih =>
    rw [raiseRoot?]
    cases sum? root 1 with
    | none => rfl
    | some next =>
      have least : cappedSquare next ≤ 0x7fffffffffffffff := by
        have word := fits_toInt (cappedSquare next)
        unfold FitsWord at word
        exact Int64.le_iff_toInt_le.2 (Int.le_of_lt_add_one word.2)
      rw [Option.bind_some, if_pos least, ih]

end

end Words

theorem Interp.mathFunction_isqrt (r : Interp) {v : Value} {n : Int64} (number : v.int? = some n)
    (natural : 0 ≤ n) : r.mathFunction .isqrt [v] = r.squareRoot n := by
  have read : intArgument v = pure n := by rw [intArgument, number]
  have enough : arity Builtin.isqrt.name [v] 1 (some 1) = pure () := rfl
  rw [mathFunction]
  dsimp only
  rw [enough, pure_bind]
  change intArgument v >>= _ = _
  rw [read, pure_bind, if_neg (Int64.not_lt.2 natural)]

/--
The loops that correct a root end, whatever estimate up to 2 ^ 32 they start from, and leave the
root of a number below the greatest word. No step leaves the words.
-/
theorem roots_are_corrected {n estimate : Int64} (natural : 0 ≤ n)
    (inner : n ≠ 0x7fffffffffffffff) (low : 0 ≤ estimate) (high : estimate ≤ 0x100000000) :
    ∃ root : Int64, root.toInt * root.toInt ≤ n.toInt ∧
      n.toInt < (root.toInt + 1) * (root.toInt + 1) ∧
      Words.correctedRoot? n 0x100000001 estimate = some root ∧
      ∀ r : Interp, 0x100000000 ≤ r.fuel →
        r.correctedRoot n.toInt.toNat estimate.toInt.toNat = pure root.toInt.toNat ∧
        (toWord (ofWord n).sqrt = estimate → ∀ v : Value, v.int? = some n →
          r.mathFunction .isqrt [v] = pure (.int root)) := by
  have number : n.toInt = n.toInt.toNat :=
    (Int.toNat_of_nonneg (Int64.le_iff_toInt_le.1 natural)).symm
  have value : estimate.toInt = estimate.toInt.toNat :=
    (Int.toNat_of_nonneg (Int64.le_iff_toInt_le.1 low)).symm
  have below : estimate.toInt ≤ 0x100000000 := Int64.le_iff_toInt_le.1 high
  have inner' : n.toInt.toNat < 0x7fffffffffffffff := by
    have word := fits_toInt n
    have other : n.toInt ≠ 0x7fffffffffffffff := mt (Int64.toInt_inj.1 ·) inner
    unfold FitsWord at word
    omega
  have small : n.toInt.toNat.sqrt < 0x100000000 := Nat.sqrt_lt.2 (by omega)
  obtain ⟨root, corrected, is⟩ := Words.exists_correctedRoot? 0x100000001 number inner' value
    (by omega) (by omega)
  have whole : root.toInt.toNat = n.toInt.toNat.sqrt := by omega
  refine ⟨root, ?_, ?_, corrected, fun r enough => ?_⟩
  · rw [is, number]
    exact_mod_cast Nat.sqrt_le n.toInt.toNat
  · rw [is, number]
    exact_mod_cast Nat.lt_succ_sqrt n.toInt.toNat
  · have found := Interp.correctedRoot_eq inner' estimate.toInt.toNat enough
    rw [← whole] at found
    refine ⟨found, fun estimated v read => ?_⟩
    rw [r.mathFunction_isqrt read natural, Interp.squareRoot, estimated, found, pure_bind, whole,
      ← Int64.ofInt_eq_ofNat, ← is, Int64.ofInt_toInt]

-- From a root far too great, for the greatest number that has one.
theorem roots_are_corrected_far :
    let n : Int64 := 0x7ffffffffffffffe
    (0 ≤ n ∧ n ≠ 0x7fffffffffffffff) ∧ (0 : Int64) ≤ 0x100000000 ∧
      ∃ root : Int64, Words.correctedRoot? n 0x100000001 0x100000000 = some root ∧
        root.toInt * root.toInt ≤ 0x7ffffffffffffffe ∧
        0x7ffffffffffffffe < (root.toInt + 1) * (root.toInt + 1) := by
  intro n
  have natural : 0 ≤ n := by decide
  have inner : n ≠ 0x7fffffffffffffff := by decide
  have low : (0 : Int64) ≤ 0x100000000 := by decide
  obtain ⟨root, least, greatest, corrected, -⟩ :=
    roots_are_corrected natural inner low (Int64.le_refl _)
  exact ⟨⟨natural, inner⟩, low, root, corrected, least, greatest⟩

-- The root of the greatest word is known, but no number of steps leads to it.
theorem greatest_word_is_without_root :
    (∀ r : Interp, r.mathFunction .isqrt [.int 0x7fffffffffffffff] = Run.outOfFuel) ∧
      (∀ steps, Words.correctedRoot? 0x7fffffffffffffff steps 3037000499 = none) ∧
      3037000499 * 3037000499 ≤ (0x7fffffffffffffff : Int64).toInt ∧
      (0x7fffffffffffffff : Int64).toInt < 3037000500 * 3037000500 := by
  refine ⟨fun r => ?_, fun steps => ?_, by decide, by decide⟩
  · have natural : (0 : Int64) ≤ 0x7fffffffffffffff := by decide
    rw [r.mathFunction_isqrt rfl natural]
    have endless := fun estimate => Interp.raiseRoot_endless r.fuel
      (Arithmetic.lowerRoot 0x7fffffffffffffff estimate)
    have number : (0x7fffffffffffffff : Int64).toInt.toNat = 0x7fffffffffffffff := rfl
    rw [Interp.squareRoot, Interp.correctedRoot, number, endless]
    rfl
  · rw [Words.correctedRoot?]
    cases Words.lowerRoot? 0x7fffffffffffffff steps 3037000499 with
    | none => rfl
    | some root => exact Words.raiseRoot?_endless steps root

end StepTrace
