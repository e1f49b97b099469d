import Mathlib.Data.Int.ModEq
import Mathlib.Tactic.Ring
import StepTrace.Proofs.Integers.Words

/-!
Powers to a modulus. The exponent is gone through bit by bit, the base squared at each of them; what
is left of the power stays congruent all the way, and no product leaves the words of twice the size.
Where there is no bit to go through, the power 1 is not reduced.
-/

set_option autoImplicit false

namespace StepTrace

open Number

/-- `r` is what `n` leaves modulo `m`, with the sign of `m`. -/
structure Residue (m n r : Int) : Prop where
  congruent : r ≡ n [ZMOD m]
  positive : 0 < m → 0 ≤ r ∧ r < m
  negative : m < 0 → m < r ∧ r ≤ 0

theorem Residue.unique {m n r s : Int} (divisor : m ≠ 0) (hr : Residue m n r)
    (hs : Residue m n s) : s = r := by
  have divides : m ∣ s - r := (hr.congruent.trans hs.congruent.symm).dvd
  have near : (s - r).natAbs < m.natAbs := by
    have := hr.positive
    have := hr.negative
    have := hs.positive
    have := hs.negative
    omega
  have none := Int.eq_zero_of_dvd_of_natAbs_lt_natAbs divides near
  omega

/-! ### Products in words of twice the size -/

namespace Words

def FitsDoubleWord (n : Int) : Prop := -2 ^ 127 ≤ n ∧ n < 2 ^ 127

instance (n : Int) : Decidable (FitsDoubleWord n) := inferInstanceAs (Decidable (_ ∧ _))

/-- What a product leaves modulo `m`, if the product has a double word. -/
def reduced? (m a b : Int) : Option Int := if FitsDoubleWord (a * b) then some (a * b % m) else none

/-- The bits of an exponent gone through on double words: `acc` is multiplied by `b ^ e`. -/
def squareAndMultiply? (m : Int) : (bits : Nat) → (b : Int) → (e : Nat) → (acc : Int) → Option Int
  | 0, _, _, acc => some acc
  | bits + 1, b, e, acc =>
    if e = 0 then some acc
    else do
      let acc ← if e % 2 = 1 then reduced? m acc b else some acc
      squareAndMultiply? m bits (← reduced? m b b) (e / 2) acc

/-- A power to a modulus carried out on words: nothing comes out if a step leaves them. -/
def powMod? (base exponent modulus : Int64) : Option (Except Fault Int64) :=
  if modulus = 0 ∨ exponent < 0 then some (Arithmetic.powMod base exponent modulus)
  else do
    let m := modulus.toInt
    let r ← squareAndMultiply? m 64 (base.toInt % m) exponent.toInt.toNat 1
    (ofInt? (if m < 0 ∧ 0 < r then r + m else r)).map .ok

end Words

/-! ### The loop -/

namespace Arithmetic

variable {m b acc : Int} {e : Nat}

-- The power that is still to be multiplied by, before and after a bit.
theorem modEq_of_bit (m b acc : Int) (e : Nat) :
    (if e % 2 = 1 then acc * b % m else acc) * (b * b % m) ^ (e / 2) ≡ acc * b ^ e [ZMOD m] := by
  have squared : (b * b % m) ^ (e / 2) ≡ b ^ (2 * (e / 2)) [ZMOD m] := by
    rw [pow_mul, pow_two]
    exact (Int.mod_modEq _ _).pow _
  split
  next odd =>
    calc acc * b % m * (b * b % m) ^ (e / 2) ≡ acc * b * b ^ (2 * (e / 2)) [ZMOD m] :=
          (Int.mod_modEq _ _).mul squared
      _ = acc * b ^ (2 * (e / 2) + 1) := by ring
      _ = acc * b ^ e := by rw [← odd, Nat.div_add_mod]
  next even =>
    have whole : 2 * (e / 2) = e := by omega
    rw [whole] at squared
    exact squared.mul_left acc

theorem powMod_go_modEq (modulus : Int64) {bits : Nat} (b : Int) (acc : Int)
    (enough : e < 2 ^ bits) :
    powMod.go modulus bits b e acc ≡ acc * b ^ e [ZMOD modulus.toInt] := by
  induction bits generalizing b e acc with
  | zero =>
    obtain rfl : e = 0 := by omega
    rw [pow_zero, mul_one]
    rfl
  | succ bits ih =>
    rw [powMod.go]
    split
    next zero =>
      rw [zero, pow_zero, mul_one]
    next =>
      have half : e / 2 < 2 ^ bits := by
        rw [pow_succ] at enough
        omega
      exact (ih _ _ half).trans (modEq_of_bit ..)

-- What is multiplied up is reduced from the first bit on that is set.
theorem powMod_go_bounds {modulus : Int64} (divisor : modulus.toInt ≠ 0) {bits : Nat}
    (enough : e < 2 ^ bits) (start : e = 0 → 0 ≤ acc ∧ acc < modulus.toInt.natAbs) (b : Int) :
    0 ≤ powMod.go modulus bits b e acc ∧
      powMod.go modulus bits b e acc < modulus.toInt.natAbs := by
  induction bits generalizing b e acc with
  | zero => exact start (by omega)
  | succ bits ih =>
    rw [powMod.go]
    split
    next zero => exact start zero
    next nonzero =>
      have half : e / 2 < 2 ^ bits := by
        rw [pow_succ] at enough
        omega
      refine ih half (fun last => ?_) _
      have odd : e % 2 = 1 := by omega
      rw [if_pos odd]
      exact ⟨Int.emod_nonneg _ divisor, Int.emod_lt _ divisor⟩

end Arithmetic

namespace Words

open Arithmetic

variable {m a b acc : Int}

-- Products of what is reduced to a word, or is 1, are far from the ends of the double words.
theorem reduced?_eq (ha : 0 ≤ a ∧ a ≤ 2 ^ 63) (hb : 0 ≤ b ∧ b ≤ 2 ^ 63) (m : Int) :
    reduced? m a b = some (a * b % m) := by
  have low : 0 ≤ a * b := Int.mul_nonneg ha.1 hb.1
  have high : a * b ≤ 2 ^ 63 * 2 ^ 63 := Int.mul_le_mul ha.2 hb.2 hb.1 (by decide)
  exact if_pos ⟨by omega, by omega⟩

theorem reduced_bounds {modulus : Int64} (divisor : modulus.toInt ≠ 0) (n : Int) :
    0 ≤ n % modulus.toInt ∧ n % modulus.toInt ≤ 2 ^ 63 := by
  have word := fits_toInt modulus
  have high := Int.emod_lt n divisor
  unfold FitsWord at word
  exact ⟨Int.emod_nonneg _ divisor, by omega⟩

theorem squareAndMultiply?_eq {modulus : Int64} (divisor : modulus.toInt ≠ 0) (bits : Nat)
    (hb : 0 ≤ b ∧ b ≤ 2 ^ 63) (e : Nat) (hacc : 0 ≤ acc ∧ acc ≤ 2 ^ 63) :
    squareAndMultiply? modulus.toInt bits b e acc = some (powMod.go modulus bits b e acc) := by
  induction bits generalizing b e acc with
  | zero => rfl
  | succ bits ih =>
    rw [squareAndMultiply?, powMod.go]
    split
    next => rfl
    next =>
      have squared := reduced_bounds divisor (b * b)
      rw [reduced?_eq hb hb, reduced?_eq hacc hb]
      split
      next odd => exact ih squared (e / 2) (reduced_bounds divisor (acc * b))
      next even => exact ih squared (e / 2) hacc

end Words

namespace Arithmetic

-- The residue with the sign of the modulus, from one that is not negative.
def signed (m r : Int) : Int := if m < 0 ∧ 0 < r then r + m else r

theorem residue_signed {m n r : Int} (congruent : r ≡ n [ZMOD m]) (low : 0 ≤ r)
    (high : r < m.natAbs) : Residue m n (signed m r) := by
  unfold signed
  split
  next => exact ⟨(Int.add_modEq_right ..).trans congruent, by omega, by omega⟩
  next => exact ⟨congruent, by omega, by omega⟩

theorem fits_signed {m r : Int} (word : FitsWord m) (inside : 0 ≤ r ∧ r < m.natAbs ∨ r = 1) :
    FitsWord (signed m r) := by
  unfold FitsWord at word
  unfold signed
  split <;> exact ⟨by omega, by omega⟩

-- What is multiplied up is a residue, unless there is no bit to go through.
theorem powMod_go_inside {modulus : Int64} (divisor : modulus.toInt ≠ 0) {e : Nat}
    (enough : e < 2 ^ 64) (b : Int) :
    0 ≤ powMod.go modulus 64 b e 1 ∧ powMod.go modulus 64 b e 1 < modulus.toInt.natAbs ∨
      e = 0 ∧ powMod.go modulus 64 b e 1 = 1 := by
  rcases e.eq_zero_or_pos with rfl | some
  next => exact .inr ⟨rfl, rfl⟩
  next => exact .inl (powMod_go_bounds divisor enough (fun none => absurd none some.ne') b)

-- Modulo anything but 1 and -1 the power 1 is reduced, and modulo -1 the sign reduces it.
theorem residue_signed_one {m : Int} (other : m ≠ 1) : Residue m 1 (signed m 1) := by
  unfold signed
  split
  next => exact ⟨Int.add_modEq_right .., by omega, by omega⟩
  next => exact ⟨rfl, by omega, by omega⟩

theorem residue_powMod_go {modulus : Int64} (divisor : modulus.toInt ≠ 0) {e : Nat}
    (enough : e < 2 ^ 64) (other : ¬ (e = 0 ∧ modulus.toInt = 1)) (base : Int) :
    Residue modulus.toInt (base ^ e)
      (signed modulus.toInt (powMod.go modulus 64 (base % modulus.toInt) e 1)) := by
  rcases powMod_go_inside divisor enough (base % modulus.toInt) with ⟨low, high⟩ | ⟨none, one⟩
  next =>
    have kept := powMod_go_modEq modulus (base % modulus.toInt) 1 enough
    rw [one_mul] at kept
    exact residue_signed (kept.trans ((Int.mod_modEq _ _).pow _)) low high
  next =>
    rw [one, none, pow_zero]
    exact residue_signed_one fun one => other ⟨none, one⟩

end Arithmetic

/--
A power to a modulus is the one residue of the power that has the sign of the modulus, and it is
computed without a product beyond 128 bits; only to the exponent 0 and modulo 1 it is 1, not 0.
-/
theorem modular_powers_are_exact {exponent modulus : Int64} (base : Int64) (divisor : modulus ≠ 0)
    (natural : 0 ≤ exponent) : ∃ r, Arithmetic.powMod base exponent modulus = .ok r ∧
      Words.powMod? base exponent modulus = some (.ok r) ∧
      (¬ (exponent = 0 ∧ modulus = 1) → ∀ n,
        Residue modulus.toInt (base.toInt ^ exponent.toInt.toNat) n ↔ n = r.toInt) := by
  have nonzero := Words.toInt_ne_zero.1 divisor
  have notBelow : ¬ exponent < 0 := fun below => absurd below (Int64.not_lt.2 natural)
  have whole : 0 ≤ exponent.toInt := Int64.le_iff_toInt_le.1 natural
  have enough : exponent.toInt.toNat < 2 ^ 64 := by
    have word := fits_toInt exponent
    unfold FitsWord at word
    omega
  let left := Arithmetic.powMod.go modulus 64 (base.toInt % modulus.toInt) exponent.toInt.toNat 1
  have fits : FitsWord (Arithmetic.signed modulus.toInt left) :=
    Arithmetic.fits_signed (fits_toInt modulus)
      ((Arithmetic.powMod_go_inside nonzero enough _).imp_right And.right)
  refine ⟨Int64.ofInt (Arithmetic.signed modulus.toInt left), ?_, ?_, fun other n => ?_⟩
  · rw [Arithmetic.powMod, if_neg divisor, if_neg notBelow]
    rfl
  · have one : (0 : Int) ≤ 1 ∧ (1 : Int) ≤ 2 ^ 63 := by decide
    have carried := Words.squareAndMultiply?_eq nonzero 64
      (Words.reduced_bounds nonzero base.toInt) exponent.toInt.toNat one
    rw [Words.powMod?, if_neg (not_or.2 ⟨divisor, notBelow⟩)]
    dsimp only
    rw [carried]
    exact congrArg (Option.map Except.ok) (Words.ofInt?_of_fits fits)
  · have other' : ¬ (exponent.toInt.toNat = 0 ∧ modulus.toInt = 1) := by
      rintro ⟨none, one⟩
      have zero : exponent.toInt = 0 := by omega
      exact other ⟨Int64.toInt_inj.1 zero, Int64.toInt_inj.1 one⟩
    have residue := Arithmetic.residue_powMod_go nonzero enough other' base.toInt
    rw [toInt_ofInt_of_fits fits]
    constructor
    · exact residue.unique nonzero
    · rintro rfl
      exact residue

-- The greatest word to the greatest word, modulo the least.
theorem modular_powers_are_exact_least_word :
    (-0x8000000000000000 : Int64) ≠ 0 ∧ (0 : Int64) ≤ 0x7fffffffffffffff ∧
      ∃ r, Arithmetic.powMod 0x7fffffffffffffff 0x7fffffffffffffff (-0x8000000000000000) = .ok r ∧
        Residue (-0x8000000000000000) (0x7fffffffffffffff ^ 0x7fffffffffffffff) r.toInt := by
  have divisor : (-0x8000000000000000 : Int64) ≠ 0 := by decide
  have natural : (0 : Int64) ≤ 0x7fffffffffffffff := by decide
  obtain ⟨r, computed, -, residue⟩ :=
    modular_powers_are_exact 0x7fffffffffffffff divisor natural
  exact ⟨divisor, natural, r, computed, (residue (by decide) _).2 rfl⟩

-- A power that is not reduced lies outside of what its modulus leaves.
theorem powers_modulo_one_are_not_reduced :
    Arithmetic.powMod 5 0 1 = .ok 1 ∧ ¬ Residue 1 (5 ^ 0) 1 := by
  refine ⟨by decide +kernel, fun residue => ?_⟩
  exact absurd (residue.positive (by decide)).2 (by decide)

end StepTrace
