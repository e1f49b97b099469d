import StepTrace.Proofs.Integers.Exact

/-!
Powers, and bits moved up. Either operator refuses a great exponent or count before it computes
anything. Powers of integers other than 0, 1 and -1 leave the words before the exponent 64; an
integer other than 0 leaves them when it is moved up by 63 bits, except for -1.
-/

set_option autoImplicit false

namespace StepTrace

open Number

namespace Arithmetic

theorem exact_of_not_fits {n : Int} (outside : ¬ FitsWord n) : exact n = .error .outOfRange := by
  rw [exact, ofInt?_eq_none_iff.2 outside]

/-! ### Powers -/

theorem unit_iff {a : Int64} :
    a = 0 ∨ a = 1 ∨ a = -1 ↔ a.toInt = 0 ∨ a.toInt = 1 ∨ a.toInt = -1 := by
  rw [← Int64.toInt_inj, ← Int64.toInt_inj, ← Int64.toInt_inj]
  rfl

theorem not_fits_pow {a : Int} {n : Nat} (grows : 2 ≤ a.natAbs) (far : 64 ≤ n) :
    ¬ FitsWord (a ^ n) := by
  have great : 2 ^ 64 ≤ (a ^ n).natAbs := by
    calc 2 ^ 64 ≤ 2 ^ n := Nat.pow_le_pow_right (by decide) far
      _ ≤ a.natAbs ^ n := Nat.pow_le_pow_left grows n
      _ = (a ^ n).natAbs := (Int.natAbs_pow a n).symm
  unfold FitsWord
  omega

-- The powers come back after two steps.
theorem pow_of_unit {a : Int} (unit : a = 0 ∨ a = 1 ∨ a = -1) (n : Nat) :
    a ^ (if n = 0 then 0 else 2 - n % 2) = a ^ n := by
  rcases n.eq_zero_or_pos with rfl | positive
  next => rfl
  next =>
    rw [if_neg (Nat.ne_of_gt positive)]
    rcases unit with rfl | rfl | rfl
    · rw [zero_pow (by omega), zero_pow (by omega)]
    · rw [one_pow, one_pow]
    · rw [neg_one_pow_eq_pow_mod_two, neg_one_pow_eq_pow_mod_two n]
      congr 1
      omega

theorem power_eq_exact {a : Int64} {n : Nat} (few : a = 0 ∨ a = 1 ∨ a = -1 → n < 0x100000000) :
    power a n = exact (a.toInt ^ n) := by
  unfold power
  by_cases unit : a = 0 ∨ a = 1 ∨ a = -1
  next =>
    rw [if_neg (Nat.not_le.2 (few unit)), if_pos unit]
    exact congrArg exact (pow_of_unit (unit_iff.1 unit) n)
  next =>
    have grows : 2 ≤ a.toInt.natAbs := by
      have := mt unit_iff.2 unit
      omega
    have outside : 64 ≤ n → exact (a.toInt ^ n) = .error .outOfRange := fun far =>
      exact_of_not_fits (not_fits_pow grows far)
    rw [if_neg unit]
    split
    next far => exact (outside (by omega)).symm
    next =>
      split
      next far => exact (outside far).symm
      next => rfl

/-! ### Bits moved up -/

theorem not_fits_mul {a : Int} {n : Nat} (other : a ≠ 0) (far : 63 ≤ n)
    (last : ¬ (a = -1 ∧ n = 63)) : ¬ FitsWord (a * 2 ^ n) := by
  unfold FitsWord
  rcases Nat.eq_or_lt_of_le far with rfl | beyond
  next => omega
  next =>
    have great : 2 ^ 64 ≤ (a * 2 ^ n).natAbs := by
      calc 2 ^ 64 ≤ 2 ^ n := Nat.pow_le_pow_right (by decide) beyond
        _ ≤ a.natAbs * 2 ^ n := Nat.le_mul_of_pos_left _ (Int.natAbs_pos.2 other)
        _ = (a * 2 ^ n).natAbs := by rw [Int.natAbs_mul, Int.natAbs_pow]; rfl
    omega

theorem shiftLeft_eq_exact {a : Int64} {n : Nat} (last : ¬ (a = -1 ∧ n = 63)) :
    shiftLeft a n = exact (a.toInt * 2 ^ n) := by
  unfold shiftLeft
  split
  next none =>
    rw [none, Int64.toInt_zero, Int.zero_mul]
    rfl
  next other =>
  split
  next far =>
    refine (exact_of_not_fits (not_fits_mul (Words.toInt_ne_zero.1 other) far ?_)).symm
    rintro ⟨negative, same⟩
    exact last ⟨Int64.toInt_inj.1 negative, same⟩
  next => rfl

end Arithmetic

/--
A power and an integer moved up are what they are on integers without bounds if that is a word, and
they are refused if it is not.
-/
theorem powers_and_shifts_are_exact (h : Heap) (a b : Int64) (natural : 0 ≤ b) :
    ((a = 0 ∨ a = 1 ∨ a = -1 → b < 0x100000000) →
      SettlesInteger (fun w => .value (.int w)) (· = a.toInt ^ b.toInt.toNat) False False
        (h.binary .pow (.int a) (.int b))) ∧
    (¬ (a = -1 ∧ b = 63) →
      SettlesInteger (fun w => .value (.int w)) (· = a.toInt * 2 ^ b.toInt.toNat) False False
        (h.binary .shiftLeft (.int a) (.int b))) := by
  have nonneg : 0 ≤ b.toInt := Int64.le_iff_toInt_le.1 natural
  have notBelow : ¬ b < 0 := fun below => by
    have := Int64.lt_iff_toInt_lt.1 below
    rw [Int64.toInt_zero] at this
    omega
  refine ⟨fun few => ?_, fun last => ?_⟩
  · have computed : Arithmetic.ofInts .pow a b =
        .int <$> Arithmetic.exact (a.toInt ^ b.toInt.toNat) := by
      rw [Arithmetic.ofInts, if_neg notBelow, Arithmetic.power_eq_exact fun unit => ?_]
      have bound : b.toInt < 0x100000000 := Int64.lt_iff_toInt_lt.1 (few unit)
      omega
    rw [binary_of_exact h computed]
    exact .exact (fun _ => Iff.rfl) not_false not_false
  · have computed : Arithmetic.ofInts .shiftLeft a b =
        .int <$> Arithmetic.exact (a.toInt * 2 ^ b.toInt.toNat) := by
      rw [Arithmetic.ofInts, if_neg notBelow, Arithmetic.shiftLeft_eq_exact]
      rintro ⟨negative, count⟩
      have same : b.toInt = (63 : Int64).toInt := by
        have : (63 : Int64).toInt = 63 := rfl
        omega
      exact last ⟨negative, Int64.toInt_inj.1 same⟩
    rw [binary_of_exact h computed]
    exact .exact (fun _ => Iff.rfl) not_false not_false

-- The least word is a power, and 1 is not moved up to its place.
theorem powers_and_shifts_are_exact_least_word :
    let h := Heap.empty 1
    h.binary .pow (.int (-2)) (.int 63) = .ok (.value (.int (-0x8000000000000000))) ∧
      Refused (h.binary .shiftLeft (.int 1) (.int 63)) .overflow := by
  intro h
  have settled := fun a => powers_and_shifts_are_exact h a 63 (by decide)
  refine ⟨?_, ?_⟩
  · exact (((settled (-2)).1 (by decide)).gives _).2 ⟨_, rfl, by decide⟩
  · exact ((settled 1).2 (by decide)).outOfRange.2 ⟨_, rfl, by decide⟩

-- Guards on exponents and counts refuse what is a word.
theorem great_exponents_are_refused :
    let h := Heap.empty 1
    (Refused (h.binary .shiftLeft (.int (-1)) (.int 63)) .overflow ∧ FitsWord (-1 * 2 ^ 63)) ∧
      Refused (h.binary .pow (.int 1) (.int 0x100000000)) .overflow ∧
      FitsWord (1 ^ 0x100000000) := by
  refine ⟨⟨⟨.outOfRange, rfl, rfl⟩, by decide⟩, ⟨.outOfRange, rfl, rfl⟩, ?_⟩
  rw [one_pow]
  decide

end StepTrace
