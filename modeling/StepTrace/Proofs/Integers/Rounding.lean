import StepTrace.Proofs.Integers.Exact

/-!
Integers rounded to powers of ten. Of two multiples that are equally near, the even one is taken.
The powers from 10 ^ 19 on are no words, and no multiple of them but zero is one; so anything is
rounded to zero there, and this is the nearest multiple but for integers that are nearer to
10 ^ 19 or to its opposite.
-/

set_option autoImplicit false

namespace StepTrace

open Number

/-- `m` is the multiple of `step` nearest to `n`; of two that are equally near, the even one. -/
structure NearestMultiple (step n m : Int) : Prop where
  multiple : step ∣ m
  nearest : ∀ k, step ∣ k → (n - m).natAbs ≤ (n - k).natAbs
  even : ∀ k, step ∣ k → k ≠ m → (n - k).natAbs = (n - m).natAbs → 2 * step ∣ m

/-- The quotient rounded to the nearest integer, a half going to the even neighbour. -/
def Arithmetic.roundedQuotient (n step : Int) : Int :=
  if step < n % step * 2 ∨ (n % step * 2 = step ∧ n / step % 2 ≠ 0) then n / step + 1
  else n / step

namespace NearestMultiple

variable {step n m k : Int}

theorem apart (hm : step ∣ m) (hk : step ∣ k) (differ : k ≠ m) :
    step.natAbs ≤ (m - k).natAbs := by
  refine Nat.le_of_not_lt fun near => differ ?_
  have same := Int.eq_zero_of_dvd_of_natAbs_lt_natAbs (Int.dvd_sub hm hk) near
  omega

-- Half a step is near enough, as the multiples are a step apart.
theorem of_close (positive : 0 < step) (multiple : step ∣ m) (close : 2 * (n - m).natAbs ≤ step)
    (even : 2 * (n - m).natAbs = step → 2 * step ∣ m) : NearestMultiple step n m where
  multiple := multiple
  nearest k hk := by
    by_cases same : k = m
    next => rw [same]
    next =>
      have := apart multiple hk same
      omega
  even k hk differ tie := by
    have := apart multiple hk differ
    exact even (by omega)

theorem close (positive : 0 < step) (h : NearestMultiple step n m) :
    2 * (n - m).natAbs ≤ step := by
  have above := h.nearest (m + step) (Int.dvd_add h.multiple (Int.dvd_refl step))
  have below := h.nearest (m - step) (Int.dvd_sub h.multiple (Int.dvd_refl step))
  omega

theorem unique (positive : 0 < step) (hm : NearestMultiple step n m)
    (hk : NearestMultiple step n k) : k = m := by
  refine Decidable.byContradiction fun differ => ?_
  have tie : (n - k).natAbs = (n - m).natAbs :=
    Nat.le_antisymm (hk.nearest m hm.multiple) (hm.nearest k hk.multiple)
  -- even multiples are two steps apart, and each of these two is within half a step of `n`
  have far := apart (hm.even k hk.multiple differ tie)
    (hk.even m hm.multiple (Ne.symm differ) tie.symm) differ
  have := hm.close positive
  omega

theorem of_quotient (positive : 0 < step) (n : Int) :
    NearestMultiple step n (Arithmetic.roundedQuotient n step * step) := by
  have low := Int.emod_nonneg n (Int.ne_of_gt positive)
  have high := Int.emod_lt_of_pos n positive
  have whole : n / step * step + n % step = n := Int.ediv_mul_add_emod n step
  have doubled : ∀ q : Int, q % 2 = 0 → 2 * step ∣ q * step := fun q even =>
    Int.mul_dvd_mul_right step (Int.dvd_of_emod_eq_zero even)
  unfold Arithmetic.roundedQuotient
  split
  next up =>
    have next : (n / step + 1) * step = n / step * step + step := by rw [Int.add_mul, Int.one_mul]
    refine of_close positive (Int.dvd_mul_left ..) (by omega) fun tie => doubled _ ?_
    omega
  next down =>
    refine of_close positive (Int.dvd_mul_left ..) (by omega) fun tie => doubled _ ?_
    omega

end NearestMultiple

/-! ### Rounding to a power of ten -/

namespace Arithmetic

-- Zero is the only multiple of a great power that is a word.
theorem roundTo_eq_exact {n : Int64} {zeros : Nat}
    (near : zeros = 19 → n.toInt.natAbs ≤ 5 * 10 ^ 18) :
    ∃ m, NearestMultiple (10 ^ zeros) n.toInt m ∧ roundTo n zeros = exact m := by
  unfold roundTo
  split
  next great =>
    refine ⟨0, .of_close (Int.pow_pos (by decide)) (Int.dvd_zero _) ?_ ?_, rfl⟩
    · have close : 2 * n.toInt.natAbs ≤ 10 ^ zeros := by
        rcases Nat.eq_or_lt_of_le great with rfl | greater
        next =>
          have := near rfl
          omega
        next =>
          have word := fits_toInt n
          have power : 10 ^ 20 ≤ 10 ^ zeros := Nat.pow_le_pow_right (by decide) greater
          unfold FitsWord at word
          omega
      rw [Int.sub_zero]
      exact_mod_cast close
    · exact fun _ => Int.dvd_zero _
  next small => exact ⟨_, .of_quotient (Int.pow_pos (by decide)) n.toInt, rfl⟩

theorem settles_roundTo {n : Int64} {zeros : Nat}
    (near : zeros = 19 → n.toInt.natAbs ≤ 5 * 10 ^ 18) :
    SettlesInteger .int (NearestMultiple (10 ^ zeros) n.toInt) False False
      (Value.int <$> roundTo n zeros) := by
  obtain ⟨m, nearest, rounded⟩ := roundTo_eq_exact near
  rw [rounded]
  refine .exact (fun k => ⟨nearest.unique (Int.pow_pos (by decide)), ?_⟩) not_false not_false
  rintro rfl
  exact nearest

end Arithmetic

/-! ### Step by step -/

namespace Words

open Arithmetic (exact)

/-- A power of ten, if it is a word; exponents beyond 32 bits are refused. -/
def powerOfTen? (exponent : Int64) : Option Int64 :=
  if 0 ≤ exponent ∧ exponent < 0x100000000 then ofInt? (10 ^ exponent.toInt.toNat) else none

/-- A quotient with a remainder that is not negative, if both are words. -/
def euclidean? (a b : Int64) : Option (Int64 × Int64) :=
  if b = 0 then none else do return (← ofInt? (a.toInt / b.toInt), ← ofInt? (a.toInt % b.toInt))

/-- The quotient rounded to the nearest integer, as it is computed. -/
def roundedQuotient? (a step : Int64) : Option Int64 := do
  let (q, r) ← euclidean? a step
  let twice ← product? r 2
  if step < twice ∨ (twice = step ∧ q % 2 ≠ 0) then sum? q 1 else some q

/--
An integer rounded to a negative number of places, as it is computed: nothing comes out if a step
leaves the words that is not checked.
-/
def roundTo? (a places : Int64) : Option (Except Fault Int64) := do
  let zeros ← opposite? places
  match powerOfTen? zeros with
  | none => some (.ok 0)
  | some step => (roundedQuotient? a step).map fun q => exact (q.toInt * step.toInt)

variable {a places step : Int64}

theorem powerOfTen?_great {exponent : Int64} (great : 19 ≤ exponent.toInt) :
    powerOfTen? exponent = none := by
  unfold powerOfTen?
  split
  next =>
    have power : (10 : Int) ^ 19 ≤ 10 ^ exponent.toInt.toNat := by
      exact_mod_cast Nat.pow_le_pow_right (by decide : 0 < 10) (by omega)
    refine ofInt?_eq_none_iff.2 fun fits => ?_
    unfold FitsWord at fits
    omega
  next => rfl

theorem exists_powerOfTen? (exponent : Int64) (natural : 0 ≤ exponent.toInt)
    (small : exponent.toInt < 19) :
    ∃ step, powerOfTen? exponent = some step ∧ step.toInt = 10 ^ exponent.toInt.toNat := by
  have power : (10 : Int) ^ exponent.toInt.toNat ≤ 10 ^ 18 := by
    exact_mod_cast Nat.pow_le_pow_right (by decide : 0 < 10) (by omega)
  have positive : (0 : Int) < 10 ^ exponent.toInt.toNat := Int.pow_pos (by decide)
  have below : exponent.toInt < (0x100000000 : Int64).toInt := Int.lt_trans small (by decide)
  rw [powerOfTen?, if_pos ⟨Int64.le_iff_toInt_le.2 natural, Int64.lt_iff_toInt_lt.2 below⟩]
  exact exists_ofInt? ⟨by omega, by omega⟩

theorem exists_euclidean? (a : Int64) (positive : 0 < step.toInt) :
    ∃ q r, euclidean? a step = some (q, r) ∧ q.toInt = a.toInt / step.toInt ∧
      r.toInt = a.toInt % step.toInt := by
  have word := fits_toInt a
  have divisor := fits_toInt step
  have low := Int.emod_nonneg a.toInt (Int.ne_of_gt positive)
  have high := Int.emod_lt_of_pos a.toInt positive
  have bound := Int.natAbs_ediv_le_natAbs a.toInt step.toInt
  have sign : a.toInt / step.toInt < 0 ↔ a.toInt < 0 := by
    rw [← Int.not_le, ← Int.not_le, Int.ediv_nonneg_iff_of_pos positive]
  unfold FitsWord at word divisor
  have quotient : FitsWord (a.toInt / step.toInt) := ⟨by omega, by omega⟩
  obtain ⟨q, madeQ, valueQ⟩ := exists_ofInt? quotient
  obtain ⟨r, madeR, valueR⟩ : ∃ r, ofInt? (a.toInt % step.toInt) = some r ∧ _ :=
    exists_ofInt? ⟨by omega, by omega⟩
  have nonzero : step ≠ 0 := toInt_ne_zero.2 (Int.ne_of_gt positive)
  refine ⟨q, r, ?_, valueQ, valueR⟩
  rw [euclidean?, if_neg nonzero, madeQ, madeR]
  rfl

theorem odd_iff (q : Int64) : q % 2 ≠ 0 ↔ q.toInt % 2 ≠ 0 := by
  rw [toInt_ne_zero, Int64.toInt_mod, ne_eq, ne_eq, ← Int.dvd_iff_emod_eq_zero]
  exact not_congr Int.dvd_iff_tmod_eq_zero.symm

-- Such a quotient is far from the end of the words.
theorem quotient_lt (a : Int64) (ten : 10 ≤ step.toInt) : a.toInt / step.toInt < 2 ^ 62 := by
  have positive : 0 < step.toInt := by omega
  refine Int.not_le.1 fun great => ?_
  rw [Int.le_ediv_iff_mul_le positive] at great
  have word := fits_toInt a
  unfold FitsWord at word
  omega

theorem exists_roundedQuotient? (a step : Int64) (ten : 10 ≤ step.toInt)
    (bound : step.toInt ≤ 10 ^ 18) : ∃ q, roundedQuotient? a step = some q ∧
      q.toInt = Arithmetic.roundedQuotient a.toInt step.toInt := by
  have one : (1 : Int64).toInt = 1 := rfl
  have positive : 0 < step.toInt := by omega
  obtain ⟨q, r, divided, quotient, remainder⟩ := exists_euclidean? a positive
  have low := Int.emod_nonneg a.toInt (Int.ne_of_gt positive)
  have high := Int.emod_lt_of_pos a.toInt positive
  have fits : FitsWord (r.toInt * 2) := ⟨by omega, by omega⟩
  obtain ⟨twice, doubled, value⟩ : ∃ w, product? r 2 = some w ∧ w.toInt = r.toInt * 2 :=
    exists_ofInt? fits
  have same : step < twice ∨ (twice = step ∧ q % 2 ≠ 0) ↔
      step.toInt < a.toInt % step.toInt * 2 ∨
        (a.toInt % step.toInt * 2 = step.toInt ∧ a.toInt / step.toInt % 2 ≠ 0) := by
    rw [odd_iff, Int64.lt_iff_toInt_lt, ← Int64.toInt_inj, value, quotient, remainder]
  simp only [roundedQuotient?, Arithmetic.roundedQuotient, divided, doubled, Option.bind_eq_bind,
    Option.bind_some, same]
  split
  next =>
    have inner := quotient_lt a ten
    have word := fits_toInt q
    unfold FitsWord at word
    rw [← quotient]
    exact exists_ofInt? ⟨by omega, by omega⟩
  next => exact ⟨q, rfl, quotient⟩

theorem roundTo?_eq (a : Int64) (negative : places < 0) (last : places ≠ -0x8000000000000000) :
    roundTo? a places = some (Arithmetic.roundTo a (-places.toInt).toNat) := by
  have word := fits_toInt places
  have below : places.toInt < 0 := Int64.lt_iff_toInt_lt.1 negative
  have inner : places.toInt ≠ -0x8000000000000000 := mt (Int64.toInt_inj.1 ·) last
  unfold FitsWord at word
  obtain ⟨zeros, opposite, value⟩ : ∃ w, opposite? places = some w ∧ w.toInt = -places.toInt :=
    exists_ofInt? ⟨by omega, by omega⟩
  unfold roundTo? Arithmetic.roundTo
  rw [opposite, Option.bind_eq_bind, Option.bind_some]
  split
  next none =>
    rw [if_pos]
    refine Decidable.byContradiction fun small => ?_
    obtain ⟨step, made, -⟩ := exists_powerOfTen? zeros (by omega) (by omega)
    cases none.symm.trans made
  next step made =>
    have small : zeros.toInt < 19 := by
      refine Int.not_le.1 fun great => ?_
      cases (powerOfTen?_great great).symm.trans made
    obtain ⟨step, made', power⟩ := exists_powerOfTen? zeros (by omega) small
    obtain rfl := Option.some.inj (made'.symm.trans made)
    have exponent : zeros.toInt.toNat = (-places.toInt).toNat := congrArg Int.toNat value
    rw [exponent] at power
    have ten : (10 : Int) ^ 1 ≤ 10 ^ (-places.toInt).toNat := by
      exact_mod_cast Nat.pow_le_pow_right (by decide : 0 < 10) (by omega)
    have bound : (10 : Int) ^ (-places.toInt).toNat ≤ 10 ^ 18 := by
      exact_mod_cast Nat.pow_le_pow_right (by decide : 0 < 10) (by omega)
    obtain ⟨q, rounded, quotient⟩ :=
      exists_roundedQuotient? a step (by omega) (by omega)
    rw [rounded, Option.map_some, if_neg (by omega), quotient, power]
    rfl

end Words

theorem rounded_ints {v p : Value} {i places : Int64} (number : v.int? = some i)
    (digits : p.int? = some places) (negative : places < 0) :
    Interp.rounded v (some p) =
      Run.check (.int <$> Arithmetic.roundTo i (-places.toInt).toNat) := by
  have read : Interp.rounded v (some p) = Interp.roundedTo v (some places) := by
    cases p <;> cases digits <;> rfl
  have computed : Interp.roundedTo v (some places) =
      Run.check (Arithmetic.roundTo i (-places.toInt).toNat) >>= fun n => pure (.int n) := by
    cases v <;> cases number <;> exact if_pos negative
  rw [read, computed]
  cases Arithmetic.roundTo i (-places.toInt).toNat <;> rfl

/--
An integer rounded to a negative number of places is the nearest multiple of the power of ten, the
even one of two, if that is a word, and it is refused if not. Only to -19 places, integers nearer to
10 ^ 19 than to zero, or to its opposite, are rounded to zero. No step on the way to a result leaves
the words, unless the number of places is the least word, which has no opposite.
-/
theorem integers_round_to_nearest {places : Int64} (negative : places < 0) (i : Int64) :
    ∃ r, (∀ v p : Value, v.int? = some i → p.int? = some places →
        Interp.rounded v (some p) = Run.check (.int <$> r)) ∧
      (¬ (places = -19 ∧ 5 * 10 ^ 18 < i.toInt.natAbs) →
        SettlesInteger .int (NearestMultiple (10 ^ (-places.toInt).toNat) i.toInt) False False
          (Value.int <$> r)) ∧
      (places ≠ -0x8000000000000000 → Words.roundTo? i places = some r) := by
  refine ⟨Arithmetic.roundTo i (-places.toInt).toNat, ?_, fun near => ?_, ?_⟩
  · exact fun v p number digits => rounded_ints number digits negative
  · refine Arithmetic.settles_roundTo fun last => Nat.le_of_not_lt fun far => near ⟨?_, far⟩
    have value : places.toInt = -19 := by omega
    exact Int64.toInt_inj.1 value
  · exact Words.roundTo?_eq i negative

-- Of the multiples -30 and -20 the even one is taken, and the greatest word is rounded up too far.
theorem integers_round_to_nearest_tie :
    (-1 : Int64) < 0 ∧ Interp.rounded (.int (-25)) (some (.int (-1))) = pure (.int (-20)) ∧
      ∃ r, Interp.rounded (.int 0x7fffffffffffffff) (some (.int (-1))) = Run.check r ∧
        Refused r .overflow := by
  have negative : (-1 : Int64) < 0 := by decide
  have near : ∀ i : Int, ¬ ((-1 : Int64) = -19 ∧ 5 * 10 ^ 18 < i.natAbs) := fun i far =>
    absurd far.1 (by decide)
  obtain ⟨r, rounded, settled, -⟩ := integers_round_to_nearest negative (-25)
  have tie : NearestMultiple 10 (-25) (-20) :=
    .of_close (by decide) (by decide) (by decide) fun _ => by decide
  have even : Value.int <$> r = .ok (.int (-20)) := ((settled (near _)).gives _).2 ⟨-20, rfl, tie⟩
  refine ⟨negative, (rounded _ _ rfl rfl).trans (by rw [even]; rfl), ?_⟩
  obtain ⟨r, rounded, settled, -⟩ := integers_round_to_nearest negative 0x7fffffffffffffff
  have beyond : NearestMultiple 10 0x7fffffffffffffff 0x8000000000000002 :=
    .of_close (by decide) (by decide) (by decide) fun tie => absurd tie (by decide)
  exact ⟨_, rounded _ _ rfl rfl, (settled (near _)).outOfRange.2 ⟨_, beyond, by decide⟩⟩

-- The nearest multiple is no word, but zero comes out. The least number of places has no opposite.
theorem far_integers_are_rounded_to_zero :
    Interp.rounded (.int 0x7fffffffffffffff) (some (.int (-19))) = pure (.int 0) ∧
      NearestMultiple (10 ^ 19) 0x7fffffffffffffff (10 ^ 19) ∧ ¬ FitsWord (10 ^ 19) ∧
      Words.roundTo? 0 (-0x8000000000000000) = none := by
  have negative : (-19 : Int64) < 0 := by decide
  refine ⟨rounded_ints rfl rfl negative, ?_, by decide, by decide +kernel⟩
  exact .of_close (by decide) (by decide) (by decide) fun tie => absurd tie (by decide)

end StepTrace
