import Mathlib
import StepTrace.Json.Read
import StepTrace.Proofs.Documents.RoundTrip

/-!
The numbers of documents. Whatever text is read, its integers have 64 bits and its fractions are
finite: a significand has 64 bits, and scaling it by a power of ten is refused where the result is
too large.
-/

set_option autoImplicit false

namespace StepTrace.Number

open Float.Model (Format UnpackedFloat totalExponent)
open Float.Model.UnpackedFloat

/-! ### Exponents -/

abbrev format : Format := Format.binary64

-- A zero, or a number of which the last binary digit stands for at most `2 ^ b`.
inductive Within (b : Int) : UnpackedFloat → Prop
  | zero (s : Sign) : Within b (.zero s)
  | finite {s : Sign} {m : Nat} {e : Int} {pos : 0 < m} (small : e ≤ b) :
    Within b (.finite s m e pos)

instance (b : Int) (u : UnpackedFloat) : Decidable (Within b u) :=
  match u with
  | .zero s => isTrue (.zero s)
  | .finite _ _ e _ => decidable_of_iff (e ≤ b) ⟨.finite, fun | .finite small => small⟩
  | .infinity _ | .notANumber => isFalse nofun

theorem Within.mono {b c : Int} {u : UnpackedFloat} (h : Within b u) (le : b ≤ c) :
    Within c u := by
  cases h with
  | zero s => exact .zero s
  | finite small => exact .finite (Int.le_trans small le)

theorem Within.isFinite {b : Int} {u : UnpackedFloat} (h : Within b u) : u.isFinite = true := by
  cases h <;> rfl

theorem isFinite_iff {u : UnpackedFloat} :
    u.isFinite = true ↔ u.isNaN = false ∧ u.isInf = false := by
  cases u <;> simp [UnpackedFloat.isFinite, UnpackedFloat.isNaN, UnpackedFloat.isInf]

theorem log2_le_of_lt {n k : Nat} (h : n < 2 ^ (k + 1)) : n.log2 ≤ k := by
  by_cases zero : n = 0
  next => simp [zero]
  next =>
    have less := (Nat.log2_lt zero).mpr h
    omega

theorem log2_shiftLeft_le (m k : Nat) : (m <<< k).log2 ≤ m.log2 + k := by
  apply log2_le_of_lt
  rw [Nat.shiftLeft_eq]
  calc
    m * 2 ^ k
    _ < 2 ^ (m.log2 + 1) * 2 ^ k := Nat.mul_lt_mul_of_pos_right Nat.lt_log2_self (Nat.two_pow_pos k)
    _ = 2 ^ (m.log2 + k + 1) := by rw [← Nat.pow_add, Nat.add_right_comm]

/-! ### Rounding -/

theorem mantissa_shiftRight (m : ExtendedMantissa) (n : Nat) :
    (m >>> n).mantissa = m.mantissa / 2 ^ n := by
  change (n.repeat ExtendedMantissa.shiftRightOne m).mantissa = m.mantissa / 2 ^ n
  induction n with
  | zero => simp [Nat.repeat]
  | succ n ih =>
    calc
      (n.repeat ExtendedMantissa.shiftRightOne m).mantissa / 2
      _ = m.mantissa / (2 ^ n * 2) := by rw [ih, Nat.div_div_eq_div_mul]
      _ = m.mantissa / 2 ^ (n + 1) := by rw [Nat.pow_succ]

theorem roundedMantissa_le (m : ExtendedMantissa) : m.roundedMantissa ≤ m.mantissa + 1 := by
  rw [ExtendedMantissa.roundedMantissa]
  cases m.accuracy with
  | exact => simp [Accuracy.roundToNearestEven]
  | inexact o =>
    cases o <;> simp [Accuracy.roundToNearestEven]
    omega

theorem le_roundedMantissa (m : ExtendedMantissa) : m.mantissa ≤ m.roundedMantissa := by
  rw [ExtendedMantissa.roundedMantissa]
  cases m.accuracy with
  | exact => simp [Accuracy.roundToNearestEven]
  | inexact o => cases o <;> simp [Accuracy.roundToNearestEven]

theorem mantissa_shiftToTarget (m : Nat) (e : Int) (a : Accuracy) :
    (shiftToTargetExponent format m e a).1.mantissa =
      m / 2 ^ ((shiftToTargetExponent format m e a).2 - e).toNat := by
  have start : (ExtendedMantissa.ofMantissaAndAccuracy m a).mantissa = m := by
    cases a with
    | exact => rfl
    | inexact o => cases o <;> rfl
  simp only [shiftToTargetExponent, shiftToExponent]
  rw [mantissa_shiftRight, start, Int.add_comm e, Int.add_sub_cancel, Int.toNat_natCast]

theorem exponent_shiftToTarget (m : Nat) (e : Int) (a : Accuracy) :
    (shiftToTargetExponent format m e a).2 = max e (max (m.log2 + 1 + e - 53) (-1074)) := by
  have digits : (format.mantissaBits : Int) = 53 := rfl
  have least : format.minExponent = -1074 := rfl
  simp only [shiftToTargetExponent, shiftToExponent, Format.targetExponent, totalExponent, digits,
    least]
  omega

-- A generous bound: both shifts together move by no more than the digits there are.
theorem within_round (s : Sign) (m : Nat) (e : Int) (a : Accuracy) :
    Within (max e (-1074) + 2 * m.log2) (roundWithAccuracy format s m e a) := by
  have rounded : (shiftToTargetExponent format m e a).1.roundedMantissa.log2 ≤ m.log2 + 1 := by
    have carried := roundedMantissa_le (shiftToTargetExponent format m e a).1
    have shifted : (shiftToTargetExponent format m e a).1.mantissa ≤ m := by
      rw [mantissa_shiftToTarget]
      exact Nat.div_le_self _ _
    have below : m < 2 ^ (m.log2 + 1) := Nat.lt_log2_self
    apply log2_le_of_lt
    rw [Nat.pow_succ]
    omega
  unfold roundWithAccuracy
  dsimp only
  split
  next => exact .zero s
  next =>
    apply Within.finite
    simp only [exponent_shiftToTarget]
    omega

-- What has more digits than a mantissa is cut to as many.
theorem shiftToTarget_long {m : Nat} {e : Int} (long : 53 ≤ m.log2) (least : -1022 ≤ m.log2 + e) :
    2 ^ 52 ≤ (shiftToTargetExponent format m e .exact).1.mantissa ∧
      (shiftToTargetExponent format m e .exact).1.mantissa < 2 ^ 53 ∧
      (shiftToTargetExponent format m e .exact).2 = m.log2 + e - 52 := by
  have place : (shiftToTargetExponent format m e .exact).2 = m.log2 + e - 52 := by
    rw [exponent_shiftToTarget]
    omega
  have nonzero : m ≠ 0 := by
    rintro rfl
    simp at long
  have amount : (m.log2 + e - 52 - e).toNat = m.log2 - 52 := by omega
  have split : m.log2 = 52 + (m.log2 - 52) := by omega
  obtain ⟨low, high⟩ := (Nat.log2_eq_iff nonzero).mp rfl
  rw [split, Nat.pow_add] at low
  rw [split, Nat.add_right_comm, Nat.pow_add] at high
  rw [mantissa_shiftToTarget, place, amount]
  exact ⟨(Nat.le_div_iff_mul_le (Nat.two_pow_pos _)).mpr low,
    (Nat.div_lt_iff_lt_mul (Nat.two_pow_pos _)).mpr high, rfl⟩

-- A carry takes one digit more, which is cut again.
theorem shiftToTarget_carried {m : Nat} {e : Int} (low : 2 ^ 52 ≤ m) (high : m ≤ 2 ^ 53)
    (least : -1074 ≤ e) :
    (shiftToTargetExponent format m e .exact).1.mantissa.log2 = 52 ∧
      e ≤ (shiftToTargetExponent format m e .exact).2 ∧
      (shiftToTargetExponent format m e .exact).2 ≤ e + 1 := by
  have place := exponent_shiftToTarget m e .exact
  by_cases carry : m = 2 ^ 53
  next =>
    subst carry
    have digits : (2 ^ 53 : Nat).log2 = 53 := by decide
    have next : (shiftToTargetExponent format (2 ^ 53) e .exact).2 = e + 1 := by omega
    have amount : (e + 1 - e).toNat = 1 := by omega
    rw [mantissa_shiftToTarget, next, amount]
    exact ⟨by decide, by omega, by omega⟩
  next =>
    have digits : m.log2 = 52 := (Nat.log2_eq_iff (by omega)).mpr ⟨low, by omega⟩
    have same : (shiftToTargetExponent format m e .exact).2 = e := by omega
    rw [mantissa_shiftToTarget, same, Int.sub_self, Int.toNat_zero, Nat.pow_zero, Nat.div_one]
    exact ⟨digits, by omega, by omega⟩

theorem round_long {m : Nat} {e : Int} (s : Sign) (long : 53 ≤ m.log2)
    (least : -1022 ≤ m.log2 + e) :
    ∃ r place, ∃ pos : 0 < r, roundWithAccuracy format s m e .exact = .finite s r place pos ∧
      r.log2 = 52 ∧ m.log2 + e - 52 ≤ place ∧ place ≤ m.log2 + e - 51 := by
  obtain ⟨low, high, place⟩ := shiftToTarget_long long least
  have up := roundedMantissa_le (shiftToTargetExponent format m e .exact).1
  have down := le_roundedMantissa (shiftToTargetExponent format m e .exact).1
  unfold roundWithAccuracy
  dsimp only
  rw [place]
  generalize (shiftToTargetExponent format m e .exact).1.roundedMantissa = r at up down ⊢
  have rounded : 2 ^ 52 ≤ r := by omega
  have carried : r ≤ 2 ^ 53 := by omega
  have normal : -1074 ≤ m.log2 + e - 52 := by omega
  obtain ⟨digits, after, before⟩ := shiftToTarget_carried rounded carried normal
  have positive : (shiftToTargetExponent format r (m.log2 + e - 52) .exact).1.mantissa ≠ 0 := by
    intro zero
    simp [zero] at digits
  exact ⟨_, _, Nat.pos_of_ne_zero positive, dif_neg positive, digits, after, by omega⟩

/-! ### Packing -/

theorem zero_ne_ones {w : Nat} (wide : 0 < w) : BitVec.ofNat w 0 ≠ -1#_ := by
  intro same
  have values := congrArg BitVec.toNat same
  have large := Nat.pow_le_pow_right (n := 2) (by decide) wide
  simp [BitVec.neg_one_eq_allOnes] at values
  omega

theorem ofNat_ne_ones {n w : Nat} (h : n + 1 < 2 ^ w) : BitVec.ofNat w n ≠ -1#_ := by
  intro same
  have values := congrArg BitVec.toNat same
  rw [BitVec.toNat_ofNat, Nat.mod_eq_of_lt (by omega), BitVec.neg_one_eq_allOnes,
    BitVec.toNat_allOnes] at values
  omega

section

variable {spec : Format}

-- An exponent that is not all ones is that of a zero or of a number.
theorem within_unpack {bits : BitVec spec.numBits} {b : Int} (finite : unpackExponent bits ≠ -1#_)
    (small : ((unpackExponent bits).toNat : Int) -
      (spec.exponentBias + spec.mantissaBitsWithoutImplicit) ≤ b)
    (least : 1 - ((spec.exponentBias : Int) + spec.mantissaBitsWithoutImplicit) ≤ b) :
    Within b (unpack spec bits) := by
  simp only [unpack, if_neg finite]
  split
  next zero =>
    split
    next => exact .zero _
    next =>
      apply Within.finite
      simp only [zero, BitVec.toNat_ofNat, Nat.zero_mod]
      omega
  next => exact .finite small

theorem within_components {s : Sign} {e : BitVec spec.exponentBits}
    {m : BitVec spec.mantissaBitsWithoutImplicit} {b : Int} (finite : e ≠ -1#_)
    (small : (e.toNat : Int) - (spec.exponentBias + spec.mantissaBitsWithoutImplicit) ≤ b)
    (least : 1 - ((spec.exponentBias : Int) + spec.mantissaBitsWithoutImplicit) ≤ b) :
    Within b (unpack spec (packComponents spec s e m)) := by
  apply within_unpack _ _ least <;> rwa [unpackExponent_packComponents]

theorem within_of_isFinite {bits : BitVec spec.numBits} {b : Int}
    (h : (unpack spec bits).isFinite = true)
    (least : 1 - ((spec.exponentBias : Int) + spec.mantissaBitsWithoutImplicit) ≤ b)
    (most : (2 ^ spec.exponentBits : Nat) ≤
      b + (spec.exponentBias + spec.mantissaBitsWithoutImplicit) + 2) :
    Within b (unpack spec bits) := by
  have finite : unpackExponent bits ≠ -1#_ := by
    intro ones
    simp only [unpack, if_pos ones] at h
    split at h <;> cases h
  apply within_unpack finite _ least
  have different : (unpackExponent bits).toNat ≠ 2 ^ spec.exponentBits - 1 := by
    intro same
    apply finite
    apply BitVec.eq_of_toNat_eq
    rw [same, BitVec.neg_one_eq_allOnes, BitVec.toNat_allOnes]
  have below := (unpackExponent bits).isLt
  omega

-- Packing makes numbers infinite, but not those with a small exponent.
theorem within_unpack_pack {u : UnpackedFloat} {b : Int} (h : Within b u)
    (least : 1 - ((spec.exponentBias : Int) + spec.mantissaBitsWithoutImplicit) ≤ b)
    (most : b + (spec.exponentBias + spec.mantissaBitsWithoutImplicit) + 1 <
      (2 ^ spec.exponentBits : Nat)) :
    Within b (unpack spec (pack spec u)) := by
  have below : ((BitVec.ofNat spec.exponentBits 0).toNat : Int) -
      (spec.exponentBias + spec.mantissaBitsWithoutImplicit) ≤ b := by
    simp only [BitVec.toNat_ofNat, Nat.zero_mod]
    omega
  cases h with
  | zero s => exact within_components (zero_ne_ones spec.he) below least
  | @finite s m e pos small =>
    rw [pack]
    split
    next large => omega
    next large =>
      split
      next =>
        apply within_components (ofNat_ne_ones (by omega)) ?_ least
        rw [BitVec.toNat_ofNat, Nat.mod_eq_of_lt (by omega)]
        omega
      next => exact within_components (zero_ne_ones spec.he) below least

theorem isNaN_unpack {s : Sign} {e : BitVec spec.exponentBits}
    {m : BitVec spec.mantissaBitsWithoutImplicit} (finite : e ≠ -1#_) :
    (unpack spec (packComponents spec s e m)).isNaN = false := by
  have within := within_components (s := s) (m := m) finite (Int.le_max_left _ _)
    (Int.le_max_right _ _)
  exact (isFinite_iff.mp within.isFinite).1

theorem isNaN_unpack_infinity (s : Sign) :
    (unpack spec (packedInfinity spec s)).isNaN = false := by
  simp [unpack, packedInfinity, UnpackedFloat.isNaN]

-- What is no number is not made by packing.
theorem isNaN_unpack_pack {u : UnpackedFloat} (number : u.isNaN = false) :
    (unpack spec (pack spec u)).isNaN = false := by
  fun_cases pack spec u with
  | case1 => cases number
  | case2 s => exact isNaN_unpack_infinity s
  | case3 s => exact isNaN_unpack (zero_ne_ones spec.he)
  | case4 s m e pos biased large => exact isNaN_unpack_infinity s
  | case5 s m e pos bits biased large normal => exact isNaN_unpack (ofNat_ne_ones (by omega))
  | case6 s m e pos bits biased large subnormal => exact isNaN_unpack (zero_ne_ones spec.he)

theorem mantissa_unpack {bits : BitVec spec.numBits} {s : Sign} {m : Nat} {e : Int} {pos : 0 < m}
    (h : unpack spec bits = .finite s m e pos) :
    m < 2 ^ (1 + spec.mantissaBitsWithoutImplicit) := by
  have wider : 2 ^ spec.mantissaBitsWithoutImplicit ≤ 2 ^ (1 + spec.mantissaBitsWithoutImplicit) :=
    Nat.pow_le_pow_right (by decide) (Nat.le_add_left _ 1)
  dsimp only [unpack] at h
  split at h
  next => split at h <;> cases h
  next =>
    split at h
    next =>
      split at h
      next => cases h
      next =>
        cases h
        exact Nat.lt_of_lt_of_le (BitVec.isLt _) wider
    next =>
      cases h
      exact BitVec.isLt _

end

theorem unpackSign_packComponents {spec : Format} {s : Sign} {e : BitVec spec.exponentBits}
    {m : BitVec spec.mantissaBitsWithoutImplicit} :
    Sign.ofBitVec (unpackSign (packComponents spec s e m)) = s := by
  have bit : unpackSign (packComponents spec s e m) = s.toBitVec := by
    ext i hi
    obtain rfl : i = 0 := by omega
    simp [unpackSign, packComponents, BitVec.getLsbD_append, BitVec.getElem_append]
  rw [bit]
  cases s <;> rfl

-- Packing and unpacking keep a number with all digits.
theorem unpack_pack_normal {s : Sign} {m : Nat} {e : Int} {pos : 0 < m} (normal : m.log2 = 52)
    (least : -1074 ≤ e) (most : e < 972) :
    unpack format (pack format (.finite s m e pos)) = .finite s m e pos := by
  obtain ⟨low, high⟩ := (Nat.log2_eq_iff (Nat.ne_of_gt pos)).mp normal
  have bias : (format.exponentBias + format.mantissaBitsWithoutImplicit : Int) = 1075 := rfl
  have biased : (e + format.exponentBias + format.mantissaBitsWithoutImplicit).toNat =
      (e + 1075).toNat := by
    rw [Int.add_assoc, bias]
  have range : (2 : Nat) ^ format.exponentBits = 2048 := rfl
  have value : (BitVec.ofNat format.exponentBits (e + 1075).toNat).toNat = (e + 1075).toNat := by
    rw [BitVec.toNat_ofNat, Nat.mod_eq_of_lt (by omega)]
  have nonzero : BitVec.ofNat format.exponentBits (e + 1075).toNat ≠ 0#_ := by
    intro zero
    rw [zero, BitVec.toNat_ofNat, Nat.zero_mod] at value
    omega
  have leading : (1#1 ++ BitVec.ofNat format.mantissaBitsWithoutImplicit m).toNat = m := by
    rw [BitVec.toNat_append, ← Nat.shiftLeft_add_eq_or_of_lt (BitVec.isLt _), BitVec.toNat_ofNat]
    change 1 <<< 52 + m % 2 ^ 52 = m
    rw [Nat.shiftLeft_eq]
    omega
  have digits : m.log2 + 1 = format.mantissaBits := by
    rw [normal]
    rfl
  rw [pack]
  dsimp only
  rw [biased, if_neg (by omega), if_pos digits, unpack]
  simp only [unpackExponent_packComponents, unpackMantissa_packComponents,
    unpackSign_packComponents]
  rw [if_neg (ofNat_ne_ones (by omega)), if_neg nonzero]
  simp only [UnpackedFloat.finite.injEq, leading, value, bias, true_and]
  omega

/-! ### Arithmetic -/

def unpacked (f : Float) : UnpackedFloat := f.toModel.unpack

theorem unpacked_mul (f g : Float) :
    unpacked (f * g) = unpack format (pack format (mul format (unpacked f) (unpacked g))) := rfl

theorem unpacked_div (f g : Float) :
    unpacked (f / g) = unpack format (pack format (div format (unpacked f) (unpacked g))) := rfl

theorem digits_unpacked {f : Float} {s : Sign} {m : Nat} {e : Int} {pos : 0 < m}
    (h : unpacked f = .finite s m e pos) : m < 2 ^ 53 :=
  mantissa_unpack h

theorem within_unpacked {u : UnpackedFloat} {b : Int} (h : Within b u) (least : -1074 ≤ b)
    (most : b < 972) : Within b (unpacked (.ofModel (.pack u))) := by
  have most : b + 1075 + 1 < (2 ^ 11 : Nat) := by omega
  exact @within_unpack_pack format u b h least most

theorem within_mul {f g : Float} {b c : Int} (hf : Within b (unpacked f))
    (hg : Within c (unpacked g)) (most : max (b + c) (-1074) + 210 < 972) :
    Within (max (b + c) (-1074) + 210) (unpacked (f * g)) := by
  rw [unpacked_mul]
  apply within_unpacked ?_ (by omega) most
  generalize left : unpacked f = u at hf ⊢
  generalize right : unpacked g = v at hg ⊢
  cases hf with
  | zero => cases hg <;> exact .zero _
  | @finite s m e pos small =>
    cases hg with
    | zero => exact .zero _
    | @finite s' m' e' pos' small' =>
      have digits : (m * m').log2 ≤ 105 := by
        apply log2_le_of_lt
        have below := Nat.mul_lt_mul'' (digits_unpacked left) (digits_unpacked right)
        omega
      exact (within_round _ _ _ _).mono (by omega)

-- The quotient gets as many digits as the dividend lacks, and not many more.
theorem within_divCore {s s' : Sign} {m m' : Nat} {e e' : Int} {pos : 0 < m} {pos' : 0 < m'}
    (short : m < 2 ^ 53) (short' : m' < 2 ^ 53) :
    Within (max (e - e') (-1074) + 210)
      (div format (.finite s m e pos) (.finite s' m' e' pos')) := by
  have digits : m.log2 ≤ 52 := log2_le_of_lt short
  have digits' : m'.log2 ≤ 52 := log2_le_of_lt short'
  have bits : (format.mantissaBits : Int) = 53 := rfl
  have least : format.minExponent = -1074 := rfl
  simp only [div, divCore, totalExponent, Format.targetExponent, bits, least]
  generalize target : min (e - e') (max (m.log2 + 1 + e - (m'.log2 + 1 + e') - 53) (-1074)) = t
  have quotient : (m <<< (e - e' - t).toNat / m').log2 ≤ 105 := by
    have shifted := log2_shiftLeft_le m (e - e' - t).toNat
    apply log2_le_of_lt
    apply Nat.lt_of_le_of_lt (Nat.div_le_self _ _)
    apply Nat.lt_of_lt_of_le Nat.lt_log2_self
    apply Nat.pow_le_pow_right (by decide)
    omega
  exact (within_round _ _ _ _).mono (by omega)

theorem within_div {f g : Float} {b : Int} {s : Sign} {m : Nat} {e : Int} {pos : 0 < m}
    (hf : Within b (unpacked f)) (hg : unpacked g = .finite s m e pos)
    (most : max (b - e) (-1074) + 210 < 972) :
    Within (max (b - e) (-1074) + 210) (unpacked (f / g)) := by
  rw [unpacked_div, hg]
  apply within_unpacked ?_ (by omega) most
  generalize left : unpacked f = u at hf ⊢
  cases hf with
  | zero => exact .zero _
  | finite small =>
    exact (within_divCore (digits_unpacked left) (digits_unpacked hg)).mono (by omega)

theorem isNaN_mul {u v : UnpackedFloat} (hu : u.isFinite = true) (hv : v.isFinite = true) :
    (mul format u v).isNaN = false := by
  cases u with
  | infinity | notANumber => cases hu
  | zero =>
    cases v with
    | infinity | notANumber => cases hv
    | zero | finite => rfl
  | finite =>
    cases v with
    | infinity | notANumber => cases hv
    | zero => rfl
    | finite => exact (isFinite_iff.mp (within_round _ _ _ _).isFinite).1

-- A product of numbers is a number, or it is infinite.
theorem isFinite_mul {f g : Float} (hf : f.isFinite = true) (hg : g.isFinite = true)
    (bounded : (f * g).isInf = false) : (f * g).isFinite = true := by
  have number : (unpacked (f * g)).isNaN = false := by
    rw [unpacked_mul]
    exact isNaN_unpack_pack (isNaN_mul hf hg)
  exact isFinite_iff.mpr ⟨number, bounded⟩

theorem isFinite_neg {f : Float} (h : f.isFinite = true) : (-f).isFinite = true := by
  have negated : Within 971 (unpacked f).neg := by
    have within : Within 971 (unpacked f) := within_of_isFinite h (by decide) (by decide)
    generalize unpacked f = u at within ⊢
    cases within with
    | zero => exact .zero _
    | finite small => exact .finite small
  exact (within_unpacked negated (by omega) (by omega)).isFinite

/-! ### Integers -/

theorem within_natural {n : Nat} (h : n < 2 ^ 64) : Within 240 (UnpackedFloat.ofNat format n) := by
  by_cases zero : n = 0
  next =>
    subst zero
    exact .zero _
  next =>
    have positive : compare (n : Int) 0 = .gt := by
      rw [Int.compare_eq_gt]
      omega
    have digits : n.log2 ≤ 63 := log2_le_of_lt h
    have bits : (format.mantissaBits : Int) = 53 := rfl
    have least : format.minExponent = -1074 := rfl
    simp only [UnpackedFloat.ofNat, UnpackedFloat.ofInt, UnpackedFloat.normalize, positive,
      UnpackedFloat.round, Format.targetExponent, totalExponent, decreaseExponent,
      Int.toNat_natCast, bits, least]
    have shifted := log2_shiftLeft_le n (0 - max ((n.log2 : Int) + 1 + 0 - 53) (-1074)).toNat
    exact (within_round _ _ _ _).mono (by omega)

theorem ofScientific_whole {spec : Format} {n k : Nat} (nonzero : n ≠ 0)
    (small : k ≤ 2 ^ spec.exponentBits) :
    UnpackedFloat.ofScientific spec n k = roundWithAccuracy spec (.positive * .positive)
      ((n <<< spec.mantissaBits) * 10 ^ k) (-spec.mantissaBits) .exact := by
  have least : (0 : Int) ≤ 2 ^ spec.exponentBits := Int.le_of_lt (Int.pow_pos (by decide))
  have most : (k : Int) ≤ 2 ^ spec.exponentBits := by exact_mod_cast small
  rw [UnpackedFloat.ofScientific, dif_neg nonzero, if_neg (by omega), if_neg (by omega),
    if_pos (by omega)]
  simp [mul]

theorem within_scientific {n : Nat} (h : n < 2 ^ 64) :
    Within 240 (UnpackedFloat.ofScientific format n 0) := by
  by_cases zero : n = 0
  next =>
    subst zero
    exact .zero _
  next =>
    have digits : n.log2 ≤ 63 := log2_le_of_lt h
    have shifted := log2_shiftLeft_le n 53
    have bits : format.mantissaBits = 53 := rfl
    have rounded := @ofScientific_whole format n 0 zero (Nat.zero_le _)
    rw [bits, Nat.pow_zero, Nat.mul_one, Nat.cast_zero] at rounded
    rw [rounded]
    exact (within_round _ _ _ _).mono (by omega)

-- Small integers are converted by another way than large ones.
theorem within_ofNat {n : Nat} (h : n < 2 ^ 64) : Within 400 (unpacked (Float.ofNat n)) := by
  change Within 400 (unpacked (Float.ofScientific n false 0))
  unfold Float.ofScientific
  split
  next small =>
    have word : n.toUInt64.toNat < 2 ^ 64 := n.toUInt64.toNat_lt
    have whole : Within 240 (unpacked n.toUInt64.toFloat) :=
      within_unpacked (within_natural word) (by omega) (by omega)
    have one : Within (-52) (unpacked (Float.ofBits 0x3FF0000000000000)) := by decide +kernel
    exact (within_mul whole one (by omega)).mono (by omega)
  next => exact (within_unpacked (within_scientific h) (by omega) (by omega)).mono (by omega)

theorem isFinite_ofNat {n : Nat} (h : n < 2 ^ 64) : (Float.ofNat n).isFinite = true :=
  (within_ofNat h).isFinite

theorem isFinite_ofInt {n : Int} (h : n.natAbs < 2 ^ 64) : (Float.ofInt n).isFinite = true := by
  cases n with
  | ofNat n => exact isFinite_ofNat h
  | negSucc n => exact isFinite_neg (isFinite_ofNat h)

/-! ### Decimals -/

-- The exponent of a number that is neither zero nor infinite.
def lastPlace? : UnpackedFloat → Option Int
  | .finite _ _ e _ => some e
  | _ => none

theorem lastPlace_normal {s : Sign} {m : Nat} {e : Int} {pos : 0 < m} (normal : m.log2 = 52)
    (least : -1074 ≤ e) (most : e < 972) :
    lastPlace? (unpack format (pack format (.finite s m e pos))) = some e := by
  rw [unpack_pack_normal normal least most]
  rfl

theorem digits_power {k : Nat} (small : k ≤ 307) :
    53 ≤ (1 <<< 53 * 10 ^ k).log2 ∧ (1 <<< 53 * 10 ^ k).log2 ≤ 1072 := by
  have positive : 0 < 10 ^ k := Nat.pow_pos (by decide)
  constructor
  next =>
    rw [Nat.le_log2 (Nat.mul_ne_zero (by decide) (Nat.ne_of_gt positive))]
    exact Nat.le_mul_of_pos_right _ positive
  next =>
    apply log2_le_of_lt
    calc
      1 <<< 53 * 10 ^ k
      _ ≤ 1 <<< 53 * 10 ^ 307 :=
        Nat.mul_le_mul_left _ (Nat.pow_le_pow_right (by decide) small)
      _ < 2 ^ (1072 + 1) := by decide +kernel

theorem lastPlace_rounded {k : Nat} (long : 22 < k) (small : k ≤ 307) :
    (lastPlace? (unpacked (Float.ofScientific 1 false k))).any (-52 ≤ ·) = true := by
  have converted : Float.ofScientific 1 false k =
      .ofModel (.pack (UnpackedFloat.ofScientific format 1 k)) := by
    rw [Float.ofScientific, dif_neg (by omega)]
    rfl
  obtain ⟨least, most⟩ := digits_power small
  have room : k ≤ 2 ^ format.exponentBits := by
    change k ≤ 2048
    omega
  have whole : UnpackedFloat.ofScientific format 1 k = roundWithAccuracy format
      (.positive * .positive) (1 <<< 53 * 10 ^ k) (-53) .exact :=
    ofScientific_whole (by decide) room
  obtain ⟨m, place, pos, rounded, normal, low, high⟩ :=
    @round_long _ (-53) (.positive * .positive) least (by omega)
  rw [converted, whole, rounded]
  change (lastPlace? (unpack format (pack format _))).any (-52 ≤ ·) = true
  rw [lastPlace_normal normal (by omega) (by omega), Option.any_some, decide_eq_true_eq]
  omega

-- Powers that are exact are taken from a table.
theorem lastPlace_exact :
    ∀ k < 23, (lastPlace? (unpacked (Float.ofScientific 1 false k))).any (-52 ≤ ·) = true := by
  decide +kernel

theorem lastPlace_greatest :
    (lastPlace? (unpacked (Float.ofScientific 1 false 308))).any (900 ≤ ·) = true := by
  decide +kernel

theorem exists_of_lastPlace {u : UnpackedFloat} {b : Int}
    (place : (lastPlace? u).any (b ≤ ·) = true) :
    ∃ s m e, ∃ pos : 0 < m, u = .finite s m e pos ∧ b ≤ e := by
  cases u with
  | finite s m e pos => exact ⟨s, m, e, pos, rfl, by simpa [lastPlace?] using place⟩
  | _ => simp [lastPlace?] at place

-- The powers of ten that a scaling takes in one step are finite and not below one.
theorem lastPlace_power {k : Nat} (covered : k < 309) :
    (lastPlace? (unpacked (Float.ofScientific 1 false k))).any (-52 ≤ ·) = true := by
  by_cases short : k < 23
  next => exact lastPlace_exact k short
  next =>
    by_cases greatest : k = 308
    next =>
      subst greatest
      obtain ⟨s, m, e, pos, same, large⟩ := exists_of_lastPlace lastPlace_greatest
      rw [same, lastPlace?, Option.any_some, decide_eq_true_eq]
      omega
    next => exact lastPlace_rounded (by omega) (by omega)

end StepTrace.Number

namespace StepTrace.Json

open Number

theorem isFinite_scaleTen {f g : Float} {e : Int} {fuel : Nat} (h : Within 400 (unpacked f))
    (found : scaleTen f e fuel = some g) : g.isFinite = true := by
  induction fuel generalizing f e with
  | zero =>
    obtain rfl := Option.some.inj found
    exact h.isFinite
  | succ fuel ih =>
    rw [scaleTen] at found
    split at found
    next near =>
      have covered : e.natAbs < 309 := by omega
      obtain ⟨s, m, place, pos, power, large⟩ := exists_of_lastPlace (lastPlace_power covered)
      dsimp only at found
      split at found
      next =>
        split at found
        next => cases found
        next bounded =>
          obtain rfl := Option.some.inj found
          have finite : (Float.ofScientific 1 false e.natAbs).isFinite = true := by
            change (unpacked _).isFinite = true
            rw [power]
            rfl
          exact isFinite_mul h.isFinite finite (by simpa using bounded)
      next =>
        obtain rfl := Option.some.inj found
        exact (within_div h power (by omega)).isFinite
    next =>
      split at found
      next =>
        obtain rfl := Option.some.inj found
        exact h.isFinite
      next =>
        split at found
        next => cases found
        next =>
          obtain ⟨s, m, place, pos, power, large⟩ := exists_of_lastPlace lastPlace_greatest
          exact ih ((within_div h power (by omega)).mono (by omega)) found

theorem isFinite_ofParts {negative : Bool} {significand : Nat} {e : Int} {f : Float}
    (h : significand ≤ maxSignificand) (found : ofParts negative significand e = some f) :
    f.isFinite = true := by
  obtain ⟨g, scaled, rfl⟩ := Option.map_eq_some_iff.mp found
  have finite : g.isFinite = true := isFinite_scaleTen (within_ofNat (Nat.lt_succ_of_le h)) scaled
  cases negative with
  | true => exact isFinite_neg finite
  | false => exact finite

end StepTrace.Json
