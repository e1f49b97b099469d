import Mathlib
import StepTrace.Comparison
import StepTrace.Proofs.Documents.Finite

/-!
Keys of numbers. Fractions that compare equal have one key; an integer has the key of the fraction
nearest to it as long as that fraction is the integer itself.
-/

set_option autoImplicit false

namespace StepTrace.Number

open Float.Model (Format UnpackedFloat totalExponent)
open Float.Model.UnpackedFloat

/-! ### Bits -/

def sign (f : Float) : Sign := if signBit f then .negative else .positive

-- The bits below that of the sign.
def unsignedBits (f : Float) : Nat := f.toBits.toNat % 2 ^ 63

theorem signBit_iff (f : Float) : signBit f = true ↔ 2 ^ 63 ≤ f.toBits.toNat := by
  have small := f.toBits.toNat_lt
  simp only [signBit, beq_iff_eq]
  omega

theorem eq_of_bits {f g : Float} (signs : sign f = sign g)
    (rest : unsignedBits f = unsignedBits g) : f = g := by
  have sf := f.toBits.toNat_lt
  have sg := g.toBits.toNat_lt
  have side : 2 ^ 63 ≤ f.toBits.toNat ↔ 2 ^ 63 ≤ g.toBits.toNat := by
    rw [← signBit_iff, ← signBit_iff]
    unfold sign at signs
    split at signs <;> split at signs <;> simp_all
  have words : f.toModel.toBits = g.toModel.toBits := by
    apply UInt64.toNat_inj.mp
    change f.toBits.toNat = g.toBits.toNat
    simp only [unsignedBits] at rest
    omega
  obtain ⟨⟨bits, valid⟩⟩ := f
  obtain ⟨⟨bits', valid'⟩⟩ := g
  cases words
  rfl

theorem magnitude_eq (f : Float) : magnitude f =
    if f.toBits.toNat / 2 ^ 52 % 2 ^ 11 = 0 then ⟨f.toBits.toNat % 2 ^ 52, -1074⟩
    else ⟨2 ^ 52 + f.toBits.toNat % 2 ^ 52, (f.toBits.toNat / 2 ^ 52 % 2 ^ 11 : Nat) - 1075⟩ := rfl

theorem unsignedBits_of_magnitude {f g : Float} (same : magnitude f = magnitude g) :
    unsignedBits f = unsignedBits g := by
  rw [magnitude_eq, magnitude_eq] at same
  simp only [unsignedBits]
  split at same <;> split at same <;> simp only [Scaled.mk.injEq] at same <;> omega

-- What the bits of a number mean.
def Means (f : Float) : UnpackedFloat → Prop
  | .zero s => s = sign f ∧ unsignedBits f = 0
  | .finite s m e _ => s = sign f ∧ magnitude f = ⟨m, e⟩
  | .infinity s => s = sign f ∧ unsignedBits f = 0x7FF * 2 ^ 52
  | .notANumber => True

section

variable (bits : BitVec format.numBits)

theorem toNat_unpackMantissa : (unpackMantissa bits).toNat = bits.toNat % 2 ^ 52 := by
  simp [unpackMantissa, BitVec.extractLsb]

theorem toNat_unpackExponent :
    (unpackExponent bits).toNat = bits.toNat / 2 ^ 52 % 2 ^ 11 := by
  simp [unpackExponent, BitVec.extractLsb, Nat.shiftRight_eq_div_pow]

theorem toNat_unpackSign : (unpackSign bits).toNat = bits.toNat / 2 ^ 63 % 2 := by
  simp [unpackSign, BitVec.extractLsb, Nat.shiftRight_eq_div_pow]

end

theorem means_unpacked (f : Float) : Means f (unpacked f) := by
  obtain ⟨n, same⟩ : ∃ bits : BitVec format.numBits, bits = f.toBits.toBitVec := ⟨_, rfl⟩
  have value : f.toBits.toNat = n.toNat := by rw [same]; rfl
  have small : n.toNat < 2 ^ 64 := n.isLt
  have mantissa := toNat_unpackMantissa n
  have exponent := toNat_unpackExponent n
  have signs : Sign.ofBitVec (unpackSign n) = sign f := by
    have low := toNat_unpackSign n
    simp only [Sign.ofBitVec, sign, signBit_iff, value, BitVec.toNat_eq, low, BitVec.toNat_ofNat]
    split <;> split <;> first | rfl | omega
  change Means f (unpack format f.toBits.toBitVec)
  rw [← same]
  simp only [unpack, signs]
  split
  next ones =>
    split
    next zero =>
      have e := congrArg BitVec.toNat ones
      have m := congrArg BitVec.toNat zero
      refine ⟨rfl, ?_⟩
      simp [BitVec.neg_one_eq_allOnes] at e m
      simp only [unsignedBits]
      omega
    next => trivial
  next finite =>
    have bias : (format.exponentBias + format.mantissaBitsWithoutImplicit : Int) = 1075 := rfl
    split
    next low =>
      have e := congrArg BitVec.toNat low
      simp only [exponent, BitVec.toNat_ofNat, Nat.zero_mod] at e
      split
      next zero =>
        have m := congrArg BitVec.toNat zero
        simp only [mantissa, BitVec.toNat_ofNat, Nat.zero_mod] at m
        refine ⟨rfl, ?_⟩
        simp only [unsignedBits]
        omega
      next =>
        refine ⟨rfl, ?_⟩
        rw [magnitude_eq, value, if_pos e, mantissa, exponent, e, bias]
        rfl
    next high =>
      have e : n.toNat / 2 ^ 52 % 2 ^ 11 ≠ 0 := fun zero =>
        high (BitVec.eq_of_toNat_eq (exponent.trans zero))
      refine ⟨rfl, ?_⟩
      have leading : (1#1 ++ unpackMantissa n).toNat = 2 ^ 52 + n.toNat % 2 ^ 52 := by
        rw [BitVec.toNat_append, ← Nat.shiftLeft_add_eq_or_of_lt (BitVec.isLt _), mantissa]
        rfl
      rw [magnitude_eq, value, if_neg e, leading, exponent, bias]

-- Two numbers of one meaning are one number, unless they are none.
theorem eq_of_unpacked {f g : Float} (same : unpacked f = unpacked g)
    (number : (unpacked f).isNaN = false) : f = g := by
  have mf := means_unpacked f
  have mg := means_unpacked g
  rw [← same] at mg
  cases h : unpacked f with
  | notANumber =>
    rw [h] at number
    cases number
  | zero s | infinity s =>
    rw [h] at mf mg
    exact eq_of_bits (mf.1.symm.trans mg.1) (mf.2.trans mg.2.symm)
  | finite s m e pos =>
    rw [h] at mf mg
    exact eq_of_bits (mf.1.symm.trans mg.1) (unsignedBits_of_magnitude (mf.2.trans mg.2.symm))

/-! ### Equality -/

theorem eq_of_compare {u v : UnpackedFloat} (same : u.compare v = some .eq) :
    (u = v ∧ u.isNaN = false) ∨ ∃ s t, u = .zero s ∧ v = .zero t := by
  have order {e e' : Int} {m m' : Nat} (h : (compare e e').then (compare m m') = .eq) :
      e = e' ∧ m = m' := by
    rw [Ordering.then_eq_eq, Int.compare_eq_eq, Nat.compare_eq_eq] at h
    exact h
  cases u with
  | notANumber => cases v <;> cases same
  | infinity s =>
    left
    cases v with
    | infinity t => cases s <;> cases t <;> first | exact ⟨rfl, rfl⟩ | cases same
    | _ => cases s <;> cases same
  | zero s =>
    right
    cases v with
    | zero t => exact ⟨s, t, rfl, rfl⟩
    | infinity t => cases t <;> cases same
    | finite t => cases t <;> cases same
    | notANumber => cases same
  | finite s m e pos =>
    left
    cases v with
    | finite t m' e' pos' =>
      cases s <;> cases t <;> first | cases same | skip
      next =>
        obtain ⟨rfl, rfl⟩ := order (by simpa using congrArg Ordering.swap (Option.some.inj same))
        exact ⟨rfl, rfl⟩
      next =>
        obtain ⟨rfl, rfl⟩ := order (Option.some.inj same)
        exact ⟨rfl, rfl⟩
    | infinity t => cases t <;> cases s <;> cases same
    | zero => cases s <;> cases same
    | notANumber => cases s <;> cases same

theorem floatKey_of_zero {f : Float} {s : Sign} (zero : unpacked f = .zero s) :
    Heap.floatKey f = .int 0 := by
  have means := means_unpacked f
  rw [zero] at means
  by_cases negative : signBit f = true
  next =>
    have same : f = -0.0 := by
      apply eq_of_bits
      · rw [sign, if_pos negative, sign, if_pos (by decide +kernel)]
      · rw [means.2]
        decide +kernel
    rw [same]
    decide +kernel
  next =>
    have same : f = 0.0 := by
      apply eq_of_bits
      · rw [sign, if_neg negative, sign, if_neg (by decide +kernel)]
      · rw [means.2]
        decide +kernel
    rw [same]
    decide +kernel

theorem floatKey_congr {f g : Float} (same : (f == g) = true) :
    Heap.floatKey f = Heap.floatKey g := by
  have compared : (unpacked f).compare (unpacked g) = some .eq := eq_of_beq same
  obtain ⟨same, number⟩ | ⟨s, t, zf, zg⟩ := eq_of_compare compared
  · rw [eq_of_unpacked same number]
  · rw [floatKey_of_zero zf, floatKey_of_zero zg]

/-! ### Integers -/

theorem shiftToTarget_normal {m : Nat} {e : Int} (normal : m.log2 = 52) (least : -1074 ≤ e) :
    shiftToTargetExponent format m e .exact = (⟨m, false, false⟩, e) := by
  have target : format.targetExponent (totalExponent m e) = e := by
    change max ((m.log2 : Int) + 1 + e - 53) (-1074) = e
    omega
  rw [shiftToTargetExponent, target, shiftToExponent, Int.sub_self]
  simp only [Int.toNat_zero, Int.natCast_zero, Int.add_zero]
  rfl

theorem round_normal {s : Sign} {m : Nat} {e : Int} (normal : m.log2 = 52) (least : -1074 ≤ e)
    (pos : 0 < m) : roundWithAccuracy format s m e .exact = .finite s m e pos := by
  have whole : ExtendedMantissa.roundedMantissa ⟨m, false, false⟩ = m := rfl
  unfold roundWithAccuracy
  rw [shiftToTarget_normal normal least]
  dsimp only
  rw [whole, shiftToTarget_normal normal least]
  exact dif_neg (Nat.ne_of_gt pos)

-- A natural number of at most 53 digits.
theorem unpacked_natural {k : Nat} (nonzero : k ≠ 0) (short : k < 2 ^ 53) :
    ∃ j : Nat, ∃ pos, j ≤ 52 ∧ (k * 2 ^ j).log2 = 52 ∧
      UnpackedFloat.ofNat format k = .finite .positive (k * 2 ^ j) (-(j : Int)) pos := by
  have digits : k.log2 ≤ 52 := log2_le_of_lt short
  obtain ⟨j, total⟩ : ∃ j, k.log2 + j = 52 := ⟨52 - k.log2, by omega⟩
  have positive : compare (k : Int) 0 = .gt := by
    rw [Int.compare_eq_gt]
    omega
  have target : format.targetExponent (totalExponent k 0) = -(j : Int) := by
    change max ((k.log2 : Int) + 1 + 0 - 53) (-1074) = _
    omega
  have shift : ((0 : Int) - -(j : Int)).toNat = j := by omega
  have pos : 0 < k * 2 ^ j := Nat.mul_pos (Nat.pos_of_ne_zero nonzero) (Nat.two_pow_pos _)
  have normal : (k * 2 ^ j).log2 = 52 := by
    obtain ⟨low, high⟩ := (Nat.log2_eq_iff nonzero).mp rfl
    rw [Nat.log2_eq_iff (Nat.ne_of_gt pos), ← total, Nat.add_right_comm, Nat.pow_add, Nat.pow_add]
    exact ⟨Nat.mul_le_mul_right _ low, Nat.mul_lt_mul_of_pos_right high (Nat.two_pow_pos _)⟩
  refine ⟨j, pos, by omega, normal, ?_⟩
  simp only [UnpackedFloat.ofNat, UnpackedFloat.ofInt, UnpackedFloat.normalize, positive,
    UnpackedFloat.round, decreaseExponent, Int.toNat_natCast, target]
  rw [shift, Nat.shiftLeft_eq, Int.zero_sub]
  exact round_normal normal (by omega) pos

-- The fraction nearest to an integer of at most 53 digits is the integer itself.
structure Exact (n : Int) (f : Float) : Prop where
  finite : f.isFinite = true
  magnitude : ∃ j : Nat, magnitude f = ⟨n.natAbs * 2 ^ j, -j⟩
  negative : signBit f = true ↔ n < 0
  small : f.abs < 9.2e18

theorem unpacked_greatest : ∃ m pos, unpacked 9.2e18 = .finite .positive m 10 pos := by
  have place : lastPlace? (unpacked 9.2e18) = some 10 := by decide +kernel
  have signs : sign 9.2e18 = .positive := if_neg (by decide +kernel)
  have means := means_unpacked 9.2e18
  cases h : unpacked 9.2e18 with
  | finite s m e pos =>
    rw [h] at place means
    obtain rfl := Option.some.inj place
    obtain rfl := means.1.trans signs
    exact ⟨m, pos, rfl⟩
  | _ =>
    rw [h] at place
    cases place

theorem exact_of_unpacked {f : Float} {s : Sign} {k j : Nat} {pos : 0 < k * 2 ^ j} (least : j ≤ 52)
    (normal : (k * 2 ^ j).log2 = 52) (h : unpacked f = .finite s (k * 2 ^ j) (-(j : Int)) pos) :
    Exact (s.apply k) f := by
  have means := means_unpacked f
  rw [h] at means
  have whole : unpacked f.abs = .finite .positive (k * 2 ^ j) (-(j : Int)) pos := by
    change unpack format (pack format (unpacked f).abs) = _
    rw [h]
    exact unpack_pack_normal normal (by omega) (by omega)
  have nonzero : k ≠ 0 := by
    rintro rfl
    simp at pos
  constructor
  · change (unpacked f).isFinite = true
    rw [h]
    rfl
  · refine ⟨j, ?_⟩
    rw [means.2]
    cases s <;> simp [Sign.apply]
  · have signs := means.1
    rw [sign] at signs
    cases s <;> simp [Sign.apply] <;> split at signs <;> simp_all
    omega
  · obtain ⟨m, pos', most⟩ := unpacked_greatest
    have order : compare (-(j : Int)) 10 = .lt := by
      rw [Int.compare_eq_lt]
      omega
    have less : (unpacked f.abs).lt (unpacked 9.2e18) = true := by
      rw [whole, most]
      simp [UnpackedFloat.lt, UnpackedFloat.compare, order]
    exact decide_eq_true less

theorem toNat_toUInt64 {w : Int64} (positive : 0 ≤ w.toInt) :
    (w.toUInt64.toNat : Int) = w.toInt := by
  have cases := w.toBitVec.toInt_eq_toNat_cond
  have small := w.toBitVec.isLt
  change w.toInt = _ at cases
  change (w.toBitVec.toNat : Int) = _
  split at cases <;> omega

theorem unpacked_toFloat {w : Int64} {k : Nat} (nonzero : k ≠ 0) (short : k < 2 ^ 53)
    (value : w.toInt = k) : ∃ j : Nat, ∃ pos, j ≤ 52 ∧ (k * 2 ^ j).log2 = 52 ∧
      unpacked w.toUInt64.toFloat = .finite .positive (k * 2 ^ j) (-(j : Int)) pos := by
  obtain ⟨j, pos, least, normal, whole⟩ := unpacked_natural nonzero short
  have positive : 0 ≤ w.toInt := by omega
  have same : w.toUInt64.toNat = k := by
    have read := toNat_toUInt64 positive
    omega
  refine ⟨j, pos, least, normal, ?_⟩
  change unpack format (pack format (UnpackedFloat.ofNat format w.toUInt64.toNat)) = _
  rw [same, whole]
  exact unpack_pack_normal normal (by omega) (by omega)

-- Words of at most 53 digits are converted without loss.
theorem exact_ofWord {n : Int64} (nonzero : n.toInt ≠ 0) (short : n.toInt.natAbs < 2 ^ 53) :
    Exact n.toInt (ofWord n) := by
  have side : n < 0 ↔ n.toInt < 0 := by rw [Int64.lt_iff_toInt_lt, Int64.toInt_zero]
  rw [ofWord]
  split
  next negative =>
    rw [side] at negative
    have value : (-n).toInt = n.toInt.natAbs := by
      rw [Int64.toInt_neg, Int.bmod_eq_of_le (by omega) (by omega)]
      omega
    obtain ⟨j, pos, least, normal, whole⟩ := unpacked_toFloat (by omega) short value
    have sign : Sign.negative.apply n.toInt.natAbs = n.toInt := by
      change -(n.toInt.natAbs : Int) = _
      omega
    have opposite : unpacked (-(-n).toUInt64.toFloat) =
        .finite .negative (n.toInt.natAbs * 2 ^ j) (-(j : Int)) pos := by
      change unpack format (pack format (unpacked _).neg) = _
      rw [whole]
      exact unpack_pack_normal normal (by omega) (by omega)
    exact sign ▸ exact_of_unpacked least normal opposite
  next positive =>
    rw [side] at positive
    have value : n.toInt = n.toInt.natAbs := by omega
    obtain ⟨j, pos, least, normal, whole⟩ := unpacked_toFloat (by omega) short value
    have sign : Sign.positive.apply n.toInt.natAbs = n.toInt := value.symm
    exact sign ▸ exact_of_unpacked least normal whole

theorem fraction_shift (k j : Nat) : (Scaled.mk (k * 2 ^ j) (-j)).fraction =
    (k * 2 ^ j, 2 ^ j) := by
  unfold Scaled.fraction
  split
  next positive =>
    obtain rfl : j = 0 := by simpa using positive
    simp
  next => simp

theorem floatKey_exact {n : Int64} {f : Float} (h : Exact n.toInt f) :
    Heap.floatKey f = .int n := by
  obtain ⟨j, scaled⟩ := h.magnitude
  have integral : isIntegral f = true := by
    simp [isIntegral, h.finite, scaled, fraction_shift]
  have part : integerPart f = n.toInt := by
    rw [integerPart, scaled, fraction_shift]
    dsimp only
    rw [Nat.mul_div_cancel _ (Nat.two_pow_pos j)]
    split
    next negative =>
      rw [h.negative] at negative
      omega
    next positive =>
      rw [h.negative] at positive
      omega
  obtain ⟨number, bounded⟩ : f.isNaN = false ∧ f.isInf = false := isFinite_iff.mp h.finite
  have word : toWord f = n := by
    rw [toWord, if_neg (Bool.eq_false_iff.mp number), if_neg (Bool.eq_false_iff.mp bounded), part]
    apply Int64.toInt_inj.mp
    rw [clampWord_toInt]
    have fits := fits_toInt n
    rw [FitsWord] at fits
    omega
  rw [Heap.floatKey, integral, word]
  simp [h.small]

-- Up to 2 ^ 53, an integer has the key of the fraction nearest to it.
theorem floatKey_ofWord {n : Int64} (short : n.toInt.natAbs ≤ 2 ^ 53) :
    Heap.floatKey (ofWord n) = .int n := by
  by_cases special : n.toInt.natAbs = 2 ^ 53 ∨ n.toInt = 0
  next =>
    have known : n = 0 ∨ n = 9007199254740992 ∨ n = -9007199254740992 := by
      simp only [← Int64.toInt_inj]
      have zero : (0 : Int64).toInt = 0 := by decide
      have most : (9007199254740992 : Int64).toInt = 2 ^ 53 := by decide
      have least : (-9007199254740992 : Int64).toInt = -2 ^ 53 := by decide
      omega
    rcases known with rfl | rfl | rfl <;> decide +kernel
  next => exact floatKey_exact (exact_ofWord (by omega) (by omega))

end StepTrace.Number
