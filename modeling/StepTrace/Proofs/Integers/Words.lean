import Mathlib.Data.Int.Bitwise
import StepTrace.Number.Word
import StepTrace.Arithmetic

/-!
Integers and their words. An integer has bits without end, those far up telling its sign; a word has
the bits of its value, the last one of them standing for all that follow. Division rounds down: the
quotient is first rounded towards zero and then lowered by one, and the remainder raised by the
divisor, where the signs call for it. None of the steps leaves the words, but for the one quotient
that is no word itself.
-/

set_option autoImplicit false

namespace StepTrace

/-! ### Bits -/

namespace Number

theorem eq_of_testBit {m n : Int} (same : ∀ i, m.testBit i = n.testBit i) : m = n := by
  -- far enough up a natural number has no bits, and a negative one has all
  have apart : ∀ k l : Nat, ¬ ∀ i, k.testBit i = !l.testBit i := by
    intro k l same
    have small : ∀ j, j ≤ max k l → j.testBit (max k l) = false := fun j le =>
      Nat.testBit_lt_two_pow (Nat.lt_of_le_of_lt le Nat.lt_two_pow_self)
    have here := same (max k l)
    rw [small k (Nat.le_max_left k l), small l (Nat.le_max_right k l)] at here
    cases here
  cases m with
  | ofNat k =>
    cases n with
    | ofNat l => exact congrArg Int.ofNat (Nat.eq_of_testBit_eq same)
    | negSucc l => exact absurd same (apart k l)
  | negSucc k =>
    cases n with
    | ofNat l => exact absurd (fun i => (same i).symm) (apart l k)
    | negSucc l =>
      refine congrArg Int.negSucc (Nat.eq_of_testBit_eq fun i => ?_)
      exact Bool.not_inj (same i)

theorem testBit_toInt (w : Int64) (i : Nat) :
    w.toInt.testBit i = w.toBitVec.getLsbD (min i 63) := by
  generalize value : w.toBitVec = x
  have word : w.toInt =
      if x.msb = true then (x.toNat : Int) - (2 ^ 64 : Nat) else (x.toNat : Int) :=
    value ▸ BitVec.toInt_eq_msb_cond w.toBitVec
  have top : x.msb = x.getLsbD 63 := BitVec.msb_eq_getLsbD_last x
  have beyond : 64 ≤ i → x.getLsbD i = false := x.getLsbD_of_ge i
  by_cases negative : x.msb = true
  next =>
    have below : (x.toNat : Int) - (2 ^ 64 : Nat) = Int.negSucc (~~~x).toNat := by
      have := x.isLt
      rw [BitVec.toNat_not]
      omega
    rw [word, if_pos negative, below]
    change (!(~~~x).getLsbD i) = _
    rw [BitVec.getLsbD_not]
    rcases Nat.lt_or_ge i 64 with inside | outside
    · simp [inside, Nat.min_eq_left (Nat.le_of_lt_succ inside)]
    · simp [Nat.not_lt.2 outside, Nat.min_eq_right (Nat.le_of_lt outside), ← top, negative]
  next =>
    rw [word, if_neg negative]
    change x.getLsbD i = _
    rcases Nat.lt_or_ge i 64 with inside | outside
    · rw [Nat.min_eq_left (Nat.le_of_lt_succ inside)]
    · rw [Nat.min_eq_right (Nat.le_of_lt outside), beyond outside, ← top, eq_comm]
      simpa using negative

-- What goes over the bits of two words gives the word whose bits come out.
theorem eq_toInt_iff_bits (f : Bool → Bool → Bool) {a b w : Int64}
    (bits : ∀ i < 64, w.toBitVec.getLsbD i = f (a.toBitVec.getLsbD i) (b.toBitVec.getLsbD i))
    (k : Int) : (∀ i, k.testBit i = f (a.toInt.testBit i) (b.toInt.testBit i)) ↔ k = w.toInt := by
  have here : ∀ i, w.toInt.testBit i = f (a.toInt.testBit i) (b.toInt.testBit i) := by
    intro i
    simp only [testBit_toInt]
    exact bits _ (Nat.lt_succ_of_le (Nat.min_le_right i 63))
  constructor
  · intro same
    exact eq_of_testBit fun i => (same i).trans (here i).symm
  · rintro rfl
    exact here

end Number

/-! ### Division that rounds down -/

section

open Number

/-- `q` is the quotient rounded down, and `r` is what remains. -/
structure FloorDivision (a b q r : Int) : Prop where
  whole : a = q * b + r
  sign : r = 0 ∨ (r < 0 ↔ b < 0)
  small : r.natAbs < b.natAbs

namespace FloorDivision

variable {a b q r : Int}

theorem ne_zero (h : FloorDivision a b q r) : b ≠ 0 := by
  have := h.small
  omega

theorem fmod_bounds (a : Int) (divisor : b ≠ 0) :
    0 ≤ a.fmod b ∧ a.fmod b < b ∨ b < a.fmod b ∧ a.fmod b ≤ 0 := by
  have low := Int.emod_nonneg a divisor
  have high := Int.emod_lt a divisor
  have exact := Int.dvd_iff_emod_eq_zero (a := b) (b := a)
  rw [Int.fmod_eq_emod]
  split <;> omega

theorem of_ne_zero (a : Int) (divisor : b ≠ 0) : FloorDivision a b (a.fdiv b) (a.fmod b) := by
  have bounds := fmod_bounds a divisor
  refine ⟨?whole, by omega, by omega⟩
  case whole =>
    rw [Int.mul_comm]
    exact (Int.mul_fdiv_add_fmod a b).symm

theorem unique {q' r' : Int} (h : FloorDivision a b q r) (h' : FloorDivision a b q' r') :
    q = q' ∧ r = r' := by
  have apart : (q - q') * b = r' - r := by
    have := h.whole
    have := h'.whole
    rw [Int.sub_mul]
    omega
  -- remainders of the same sign differ by less than the divisor
  have near : (r' - r).natAbs < b.natAbs := by
    have := h.sign
    have := h'.sign
    have := h.small
    have := h'.small
    omega
  have same : q = q' := by
    refine Decidable.byContradiction fun other => ?_
    have far := Nat.le_mul_of_pos_left b.natAbs (n := (q - q').natAbs) (by omega)
    rw [← Int.natAbs_mul, apart] at far
    omega
  subst same
  refine ⟨rfl, ?_⟩
  rw [Int.sub_self, Int.zero_mul] at apart
  omega

theorem iff (divisor : b ≠ 0) : FloorDivision a b q r ↔ q = a.fdiv b ∧ r = a.fmod b := by
  constructor
  · exact fun h => h.unique (of_ne_zero a divisor)
  · rintro ⟨rfl, rfl⟩
    exact of_ne_zero a divisor

end FloorDivision

namespace Arithmetic

theorem exact_toInt (w : Int64) : exact w.toInt = .ok w := exact_eq_ok_iff.2 rfl

theorem map_ok_ofInt? {n : Int} (fits : FitsWord n) :
    (ofInt? n).map Except.ok = some (exact n) := by
  simp [exact, ofInt?, fits]

end Arithmetic

/-! ### Step by step -/

namespace Words

open Arithmetic (exact exact_toInt map_ok_ofInt?)

/-- The sum of two words, if it is a word. -/
def sum? (a b : Int64) : Option Int64 := ofInt? (a.toInt + b.toInt)

def difference? (a b : Int64) : Option Int64 := ofInt? (a.toInt - b.toInt)

def product? (a b : Int64) : Option Int64 := ofInt? (a.toInt * b.toInt)

def opposite? (a : Int64) : Option Int64 := ofInt? (-a.toInt)

/-- The quotient rounded towards zero, if there is a divisor and the quotient is a word. -/
def divided? (a b : Int64) : Option Int64 := if b = 0 then none else ofInt? (a.toInt.tdiv b.toInt)

/-- The remainder that goes with it; there is none where the quotient is missing. -/
def remaining? (a b : Int64) : Option Int64 := (divided? a b).map fun _ => a % b

/-- Whether a number and a divisor are on different sides of zero. -/
def opposed (a b : Int64) : Bool := decide (a < 0) != decide (b < 0)

/-- The quotient rounded down, as it is computed: nothing comes out if a step is no word. -/
def floorDiv? (a b : Int64) : Option (Except Fault Int64) :=
  if b = 0 then some (.error .floorDivisionByZero)
  else
    match divided? a b with
    | none => some (.error .outOfRange)
    | some q =>
      (remaining? a b).bind fun r =>
        if r ≠ 0 ∧ opposed a b then (ofInt? (q.toInt - 1)).map .ok else some (.ok q)

/-- The remainder with the sign of the divisor, as it is computed. -/
def floorMod? (a b : Int64) : Option (Except Fault Int64) :=
  if b = 0 then some (.error .moduloByZero)
  else
    let r := a % b
    if r ≠ 0 ∧ opposed r b then (ofInt? (r.toInt + b.toInt)).map .ok else some (.ok r)

variable {a b : Int64}

theorem ofInt?_of_fits {n : Int} (fits : FitsWord n) : ofInt? n = some (Int64.ofInt n) := if_pos fits

theorem exists_ofInt? {n : Int} (fits : FitsWord n) : ∃ w, ofInt? n = some w ∧ w.toInt = n :=
  ⟨_, ofInt?_of_fits fits, toInt_ofInt_of_fits fits⟩

theorem sum?_of_fits (fits : FitsWord (a.toInt + b.toInt)) : sum? a b = some (a + b) := by
  rw [sum?, ofInt?_of_fits fits, Int64.ofInt_add, Int64.ofInt_toInt, Int64.ofInt_toInt]

theorem difference?_of_fits (fits : FitsWord (a.toInt - b.toInt)) :
    difference? a b = some (a - b) := by
  rw [difference?, ofInt?_of_fits fits, Int64.ofInt_sub, Int64.ofInt_toInt, Int64.ofInt_toInt]

theorem product?_of_fits (fits : FitsWord (a.toInt * b.toInt)) : product? a b = some (a * b) := by
  rw [product?, ofInt?_of_fits fits, Int64.ofInt_mul, Int64.ofInt_toInt, Int64.ofInt_toInt]

-- Only the least word has a quotient beyond the words.
theorem divided?_of_small (divisor : b ≠ 0) (small : a.toInt.natAbs < 2 ^ 63) :
    divided? a b = some (Int64.ofInt (a.toInt.tdiv b.toInt)) := by
  have bound := Int.natAbs_tdiv_le_natAbs a.toInt b.toInt
  rw [divided?, if_neg divisor, ofInt?_of_fits]
  unfold FitsWord
  omega

theorem opposed_iff : opposed a b = true ↔ ¬ (a.toInt < 0 ↔ b.toInt < 0) := by
  have sign : ∀ w : Int64, w < 0 ↔ w.toInt < 0 := fun w => Int64.lt_iff_toInt_lt
  simp only [opposed, sign, bne_iff_ne, ne_eq, decide_eq_decide]

theorem toInt_ne_zero : b ≠ 0 ↔ b.toInt ≠ 0 := by
  rw [ne_eq, ← Int64.toInt_inj]
  rfl

theorem tmod_bounds (a : Int) {b : Int} (divisor : b ≠ 0) :
    (a.tmod b).natAbs < b.natAbs ∧ (0 ≤ a → 0 ≤ a.tmod b) ∧ (a ≤ 0 → a.tmod b ≤ 0) := by
  refine ⟨?_, Int.tmod_nonneg b, fun negative => ?_⟩
  · rw [Int.natAbs_tmod]
    exact Nat.mod_lt _ (Int.natAbs_pos.2 divisor)
  · have := Int.tmod_nonneg b (Int.neg_nonneg_of_nonpos negative)
    rw [Int.neg_tmod] at this
    omega

-- From the quotient and the remainder rounded towards zero to those rounded down.
theorem floorDivision_of_tdiv (a : Int) {b : Int} (divisor : b ≠ 0) :
    if a.tmod b ≠ 0 ∧ ¬ (a < 0 ↔ b < 0) then FloorDivision a b (a.tdiv b - 1) (a.tmod b + b)
    else FloorDivision a b (a.tdiv b) (a.tmod b) := by
  have whole := Int.mul_tdiv_add_tmod a b
  obtain ⟨small, up, down⟩ := tmod_bounds a divisor
  rw [Int.mul_comm] at whole
  split
  next => exact ⟨by rw [Int.sub_mul]; omega, by omega, by omega⟩
  next => exact ⟨whole.symm, by omega, small⟩

-- A quotient at either end of the words, or beyond them, leaves no remainder.
theorem tmod_eq_zero {a b : Int} (divisor : b ≠ 0) (dividend : FitsWord a)
    (last : ¬ (FitsWord (a.tdiv b) ∧ FitsWord (a.tdiv b - 1))) : a.tmod b = 0 := by
  have whole := Int.mul_tdiv_add_tmod a b
  have bound := Int.natAbs_tdiv_le_natAbs a b
  obtain ⟨small, -⟩ := tmod_bounds a divisor
  unfold FitsWord at dividend last
  have ends : a.tdiv b = 0x8000000000000000 ∨ a.tdiv b = -0x8000000000000000 := by omega
  rcases ends with here | here
  · rw [here] at whole
    omega
  · rw [here] at whole
    omega

theorem floorDiv?_eq (a b : Int64) : floorDiv? a b = some (Arithmetic.floorDiv a b) := by
  unfold floorDiv? Arithmetic.floorDiv
  split
  next => rfl
  next nonzero =>
  have divisor := toInt_ne_zero.1 nonzero
  have division := floorDivision_of_tdiv a.toInt divisor
  have last := tmod_eq_zero divisor (fits_toInt a)
  have remainder : a % b ≠ 0 ∧ opposed a b = true ↔
      a.toInt.tmod b.toInt ≠ 0 ∧ ¬ (a.toInt < 0 ↔ b.toInt < 0) := by
    rw [opposed_iff, toInt_ne_zero, Int64.toInt_mod]
  rw [remaining?, divided?, if_neg nonzero]
  cases quotient : ofInt? (a.toInt.tdiv b.toInt) with
  | none =>
    have outside := ofInt?_eq_none_iff.1 quotient
    rw [if_neg fun h => h.1 (last fun fits => outside fits.1)] at division
    rw [← (division.unique (.of_ne_zero _ divisor)).1]
    simp [exact, quotient]
  | some q =>
    have value := ofInt?_eq_some_iff.1 quotient
    rw [← value] at division last
    dsimp only [Option.map_some, Option.bind_some]
    split
    next opposed =>
      rw [if_pos (remainder.1 opposed)] at division
      rw [← (division.unique (.of_ne_zero _ divisor)).1]
      apply map_ok_ofInt?
      exact Decidable.byContradiction fun outside =>
        (remainder.1 opposed).1 (last fun fits => outside fits.2)
    next agreeing =>
      rw [if_neg (mt remainder.2 agreeing)] at division
      rw [← (division.unique (.of_ne_zero _ divisor)).1, exact_toInt]

theorem floorMod?_eq (a b : Int64) : floorMod? a b = some (Arithmetic.floorMod a b) := by
  unfold floorMod? Arithmetic.floorMod
  split
  next => rfl
  next nonzero =>
  have divisor := toInt_ne_zero.1 nonzero
  obtain ⟨small, up, down⟩ := tmod_bounds a.toInt divisor
  have division := floorDivision_of_tdiv a.toInt divisor
  rw [← Int64.toInt_mod] at division small up down
  have remainder : a % b ≠ 0 ∧ opposed (a % b) b = true ↔
      (a % b).toInt ≠ 0 ∧ ¬ (a.toInt < 0 ↔ b.toInt < 0) := by
    rw [opposed_iff, toInt_ne_zero]
    omega
  dsimp only
  split
  next opposed =>
    rw [if_pos (remainder.1 opposed)] at division
    rw [← (division.unique (.of_ne_zero _ divisor)).2]
    apply map_ok_ofInt?
    have := division.small
    have := fits_toInt b
    unfold FitsWord at *
    omega
  next agreeing =>
    rw [if_neg (mt remainder.2 agreeing)] at division
    rw [← (division.unique (.of_ne_zero _ divisor)).2, exact_toInt]

end Words

end

end StepTrace
