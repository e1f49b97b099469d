import StepTrace.Eval.Builtin
import StepTrace.Proofs.Integers.Words

/-!
Arithmetic of integers. An operator gives the integer that it gives without bounds on integers, or
it refuses: because that integer is no word, because the divisor is zero, or because the bits are to
be moved by less than nothing.
-/

set_option autoImplicit false

namespace StepTrace

open Number

/-! ### Moving bits down -/

namespace Arithmetic

theorem toInt_shiftRight_small (a : Int64) {n : Nat} (small : n < 64) :
    (a >>> Int64.ofNat n).toInt = a.toInt / 2 ^ n := by
  have counts : ∀ i : Fin 64, ((BitVec.ofNat 64 i).smod 64).toNat = i := by decide +kernel
  have count : ((Int64.ofNat n).toBitVec.smod 64).toNat = n := counts ⟨n, small⟩
  change (a >>> Int64.ofNat n).toBitVec.toInt = a.toBitVec.toInt / 2 ^ n
  rw [Int64.toBitVec_shiftRight, BitVec.sshiftRight', count, BitVec.toInt_sshiftRight,
    Int.shiftRight_eq_div_pow]
  norm_cast

theorem toInt_shiftRight (a : Int64) (n : Nat) : (shiftRight a n).toInt = a.toInt / 2 ^ n := by
  unfold shiftRight
  split
  next far =>
    have word := fits_toInt a
    have large : (2 : Int) ^ 64 ≤ 2 ^ n := by exact_mod_cast Nat.pow_le_pow_right (by decide) far
    unfold FitsWord at word
    have negative : a < 0 ↔ a.toInt < 0 := Int64.lt_iff_toInt_lt
    split
    next below =>
      exact (Int.ediv_eq_neg_one_of_neg_of_le (negative.1 below) (by omega)).symm
    next above =>
      have above := mt negative.2 above
      exact (Int.ediv_eq_zero_of_lt (by omega) (by omega)).symm
  next near => exact toInt_shiftRight_small a (Nat.lt_of_not_le near)

end Arithmetic

/-! ### Steps in words -/

namespace Words

/-- The bits moved down by one of the counts that a word has room for. -/
def shifted? (a b : Int64) : Option Int64 := if 0 ≤ b ∧ b < 64 then some (a >>> b) else none

def shiftRight? (a b : Int64) : Option (Except Fault Int64) :=
  if b < 0 then some (.error .negativeShift)
  else if 64 ≤ b then some (.ok (if a < 0 then -1 else 0))
  else (shifted? a b).map .ok

/--
An operator carried out on words: nothing comes out if a step leaves them that is not checked. Sums,
differences and products are checked as they are made, and bits stay where they are.
-/
def carryOut? (op : BinaryOp) (a b : Int64) : Option (Except Fault Int64) :=
  match op with
  | .add => some (Arithmetic.exact (a.toInt + b.toInt))
  | .sub => some (Arithmetic.exact (a.toInt - b.toInt))
  | .mul => some (Arithmetic.exact (a.toInt * b.toInt))
  | .floorDiv => floorDiv? a b
  | .mod => floorMod? a b
  | .shiftRight => shiftRight? a b
  | .bitAnd => some (.ok (a &&& b))
  | .bitOr => some (.ok (a ||| b))
  | .bitXor => some (.ok (a ^^^ b))
  | _ => none

theorem shiftRight?_eq (a b : Int64) :
    shiftRight? a b = some (if b < 0 then .error .negativeShift
      else .ok (Arithmetic.shiftRight a b.toInt.toNat)) := by
  have count : (64 : Int64).toInt = 64 := rfl
  have zero : (0 : Int64).toInt = 0 := rfl
  unfold shiftRight? shifted? Arithmetic.shiftRight
  simp only [Int64.lt_iff_toInt_lt, Int64.le_iff_toInt_le, count, zero]
  split
  next => rfl
  next natural =>
  have whole : (b.toInt.toNat : Int) = b.toInt := Int.toNat_of_nonneg (Int.not_lt.1 natural)
  have same : Int64.ofNat b.toInt.toNat = b := by
    rw [← Int64.ofInt_eq_ofNat, whole, Int64.ofInt_toInt]
  rw [same]
  by_cases far : 64 ≤ b.toInt
  next =>
    have far' : 64 ≤ b.toInt.toNat := by omega
    rw [if_pos far, if_pos far']
  next =>
    have near : ¬ 64 ≤ b.toInt.toNat := by omega
    rw [if_neg far, if_neg near, if_pos ⟨by omega, by omega⟩, Option.map_some]

/-- The operators whose results are integers for all integers. -/
def integral : List BinaryOp :=
  [.add, .sub, .mul, .floorDiv, .mod, .shiftRight, .bitAnd, .bitOr, .bitXor]

theorem exists_carryOut? {op : BinaryOp} (known : op ∈ integral) (a b : Int64) :
    ∃ r, carryOut? op a b = some r ∧ Arithmetic.ofInts op a b = .int <$> r := by
  simp only [integral, List.mem_cons, List.not_mem_nil, or_false] at known
  rcases known with rfl | rfl | rfl | rfl | rfl | rfl | rfl | rfl | rfl
  case inr.inr.inr.inl => exact ⟨_, floorDiv?_eq a b, rfl⟩
  case inr.inr.inr.inr.inl => exact ⟨_, floorMod?_eq a b, rfl⟩
  case inr.inr.inr.inr.inr.inl =>
    refine ⟨_, shiftRight?_eq a b, ?_⟩
    rw [Arithmetic.ofInts]
    split <;> rfl
  all_goals exact ⟨_, rfl, rfl⟩

end Words

/-! ### What operators mean -/

/-- An operation is refused for a reason. -/
def Refused {α : Type} (r : Except Fault α) (kind : FaultKind) : Prop :=
  ∃ f, r = .error f ∧ f.kind = kind

section

variable {α : Type} {kind : FaultKind}

@[simp] theorem not_refused_ok (x : α) : ¬ Refused (.ok x) kind := by
  rintro ⟨f, ⟨⟩, -⟩

@[simp] theorem refused_error {f : Fault} :
    Refused (.error f : Except Fault α) kind ↔ f.kind = kind := by
  constructor
  · rintro ⟨_, ⟨⟩, same⟩
    exact same
  · exact fun same => ⟨f, rfl, same⟩

end

/--
An operation gives its results, and it is refused if and only if its result is out of range, its
divisor is zero or its count is negative.
-/
structure Settles {α : Type} (Gives : α → Prop) (OutOfRange ByZero Negative : Prop)
    (r : Except Fault α) : Prop where
  gives : ∀ x, r = .ok x ↔ Gives x
  outOfRange : Refused r .overflow ↔ OutOfRange
  byZero : Refused r .zeroDivision ↔ ByZero
  negative : Refused r .value ↔ Negative
  refused : ∀ f, r = .error f → f.kind ∈ [.overflow, .zeroDivision, .value]

section

variable {α : Type} {Gives : α → Prop} {OutOfRange ByZero Negative : Prop}

theorem Settles.ok {x : α} (here : ∀ y, Gives y ↔ y = x) (inside : ¬ OutOfRange)
    (divisor : ¬ ByZero) (count : ¬ Negative) :
    Settles Gives OutOfRange ByZero Negative (.ok x) where
  gives y := by
    rw [here, Except.ok.injEq]
    exact eq_comm
  outOfRange := by simp [inside]
  byZero := by simp [divisor]
  negative := by simp [count]
  refused _ := by rintro ⟨⟩

theorem Settles.error {f : Fault} (nothing : ∀ x, ¬ Gives x)
    (known : f.kind ∈ [.overflow, .zeroDivision, .value])
    (outside : f.kind = .overflow ↔ OutOfRange) (divisor : f.kind = .zeroDivision ↔ ByZero)
    (count : f.kind = .value ↔ Negative) :
    Settles Gives OutOfRange ByZero Negative (.error f) where
  gives x := by simp [nothing]
  outOfRange := by rwa [refused_error]
  byZero := by rwa [refused_error]
  negative := by rwa [refused_error]
  refused _ := by
    rintro ⟨⟩
    exact known

end

theorem Settles.exact {α : Type} {Gives : α → Prop} {OutOfRange ByZero Negative : Prop}
    {word : Int64 → α} {n : Int} (gives : ∀ x, Gives x ↔ ∃ w : Int64, x = word w ∧ w.toInt = n)
    (outside : OutOfRange ↔ ¬ FitsWord n) (divisor : ¬ ByZero) (count : ¬ Negative) :
    Settles Gives OutOfRange ByZero Negative (word <$> Arithmetic.exact n) := by
  rw [outside]
  by_cases fits : FitsWord n
  next =>
    obtain ⟨w, rfl⟩ : ∃ w : Int64, w.toInt = n := ⟨_, toInt_ofInt_of_fits fits⟩
    rw [Arithmetic.exact_toInt]
    refine .ok (fun y => ?_) (not_not_intro fits) divisor count
    simp [gives, Int64.toInt_inj]
  next =>
    have refused : Arithmetic.exact n = .error .outOfRange := by
      simp [Arithmetic.exact, ofInt?_eq_none_iff.2 fits]
    rw [refused]
    refine .error (fun x here => ?_) List.mem_cons_self (iff_of_true rfl fits)
      (iff_of_false (by decide) divisor) (iff_of_false (by decide) count)
    obtain ⟨w, -, same⟩ := (gives x).1 here
    exact fits (same ▸ fits_toInt w)

/-- An operation gives the integer with a property, if that is a word. -/
abbrev SettlesInteger {α : Type} (word : Int64 → α) (Meant : Int → Prop) (ByZero Negative : Prop) :
    Except Fault α → Prop :=
  Settles (fun x => ∃ w, x = word w ∧ Meant w.toInt) (∃ k, Meant k ∧ ¬ FitsWord k) ByZero Negative

section

variable {α : Type} {word : Int64 → α} {Meant : Int → Prop} {ByZero Negative : Prop}

theorem SettlesInteger.exact {n : Int} (meant : ∀ k, Meant k ↔ k = n) (divisor : ¬ ByZero)
    (count : ¬ Negative) :
    SettlesInteger word Meant ByZero Negative (word <$> Arithmetic.exact n) :=
  Settles.exact (by simp [meant]) (by simp [meant]) divisor count

-- The three errors exclude each other, so one of them is the only one.
theorem SettlesInteger.refused {f : Fault} (never : ∀ k, ¬ Meant k)
    (known : f.kind ∈ [.zeroDivision, .value]) (divisor : f.kind = .zeroDivision ↔ ByZero)
    (count : f.kind = .value ↔ Negative) :
    SettlesInteger word Meant ByZero Negative (.error f) := by
  refine .error ?_ (List.mem_cons_of_mem _ known) ?_ divisor count
  · rintro _ ⟨w, -, meant⟩
    exact never _ meant
  · refine iff_of_false (fun other => ?_) fun ⟨k, meant, _⟩ => never k meant
    simp [other] at known

end

/-- The integers that have each bit made from the bits of two others. -/
def Bitwise (f : Bool → Bool → Bool) (m n k : Int) : Prop :=
  ∀ i, k.testBit i = f (m.testBit i) (n.testBit i)

/-- What an operator stands for on integers without bounds: `k` is the result for `m` and `n`. -/
def Means (op : BinaryOp) (m n k : Int) : Prop :=
  match op with
  | .add => k = m + n
  | .sub => k = m - n
  | .mul => k = m * n
  | .floorDiv => ∃ r, FloorDivision m n k r
  | .mod => ∃ q, FloorDivision m n q k
  | .shiftRight => 0 ≤ n ∧ ∃ r, FloorDivision m (2 ^ n.toNat) k r
  | .bitAnd => Bitwise and m n k
  | .bitOr => Bitwise or m n k
  | .bitXor => Bitwise xor m n k
  | _ => False

/-- The result of an operator is what it stands for. -/
abbrev SettlesOperator (op : BinaryOp) (a b : Int64) : Except Fault Outcome → Prop :=
  SettlesInteger (fun w => .value (.int w)) (Means op a.toInt b.toInt)
    ((op = .floorDiv ∨ op = .mod) ∧ b = 0) (op = .shiftRight ∧ b < 0)

section

variable (h : Heap) (a b : Int64)

theorem binary_ints (op : BinaryOp) :
    h.binary op (.int a) (.int b) = .value <$> Arithmetic.ofInts op a b := by
  cases op <;> rfl

variable {a b} in
theorem binary_of_exact {op : BinaryOp} {n : Int}
    (computed : Arithmetic.ofInts op a b = .int <$> Arithmetic.exact n) :
    h.binary op (.int a) (.int b) = (fun w => .value (.int w)) <$> Arithmetic.exact n := by
  rw [binary_ints, computed]
  cases Arithmetic.exact n <;> rfl

theorem settles_of_exact {op : BinaryOp} {n : Int}
    (computed : Arithmetic.ofInts op a b = .int <$> Arithmetic.exact n)
    (meant : ∀ k, Means op a.toInt b.toInt k ↔ k = n)
    (divisor : ¬ ((op = .floorDiv ∨ op = .mod) ∧ b = 0)) (count : ¬ (op = .shiftRight ∧ b < 0)) :
    SettlesOperator op a b (h.binary op (.int a) (.int b)) := by
  rw [binary_of_exact h computed]
  exact .exact meant divisor count

theorem settles_division {op : BinaryOp} (division : op = .floorDiv ∨ op = .mod) :
    SettlesOperator op a b (h.binary op (.int a) (.int b)) := by
  by_cases divisor : b = 0
  next =>
    subst divisor
    have never : ∀ q r, ¬ FloorDivision a.toInt 0 q r := fun q r h => h.ne_zero rfl
    rcases division with rfl | rfl
    · exact .refused (fun k ⟨r, h⟩ => never k r h) (by decide) (by decide) (by decide)
    · exact .refused (fun k ⟨q, h⟩ => never q k h) (by decide) (by decide) (by decide)
  next =>
    have nonzero := Words.toInt_ne_zero.1 divisor
    have iff := fun q r => FloorDivision.iff (a := a.toInt) (q := q) (r := r) nonzero
    rcases division with rfl | rfl
    · refine settles_of_exact h a b (n := a.toInt.fdiv b.toInt) ?_ ?_ (by simp [divisor]) (by simp)
      · simp [Arithmetic.ofInts, Arithmetic.floorDiv, divisor]
      · simp [Means, iff]
    · refine settles_of_exact h a b (n := a.toInt.fmod b.toInt) ?_ ?_ (by simp [divisor]) (by simp)
      · simp [Arithmetic.ofInts, Arithmetic.floorMod, divisor]
      · simp [Means, iff]

theorem settles_shiftRight :
    SettlesOperator .shiftRight a b (h.binary .shiftRight (.int a) (.int b)) := by
  have below : b < 0 ↔ b.toInt < 0 := Int64.lt_iff_toInt_lt
  by_cases negative : b < 0
  next =>
    have below : ¬ 0 ≤ b.toInt := Int.not_le.2 (below.1 negative)
    have computed : h.binary .shiftRight (.int a) (.int b) = .error .negativeShift := by
      rw [binary_ints, Arithmetic.ofInts, if_pos negative]
      rfl
    rw [computed]
    exact .refused (fun k meant => below meant.1) (by decide)
      (by simp [Fault.negativeShift, Fault.value])
      (by simp [Fault.negativeShift, Fault.value, negative])
  next =>
    have natural : 0 ≤ b.toInt := Int.not_lt.1 (mt below.2 negative)
    have power : (2 : Int) ^ b.toInt.toNat ≠ 0 := pow_ne_zero _ (by decide)
    have down : a.toInt.fdiv (2 ^ b.toInt.toNat) = a.toInt / 2 ^ b.toInt.toNat :=
      Int.fdiv_eq_ediv_of_nonneg _ (Int.le_of_lt (Int.pow_pos (by decide)))
    refine settles_of_exact h a b (n := a.toInt / 2 ^ b.toInt.toNat) ?_ ?_ (by simp)
      (by simp [negative])
    · rw [Arithmetic.ofInts, if_neg negative, ← Arithmetic.toInt_shiftRight, Arithmetic.exact_toInt]
      rfl
    · simp only [Means, natural, FloorDivision.iff power, down, true_and, exists_and_left,
        exists_eq, and_true, implies_true]

theorem settles_bits {op : BinaryOp} {w : Int64} {f : Bool → Bool → Bool}
    (computed : Arithmetic.ofInts op a b = .ok (.int w))
    (meant : Means op a.toInt b.toInt = Bitwise f a.toInt b.toInt)
    (bits : ∀ i < 64, w.toBitVec.getLsbD i = f (a.toBitVec.getLsbD i) (b.toBitVec.getLsbD i))
    (divisor : ¬ ((op = .floorDiv ∨ op = .mod) ∧ b = 0)) (count : ¬ (op = .shiftRight ∧ b < 0)) :
    SettlesOperator op a b (h.binary op (.int a) (.int b)) := by
  refine settles_of_exact h a b (n := w.toInt) ?_ (fun k => ?_) divisor count
  · rw [computed, Arithmetic.exact_toInt]
    rfl
  · rw [meant]
    exact eq_toInt_iff_bits f bits k

theorem settles_binary {op : BinaryOp} (known : op ∈ Words.integral) :
    SettlesOperator op a b (h.binary op (.int a) (.int b)) := by
  simp only [Words.integral, List.mem_cons, List.not_mem_nil, or_false] at known
  rcases known with rfl | rfl | rfl | rfl | rfl | rfl | rfl | rfl | rfl
  · exact settles_of_exact h a b rfl (fun _ => Iff.rfl) (by simp) (by simp)
  · exact settles_of_exact h a b rfl (fun _ => Iff.rfl) (by simp) (by simp)
  · exact settles_of_exact h a b rfl (fun _ => Iff.rfl) (by simp) (by simp)
  · exact settles_division h a b (.inl rfl)
  · exact settles_division h a b (.inr rfl)
  · exact settles_shiftRight h a b
  · exact settles_bits h a b (f := and) rfl rfl (by simp) (by simp) (by simp)
  · exact settles_bits h a b (f := or) rfl rfl (by simp) (by simp) (by simp)
  · exact settles_bits h a b (f := xor) rfl rfl (by simp) (by simp) (by simp)

theorem settles_neg :
    SettlesInteger .int (· = -a.toInt) False False (h.unary .neg (.int a)) :=
  .exact (fun _ => Iff.rfl) not_false not_false

theorem absolute_int :
    Interp.absolute (.int a) = Run.check (.int <$> Arithmetic.exact a.toInt.natAbs) := by
  have steps : Interp.absolute (.int a) =
      Run.check (Arithmetic.exact a.toInt.natAbs) >>= fun n => pure (.int n) := rfl
  rw [steps]
  cases Arithmetic.exact a.toInt.natAbs <;> rfl

theorem settles_divMod :
    Settles (fun x => ∃ q r : Int64, x = (.int q, .int r) ∧
        FloorDivision a.toInt b.toInt q.toInt r.toInt)
      (∃ q r, FloorDivision a.toInt b.toInt q r ∧ ¬ (FitsWord q ∧ FitsWord r)) (b = 0) False
      (Arithmetic.divMod (.int a) (.int b)) := by
  by_cases divisor : b = 0
  next =>
    subst divisor
    have never : ∀ q r, ¬ FloorDivision a.toInt 0 q r := fun q r h => h.ne_zero rfl
    refine .error ?_ (by decide) (iff_of_false (by decide) ?_) (by decide) (by decide)
    · rintro _ ⟨q, r, -, division⟩
      exact never _ _ division
    · rintro ⟨q, r, division, -⟩
      exact never _ _ division
  next =>
    have nonzero := Words.toInt_ne_zero.1 divisor
    have iff := fun q r => FloorDivision.iff (a := a.toInt) (q := q) (r := r) nonzero
    -- the remainder is always a word, as it is less than the divisor
    obtain ⟨r, remainder⟩ : ∃ r : Int64, r.toInt = a.toInt.fmod b.toInt := by
      refine ⟨_, toInt_ofInt_of_fits ?_⟩
      have small := (FloorDivision.of_ne_zero a.toInt nonzero).small
      have word := fits_toInt b
      unfold FitsWord at *
      omega
    have computed : Arithmetic.divMod (.int a) (.int b) =
        (fun q => (.int q, .int r)) <$> Arithmetic.exact (a.toInt.fdiv b.toInt) := by
      have whole : Arithmetic.floorMod a b = .ok r := by
        rw [Arithmetic.floorMod, if_neg divisor, ← remainder, Arithmetic.exact_toInt]
      have part : Arithmetic.floorDiv a b = Arithmetic.exact (a.toInt.fdiv b.toInt) :=
        if_neg divisor
      simp only [Arithmetic.divMod, Value.int?, Arithmetic.ofInts, whole, part]
      cases Arithmetic.exact (a.toInt.fdiv b.toInt) <;> rfl
    rw [computed]
    refine .exact (fun x => ?_) ?_ divisor not_false
    · constructor
      · rintro ⟨q, r', rfl, division⟩
        obtain ⟨quotient, rest⟩ := (iff _ _).1 division
        exact ⟨q, by rw [Int64.toInt_inj.1 (rest.trans remainder.symm)], quotient⟩
      · rintro ⟨q, rfl, quotient⟩
        exact ⟨q, r, rfl, (iff _ _).2 ⟨quotient, remainder⟩⟩
    · have fits : FitsWord (a.toInt.fmod b.toInt) := remainder ▸ fits_toInt r
      simp [iff, fits]

end

/--
Operators on integers, the unary minus, `abs` and `divmod` give what they stand for on integers
without bounds, or refuse for the reason there is. No step on the way to a result leaves the words.
-/
theorem integer_arithmetic_is_exact (h : Heap) (a b : Int64) :
    (∀ op ∈ Words.integral, SettlesOperator op a b (h.binary op (.int a) (.int b)) ∧
      ∃ r, Words.carryOut? op a b = some r ∧
        h.binary op (.int a) (.int b) = (fun w => .value (.int w)) <$> r) ∧
    SettlesInteger .int (· = -a.toInt) False False (h.unary .neg (.int a)) ∧
    (∃ r, Interp.absolute (.int a) = Run.check r ∧
      SettlesInteger .int (· = (a.toInt.natAbs : Int)) False False r) ∧
    Settles (fun x => ∃ q r : Int64, x = (.int q, .int r) ∧
        FloorDivision a.toInt b.toInt q.toInt r.toInt)
      (∃ q r, FloorDivision a.toInt b.toInt q r ∧ ¬ (FitsWord q ∧ FitsWord r)) (b = 0) False
      (Arithmetic.divMod (.int a) (.int b)) := by
  refine ⟨fun op known => ⟨settles_binary h a b known, ?_⟩, settles_neg h a,
    ⟨_, absolute_int a, .exact (fun _ => Iff.rfl) not_false not_false⟩, settles_divMod a b⟩
  obtain ⟨r, done, computed⟩ := Words.exists_carryOut? known a b
  refine ⟨r, done, ?_⟩
  rw [binary_ints, computed]
  cases r <;> rfl

-- The least word has no opposite, so it is not divided by -1, though nothing would remain.
theorem integer_arithmetic_is_exact_least_word :
    let h := Heap.empty 1
    let a : Int64 := -0x8000000000000000
    Refused (h.binary .floorDiv (.int a) (.int (-1))) .overflow ∧
      h.binary .mod (.int a) (.int (-1)) = .ok (.value (.int 0)) ∧
      h.binary .shiftRight (.int a) (.int 64) = .ok (.value (.int (-1))) := by
  intro h a
  have division : FloorDivision a.toInt (-1 : Int64).toInt 0x8000000000000000 0 :=
    ⟨by decide, by decide, by decide⟩
  have move : FloorDivision a.toInt (2 ^ (64 : Int64).toInt.toNat) (-1) 0x8000000000000000 :=
    ⟨by decide, by decide, by decide⟩
  have exact := fun b => (integer_arithmetic_is_exact h a b).1
  refine ⟨?_, ?_, ?_⟩
  · exact (exact (-1) .floorDiv (by decide)).1.outOfRange.2 ⟨_, ⟨_, division⟩, by decide⟩
  · exact ((exact (-1) .mod (by decide)).1.gives _).2 ⟨0, rfl, _, division⟩
  · exact ((exact 64 .shiftRight (by decide)).1.gives _).2 ⟨-1, rfl, by decide, _, move⟩

end StepTrace
