import StepTrace.Fault
import StepTrace.Number.Read
import StepTrace.Number.Layout
import StepTrace.Syntax
import StepTrace.Value

/-!
Arithmetic of the numbers of a program. Integers are exact: a result beyond 64 bits is an error.
-/

set_option autoImplicit false

namespace StepTrace.Arithmetic

open Number

/-- An exact integer result. -/
def exact (n : Int) : Except Fault Int64 :=
  match ofInt? n with
  | some w => .ok w
  | none => .error .outOfRange

theorem exact_eq_ok_iff {n : Int} {w : Int64} : exact n = .ok w ↔ w.toInt = n := by
  unfold exact
  rw [← ofInt?_eq_some_iff]
  split <;> simp_all

/-- The quotient rounded down. -/
def floorDiv (a b : Int64) : Except Fault Int64 :=
  if b = 0 then .error .floorDivisionByZero else exact (a.toInt.fdiv b.toInt)

/-- The remainder of the division that rounds down; it has the sign of the divisor. -/
def floorMod (a b : Int64) : Except Fault Int64 :=
  if b = 0 then .error .moduloByZero else exact (a.toInt.fmod b.toInt)

/-- A power with an exponent that is not negative; exponents beyond 32 bits are refused. -/
def power (a : Int64) (n : Nat) : Except Fault Int64 :=
  if 0x100000000 ≤ n then .error .outOfRange
  else if a = 0 ∨ a = 1 ∨ a = -1 then exact (a.toInt.pow (if n = 0 then 0 else 2 - n % 2))
  else if 64 ≤ n then .error .outOfRange
  else exact (a.toInt.pow n)

/-- The bits moved up; counts from 63 on are refused. -/
def shiftLeft (a : Int64) (n : Nat) : Except Fault Int64 :=
  if a = 0 then .ok 0 else if 63 ≤ n then .error .outOfRange else exact (a.toInt * Int.pow 2 n)

/-- The bits moved down, the sign filling the gap. -/
def shiftRight (a : Int64) (n : Nat) : Int64 :=
  if 64 ≤ n then (if a < 0 then -1 else 0) else a >>> Int64.ofNat n

/-- An operator on two integers. -/
def ofInts (op : BinaryOp) (a b : Int64) : Except Fault Value :=
  match op with
  | .add => .int <$> exact (a.toInt + b.toInt)
  | .sub => .int <$> exact (a.toInt - b.toInt)
  | .mul => .int <$> exact (a.toInt * b.toInt)
  | .div => if b = 0 then .error .divisionByZero else .ok (.float (ofWord a / ofWord b))
  | .floorDiv => .int <$> floorDiv a b
  | .mod => .int <$> floorMod a b
  | .pow =>
    if b < 0 then
      if a = 0 then .error .negativePowerOfZero else .ok (.float ((ofWord a).pow (ofWord b)))
    else .int <$> power a b.toInt.toNat
  | .bitAnd => .ok (.int (a &&& b))
  | .bitOr => .ok (.int (a ||| b))
  | .bitXor => .ok (.int (a ^^^ b))
  | .shiftLeft =>
    if b < 0 then .error .negativeShift else .int <$> shiftLeft a b.toInt.toNat
  | .shiftRight =>
    if b < 0 then .error .negativeShift else .ok (.int (shiftRight a b.toInt.toNat))

/-- The remainder with the sign of the divisor. -/
def floatMod (a b : Float) : Float :=
  let r := remainder a b
  if r != 0.0 && (r < 0.0) != (b < 0.0) then r + b else r

/-- An operator on two numbers with fractional parts; bit operators have no meaning there. -/
def ofFloats? (op : BinaryOp) (a b : Float) : Option (Except Fault Float) :=
  match op with
  | .add => some (.ok (a + b))
  | .sub => some (.ok (a - b))
  | .mul => some (.ok (a * b))
  | .div => some (if b == 0.0 then .error .floatDivisionByZero else .ok (a / b))
  | .floorDiv => some (if b == 0.0 then .error .floatFloorDivisionByZero else .ok (a / b).floor)
  | .mod => some (if b == 0.0 then .error .floatModuloByZero else .ok (floatMod a b))
  | .pow =>
    some (if a == 0.0 && b < 0.0 then .error .negativePowerOfZero else .ok (a.pow b))
  | _ => none

/-- Quotient rounded down and remainder of two numbers. -/
def divMod (a b : Value) : Except Fault (Value × Value) := do
  match a.int?, b.int? with
  | some a, some b => return (← ofInts .floorDiv a b, ← ofInts .mod a b)
  | _, _ =>
    let part := fun op => match ofFloats? op a.number b.number with
      | some r => Value.float <$> r
      | none => .ok .none
    return (← part .floorDiv, ← part .mod)

/-- `base ^ exponent` modulo `modulus`, with the sign of the modulus. -/
def powMod (base exponent modulus : Int64) : Except Fault Int64 :=
  if modulus = 0 then .error (.value "pow() 3rd argument cannot be 0")
  else if exponent < 0 then
    .error (.value "pow() 2nd argument cannot be negative when 3rd argument specified")
  else
    let m := modulus.toInt
    let r := go 64 (base.toInt % m) exponent.toInt.toNat 1
    .ok (Int64.ofInt (if m < 0 ∧ 0 < r then r + m else r))
where
  /-- Multiplies `acc` by `b ^ e`, squaring as it goes through the bits of `e`. -/
  go : Nat → Int → Nat → Int → Int
    | 0, _, _, acc => acc
    | bits + 1, b, e, acc =>
      if e = 0 then acc
      else
        let m := modulus.toInt
        go bits (b * b % m) (e / 2) (if e % 2 = 1 then acc * b % m else acc)

/-- The integer with the value of a number that has no fractional part. -/
def toInteger (f : Float) : Except Fault Int64 :=
  if f.isNaN then .error .undefinedInteger
  else if f.isInf || f.abs >= 9223372036854775807.0 then .error .infiniteInteger
  else .ok (toWord f)

/-- The multiple of a power of ten nearest to an integer, a half going to the even multiple. -/
def roundTo (n : Int64) (zeros : Nat) : Except Fault Int64 :=
  if 19 ≤ zeros then .ok 0
  else
    let step : Int := Int.pow 10 zeros
    let q := n.toInt / step
    let twice := n.toInt % step * 2
    exact ((if step < twice ∨ (twice = step ∧ q % 2 ≠ 0) then q + 1 else q) * step)

/-- A number rounded to decimal places, decided on its exact value. -/
def roundPlaces (f : Float) (places : Int64) : Float :=
  if !f.isFinite then f
  else if 0 ≤ places then
    let text := fixedText (magnitude f) (min places.toInt.toNat 340)
    let rounded := (float? text.toList).getD f
    if signBit f then -rounded else rounded
  else
    let factor := powNat 10.0 (min (-places.toInt).toNat 400)
    if factor.isFinite then roundEven (f / factor) * factor else 0.0 * f

/-- The square of a root, or the greatest 64-bit integer if that is less. -/
def cappedSquare (r : Nat) : Nat := min (r * r) (0x8000000000000000 - 1)

/-- The greatest root up to an estimate whose square is not above `n`. -/
def lowerRoot (n : Nat) : Nat → Nat
  | 0 => 0
  | r + 1 => if n < cappedSquare (r + 1) then lowerRoot n r else r + 1

/-- The product of the integers from 2 to `n`. -/
def factorial (n : Nat) : Except Fault Int64 :=
  go n 1 2
where
  go : Nat → Int64 → Nat → Except Fault Int64
    | 0, acc, _ => .ok acc
    | fuel + 1, acc, k => do
      if n < k then return acc
      go fuel (← exact (acc.toInt * k)) (k + 1)

end StepTrace.Arithmetic
