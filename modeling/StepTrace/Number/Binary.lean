import StepTrace.Number.Word

/-!
Floating-point numbers as exact multiples of powers of two, and the operations on them that need
the exact value: the integer part, the remainder and rounding to the even neighbour.
-/

set_option autoImplicit false

namespace StepTrace.Number

/-- The number `mantissa * 2 ^ exponent`. -/
structure Scaled where
  mantissa : Nat
  exponent : Int
deriving DecidableEq, Repr

/-- The number as a fraction of natural numbers. -/
def Scaled.fraction (s : Scaled) : Nat × Nat :=
  if 0 ≤ s.exponent then (s.mantissa * Nat.pow 2 s.exponent.toNat, 1)
  else (s.mantissa, Nat.pow 2 (-s.exponent).toNat)

theorem Scaled.fraction_pos (s : Scaled) : 0 < s.fraction.2 := by
  unfold Scaled.fraction
  split
  · exact Nat.one_pos
  · exact Nat.two_pow_pos _

/-- The absolute value of a finite number, read off its bits. -/
def magnitude (f : Float) : Scaled :=
  let bits := f.toBits.toNat
  let exponent : Nat := bits / 0x10000000000000 % 0x800
  let fraction : Nat := bits % 0x10000000000000
  if exponent = 0 then ⟨fraction, -1074⟩ else ⟨0x10000000000000 + fraction, (exponent : Int) - 1075⟩

def signBit (f : Float) : Bool :=
  f.toBits.toNat / 0x8000000000000000 % 2 == 1

/-- `f` with the sign of `sign`. -/
def withSignOf (f sign : Float) : Float :=
  if signBit f == signBit sign then f else -f

/-- The greater of two numbers; an undefined one does not count. -/
def greater (x y : Float) : Float :=
  if x.isNaN then y else if y.isNaN then x else if x < y then y else x

/-- The lesser of two numbers; an undefined one does not count. -/
def lesser (x y : Float) : Float :=
  if x.isNaN then y else if y.isNaN then x else if y < x then y else x

def integerPart (f : Float) : Int :=
  let (n, d) := (magnitude f).fraction
  if signBit f then -(n / d : Nat) else (n / d : Nat)

/-- Whether `f` is finite and has no fractional part. -/
def isIntegral (f : Float) : Bool :=
  f.isFinite && (let (n, d) := (magnitude f).fraction; n % d == 0)

/-- The 64-bit integer nearest to the integer part of `f`; zero for an undefined number. -/
def toWord (f : Float) : Int64 :=
  if f.isNaN then 0
  else if f.isInf then
    if signBit f then clampWord (-0x10000000000000000) else clampWord 0x10000000000000000
  else clampWord (integerPart f)

/-- The number nearest to a 64-bit integer. -/
def ofWord (n : Int64) : Float :=
  if n < 0 then -(-n).toUInt64.toFloat else n.toUInt64.toFloat

/-- `f` rounded toward zero. -/
def truncate (f : Float) : Float :=
  if f < 0.0 then f.ceil else f.floor

/-- `f` rounded to the nearest integer, a half going to the even neighbour. -/
def roundEven (f : Float) : Float :=
  let below := f.floor
  let gap := f - below
  let rounded :=
    if gap < 0.5 then below
    else if gap > 0.5 then below + 1.0
    else if gap == 0.5 then (if isIntegral (below / 2.0) then below else below + 1.0)
    else f
  if rounded == 0.0 then withSignOf rounded f else rounded

/-- The number `n * 2 ^ e`, for an `n` of at most 53 bits. -/
def ofScaled (n : Nat) (e : Int) : Float :=
  (Float.ofNat n).scaleB e

/-- The remainder of the division that rounds toward zero; it has the sign of `a`. -/
def remainder (a b : Float) : Float :=
  if a.isNaN || b.isNaN || a.isInf || b == 0.0 then 0.0 / 0.0
  else if b.isInf then a
  else
    let x := magnitude a
    let y := magnitude b
    let e := min x.exponent y.exponent
    let n := x.mantissa * Nat.pow 2 (x.exponent - e).toNat
    let d := y.mantissa * Nat.pow 2 (y.exponent - e).toNat
    withSignOf (ofScaled (n % d) e) a

/-- `base` to the power `n` by repeated squaring. -/
def powNat (base : Float) (n : Nat) : Float :=
  go n base 1.0 n
where
  go : Nat → Float → Float → Nat → Float
    | 0, _, acc, _ => acc
    | fuel + 1, a, acc, n =>
      let acc := if n % 2 == 1 then acc * a else acc
      if n / 2 == 0 then acc else go fuel (a * a) acc (n / 2)

end StepTrace.Number
