import StepTrace.Number.Binary

/-!
Decimal notation of numbers: shortest digits under a style record, fixed places and significant
digits. The shortest decimal reads back as the given binary number: on the grids of 1, 2, 3, …
digits the two neighbours of the value are tried; the first grid with a neighbour inside the
interval of numbers that round to the value wins. Fixed places and significant digits come from the
exact binary value; a half goes to the even neighbour.
-/

set_option autoImplicit false

namespace StepTrace.Number

/-! ### The shortest decimal -/

/-- The number `digits * 10 ^ exponent`. -/
structure Decimal where
  digits : Nat
  exponent : Int
deriving DecidableEq, Repr

/-- How many decimal digits `n` is written with. -/
def digitCount (n : Nat) : Nat :=
  (Nat.toDigits 10 n).length

/-- The `k` with `10 ^ k ≤ n / d < 10 ^ (k + 1)`. -/
def decade (n d : Nat) : Int :=
  if d ≤ n then (digitCount (n / d) : Int) - 1 else -(digitCount ((d - 1) / n) : Int)

/-- The numbers that round to a binary number, in quarters of its last place. -/
structure Rounding where
  value : Nat
  low : Nat
  high : Nat
  closed : Bool

/-- Half a unit on both sides, a quarter below a power of two; the ends belong to even numbers. -/
def Rounding.of (s : Scaled) : Rounding where
  value := 4 * s.mantissa
  low := 4 * s.mantissa - (if s.mantissa = 0x10000000000000 ∧ -1074 < s.exponent then 1 else 2)
  high := 4 * s.mantissa + 2
  closed := s.mantissa % 2 == 0

/-- The nearest neighbour of the value, on the grid of unit `d / x`, that rounds to the value. -/
def Rounding.pick? (r : Rounding) (x d : Nat) : Option Nat :=
  let c := r.value * x / d
  let below := if r.closed then r.low * x ≤ c * d else r.low * x < c * d
  let above := if r.closed then (c + 1) * d ≤ r.high * x else (c + 1) * d < r.high * x
  if below then
    if above then
      some (if r.value * x - c * d < (c + 1) * d - r.value * x then c else c + 1)
    else some c
  else if above then some (c + 1)
  else none

/-- Tries grids of growing digit counts; `top` is the decade of the value. -/
def shortestFrom (r : Rounding) (scale : Nat × Nat) (top : Int) : Nat → Nat → Decimal
  | 0, n => ⟨r.value * scale.1 / scale.2, top - n⟩
  | fuel + 1, n =>
    let p := top + 1 - n
    let (x, d) :=
      if 0 ≤ p then (scale.1, scale.2 * Nat.pow 10 p.toNat)
      else (scale.1 * Nat.pow 10 (-p).toNat, scale.2)
    match r.pick? x d with
    | some c => ⟨c, p⟩
    | none => shortestFrom r scale top fuel (n + 1)

/-- The shortest decimal that reads back as `s`; 17 digits always suffice. -/
def shortest (s : Scaled) : Decimal :=
  if s.mantissa = 0 then ⟨0, 0⟩
  else
    let (n, d) := s.fraction
    let quarter := Scaled.fraction ⟨1, s.exponent - 2⟩
    shortestFrom (.of s) quarter (decade n d) 17 1

/-- The digits without trailing zeros, and the exponent of the first digit. -/
def Decimal.scientific (d : Decimal) : List Char × Int :=
  let all := Nat.toDigits 10 d.digits
  let kept := (all.reverse.dropWhile (· == '0')).reverse
  (if kept.isEmpty then ['0'] else kept, d.exponent + all.length - 1)

/-! ### Notation -/

/-- The quotient `n / d` rounded to the nearest integer, a half going to the even neighbour. -/
def divEven (n d : Nat) : Nat :=
  let q := n / d
  let twice := 2 * (n % d)
  if d < twice ∨ (twice = d ∧ q % 2 = 1) then q + 1 else q

theorem divEven_bounds {n d : Nat} (h : 0 < d) :
    2 * n ≤ 2 * (divEven n d * d) + d ∧ 2 * (divEven n d * d) ≤ 2 * n + d := by
  have hn := Nat.div_add_mod n d
  have hr := Nat.mod_lt n h
  have hc : d * (n / d) = n / d * d := Nat.mul_comm ..
  unfold divEven
  simp only []
  split
  · rw [Nat.add_mul]; omega
  · omega

/-- `digits` with zeros in front up to length `n`. -/
def padZeros (n : Nat) (digits : List Char) : List Char :=
  List.replicate (n - digits.length) '0' ++ digits

/-- A natural number of hundredths, thousandths, … written with `places` decimal places. -/
def placeText (scaled places : Nat) : String :=
  if places = 0 then toString scaled
  else
    let cs := padZeros (places + 1) (Nat.toDigits 10 scaled)
    let whole := cs.take (cs.length - places)
    String.ofList (whole ++ '.' :: cs.drop (cs.length - places))

/-- The absolute value of a finite number with `places` decimal places. -/
def fixedText (s : Scaled) (places : Nat) : String :=
  let (n, d) := s.fraction
  placeText (divEven (n * Nat.pow 10 places) d) places

/-- The first `count + 1` significant digits of a positive number, and the decade of the first. -/
def significant (s : Scaled) (count : Nat) : Nat × Int :=
  let (n, d) := s.fraction
  let top := decade n d
  let p := top - count
  let rounded :=
    if 0 ≤ p then divEven n (d * Nat.pow 10 p.toNat) else divEven (n * Nat.pow 10 (-p).toNat) d
  if rounded = Nat.pow 10 (count + 1) then (Nat.pow 10 count, top + 1) else (rounded, top)

/-- An exponent mark, the exponent's sign, and its digits with zeros in front up to `width`. -/
def exponentText (e : Int) (width : Nat) : String :=
  "e" ++ (if e < 0 then "-" else "+") ++ String.ofList (padZeros width (Nat.toDigits 10 e.natAbs))

/-- The first digit, a point if more digits follow, and these. -/
def pointAfterFirst : List Char → String
  | [] => ""
  | [c] => String.singleton c
  | c :: rest => String.ofList (c :: '.' :: rest)

/-- The absolute value of a finite number with one digit before the point and `places` after it. -/
def scientificText (s : Scaled) (places : Nat) (width : Nat) : String :=
  let (digits, e) := if s.mantissa = 0 then (0, 0) else significant s places
  pointAfterFirst (padZeros (places + 1) (Nat.toDigits 10 digits)) ++ exponentText e width

/-- Positional notation of digits whose first one stands at the decade `e`. -/
def positionalText (digits : List Char) (e : Int) : String :=
  if e < 0 then
    String.ofList ('0' :: '.' :: List.replicate (-e - 1).toNat '0' ++ digits)
  else
    let whole := e.toNat + 1
    if digits.length ≤ whole then
      String.ofList (digits ++ List.replicate (whole - digits.length) '0')
    else String.ofList (digits.take whole ++ '.' :: digits.drop whole)

/-- How shortest digits are laid out. -/
structure NumberStyle where
  /-- The least decade that is written positionally. -/
  low : Option Int
  /-- The least decade from which an exponent is written again. -/
  high : Option Int
  /-- Whether a positional integer ends in `.0`. -/
  pointZero : Bool
  /-- The least number of digits of an exponent. -/
  exponentWidth : Nat
  deriving Repr

def NumberStyle.write (style : NumberStyle) (f : Float) : String :=
  let (digits, e) := (shortest (magnitude f)).scientific
  let zero := (magnitude f).mantissa == 0
  let positional := zero ||
    (style.low.all (· ≤ e) && style.high.all (e < ·))
  let body :=
    if positional then
      let text := positionalText digits (if zero then 0 else e)
      if style.pointZero && !text.contains '.' then text ++ ".0" else text
    else pointAfterFirst digits ++ exponentText e style.exponentWidth
  if signBit f then "-" ++ body else body

/-- Digits alone: never an exponent, and no point in an integer. -/
def plain : NumberStyle := ⟨none, none, false, 1⟩

end StepTrace.Number
