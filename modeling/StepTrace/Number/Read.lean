import StepTrace.Number.Binary

/-!
Reading numbers from text: integers in a base and decimal fractions with an exponent.
-/

set_option autoImplicit false

namespace StepTrace.Number

/-- The value of a digit, letters counting from ten. -/
def digitValue? (c : Char) : Option Nat :=
  if '0' ≤ c ∧ c ≤ '9' then some (c.toNat - '0'.toNat)
  else if 'a' ≤ c ∧ c ≤ 'z' then some (c.toNat - 'a'.toNat + 10)
  else if 'A' ≤ c ∧ c ≤ 'Z' then some (c.toNat - 'A'.toNat + 10)
  else none

/-- The number written by digits of a base below 37, continuing from `acc`. -/
def digitsFrom? (base : Nat) (acc : Nat) : List Char → Option Nat
  | [] => some acc
  | c :: rest =>
    match digitValue? c with
    | some d => if d < base then digitsFrom? base (acc * base + d) rest else none
    | none => none

/-- The number written by a non-empty run of digits of a base. -/
def digits? (base : Nat) (cs : List Char) : Option Nat :=
  if cs.isEmpty then none else digitsFrom? base 0 cs

theorem digitValue?_of_isDigit {c : Char} (digit : c.isDigit = true) :
    digitValue? c = some (c.toNat - '0'.toNat) ∧ c.toNat - '0'.toNat < 10 := by
  simp only [Char.isDigit, Bool.and_eq_true, decide_eq_true_eq, ge_iff_le] at digit
  have bounds : 48 ≤ c.toNat ∧ c.toNat ≤ 57 := digit
  refine ⟨if_pos digit, ?_⟩
  change c.toNat - 48 < 10
  omega

theorem digitsFrom?_ten {cs : List Char} (digits : ∀ c ∈ cs, c.isDigit = true) (acc : Nat) :
    digitsFrom? 10 acc cs = some (Nat.ofDigitChars 10 cs acc) := by
  induction cs generalizing acc with
  | nil => rfl
  | cons c rest ih =>
    obtain ⟨digit, digits⟩ := List.forall_mem_cons.1 digits
    obtain ⟨value, small⟩ := digitValue?_of_isDigit digit
    rw [digitsFrom?, value]
    dsimp only
    rw [if_pos small, ih digits, Nat.ofDigitChars_cons, Nat.mul_comm]

theorem digits?_toDigits (n : Nat) : digits? 10 (Nat.toDigits 10 n) = some n := by
  have digits : ∀ c ∈ Nat.toDigits 10 n, c.isDigit = true := fun c hc =>
    Nat.isDigit_of_mem_toDigits (by decide) (by decide) hc
  rw [digits?, if_neg (by simp [Nat.toDigits_ne_nil]), digitsFrom?_ten digits,
    Nat.ofDigitChars_ten_toDigits]

/-- The 64-bit integer written in a base, with an optional sign. -/
def readWord? (base : Nat) (cs : List Char) : Option Int64 :=
  match cs with
  | '-' :: rest => (digits? base rest).bind fun n => ofInt? (-(n : Int))
  | '+' :: rest => (digits? base rest).bind fun n => ofInt? n
  | rest => (digits? base rest).bind fun n => ofInt? n

/-- The number `n * 10 ^ e`, rounded to the nearest; far out of range it is zero or infinite. -/
def ofDecimal (n : Nat) (e : Int) : Float :=
  if n = 0 then 0.0
  else
    let top : Int := (Nat.toDigits 10 n).length + e
    if top < -330 then 0.0
    else if 310 < top then 1.0 / 0.0
    else if 0 ≤ e then Float.ofScientific n false e.toNat
    else Float.ofScientific n true (-e).toNat

/-- Digits with at most one point, as the number without the point and the count of places. -/
def pointed? (cs : List Char) : Option (Nat × Nat) :=
  let whole := cs.takeWhile Char.isDigit
  match cs.drop whole.length with
  | [] => (digits? 10 whole).map (·, 0)
  | '.' :: places =>
    if places.all Char.isDigit then (digits? 10 (whole ++ places)).map (·, places.length) else none
  | _ => none

def exponent? : List Char → Option Int
  | '-' :: cs => (digits? 10 cs).map fun n => -(n : Int)
  | '+' :: cs => (digits? 10 cs).map fun n => (n : Int)
  | cs => (digits? 10 cs).map fun n => (n : Int)

/-- A decimal fraction without sign. -/
def unsigned? (cs : List Char) : Option Float :=
  let isMark := fun c => c == 'e' || c == 'E'
  let body := cs.takeWhile (!isMark ·)
  match cs.drop body.length with
  | [] => (pointed? body).map fun (n, places) => ofDecimal n (-(places : Int))
  | _ :: e => do
    let (n, places) ← pointed? body
    let e ← exponent? e
    return ofDecimal n (e - places)

/-- A decimal fraction, or the name of an infinite or undefined number, with an optional sign. -/
def float? (cs : List Char) : Option Float :=
  match cs with
  | '-' :: rest => (magnitude? rest).map (- ·)
  | '+' :: rest => magnitude? rest
  | rest => magnitude? rest
where
  magnitude? (cs : List Char) : Option Float :=
    let name := String.ofList (cs.map Char.toLower)
    if name == "inf" || name == "infinity" then some (1.0 / 0.0)
    else if name == "nan" then some (0.0 / 0.0)
    else unsigned? cs

end StepTrace.Number
