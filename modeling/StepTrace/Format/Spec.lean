import StepTrace.Arithmetic
import StepTrace.Display
import StepTrace.Text.Cuts

/-!
Format specifications, `[[fill]align][sign][#][0][width][,|_][.precision][type]`, and the texts of
values under them.
-/

set_option autoImplicit false

namespace StepTrace

open Number

inductive Alignment
  | left | right | center
  /-- The padding comes between the sign and the digits. -/
  | afterSign
deriving DecidableEq, Repr

def Alignment.ofChar? : Char → Option Alignment
  | '<' => some .left
  | '>' => some .right
  | '^' => some .center
  | '=' => some .afterSign
  | _ => none

structure FormatSpec where
  fill : Option Char := none
  align : Option Alignment := none
  sign : Option Char := none
  /-- Whether digits of a base other than ten show their base. -/
  alternate : Bool := false
  zero : Bool := false
  width : Nat := 0
  grouping : Option Char := none
  precision : Option Nat := none
  kind : Option Char := none
deriving DecidableEq, Repr

namespace FormatSpec

/-- A natural number below `2 ^ 64`. -/
def size? (digits : List Char) : Option Nat :=
  (digits? 10 digits).filter (· < 0x10000000000000000)

/-- A character of a set at the start of a text, and what follows. -/
def optional (allowed : List Char) : List Char → Option Char × List Char
  | [] => (none, [])
  | c :: rest => if allowed.contains c then (some c, rest) else (none, c :: rest)

/-- The alignment at the start, with its fill character. -/
def readAlignment (cs : List Char) : FormatSpec × List Char :=
  match cs with
  | c :: d :: rest =>
    match Alignment.ofChar? d with
    | some a => ({ fill := some c, align := some a }, rest)
    | none =>
      match Alignment.ofChar? c with
      | some a => ({ align := some a }, d :: rest)
      | none => ({}, cs)
  | [c] =>
    match Alignment.ofChar? c with
    | some a => ({ align := some a }, [])
    | none => ({}, cs)
  | [] => ({}, [])

/-- A run of digits as a number, which may be missing. -/
def readWidth? (cs : List Char) : Option (Nat × List Char) :=
  let digits := cs.takeWhile Char.isDigit
  if digits.isEmpty then some (0, cs)
  else (size? digits).map (·, cs.drop digits.length)

/-- A point with a run of digits, which may be missing together. -/
def readPrecision? : List Char → Option (Option Nat × List Char)
  | '.' :: cs =>
    let digits := cs.takeWhile Char.isDigit
    (size? digits).map (some ·, cs.drop digits.length)
  | cs => some (none, cs)

/-- Reads a specification; nothing may follow it. -/
def read? (cs : List Char) : Option FormatSpec := do
  let (spec, cs) := readAlignment cs
  let (sign, cs) := optional ['+', '-', ' '] cs
  let (alternate, cs) := optional ['#'] cs
  let (zero, cs) := optional ['0'] cs
  let (width, cs) ← readWidth? cs
  let (grouping, cs) := optional [',', '_'] cs
  let (precision, cs) ← readPrecision? cs
  let spec := { spec with
    sign, alternate := alternate.isSome, zero := zero.isSome, width, grouping, precision }
  match cs with
  | [] => some spec
  | [c] => some { spec with kind := some c }
  | _ => none

/-- The body padded to the width; numbers go to the right and texts to the left. -/
def pad (spec : FormatSpec) (numeric : Bool) (sign body : List Char) : List Char :=
  let gap := spec.width - (sign.length + body.length)
  let (fill, align) :=
    match spec.align with
    | some a => (spec.fill.getD ' ', a)
    | none =>
      if numeric then (if spec.zero then ('0', .afterSign) else (' ', .right)) else (' ', .left)
  let filler := fun n => List.replicate n fill
  match align with
  | .left => sign ++ body ++ filler gap
  | .right => filler gap ++ sign ++ body
  | .center => filler (gap / 2) ++ sign ++ body ++ filler (gap - gap / 2)
  | .afterSign => sign ++ filler gap ++ body

theorem length_pad (spec : FormatSpec) (numeric : Bool) (sign body : List Char) :
    (spec.pad numeric sign body).length = max spec.width (sign.length + body.length) := by
  unfold pad
  dsimp only
  split <;> simp <;> omega

/-- Digits with a separator before every third one from the right. -/
def groupDigits (separator : Option Char) (digits : List Char) : List Char :=
  match separator with
  | none => digits
  | some s => go s digits
where
  go (s : Char) : List Char → List Char
    | [] => []
    | [d] => [d]
    | d :: e :: rest =>
      if (rest.length + 1) % 3 = 0 then d :: s :: go s (e :: rest) else d :: go s (e :: rest)

/-- What infinite and undefined numbers are written as under a specification with places. -/
def nonFinite (f : Float) : List Char :=
  if f.isNaN then ['N', 'a', 'N'] else ['i', 'n', 'f']

/-- The absolute value with a fixed number of places. -/
def fixed (f : Float) (places : Nat) (separator : Option Char) : List Char :=
  if f.isFinite then
    let cs := (fixedText (magnitude f) places).toList
    let whole := cs.takeWhile (· != '.')
    groupDigits separator whole ++ cs.drop whole.length
  else groupDigits separator (nonFinite f)

/-- The absolute value with an exponent. -/
def scientific (f : Float) (places : Nat) : List Char :=
  if f.isFinite then (scientificText (magnitude f) places 2).toList else nonFinite f

/-- Digits after a point without the zeros at their end. -/
def dropZeros (cs : List Char) : List Char :=
  if cs.contains '.' then Text.dropEndWhile (· == '.') (Text.dropEndWhile (· == '0') cs) else cs

/-- The absolute value with significant digits, in the shorter of both notations. -/
def general (f : Float) (precision : Nat) : List Char :=
  let f := f.abs
  if f == 0.0 then ['0']
  else if !f.isFinite then (floatText f).toList
  else
    let precision := max precision 1
    let e := (toWord f.log10.floor).toInt
    if e < -4 ∨ (precision : Int) ≤ e then
      let cs := scientific f (precision - 1)
      let mantissa := cs.takeWhile (· != 'e')
      dropZeros mantissa ++ cs.drop mantissa.length
    else dropZeros (fixedText (magnitude f) (precision - 1 - e : Int).toNat).toList

/-- The absolute value of a number with a fractional part, under a kind that fits one. -/
def floatBody? (spec : FormatSpec) (f : Float) : Option (List Char) :=
  let places := spec.precision.getD 6
  match spec.kind with
  | some 'f' | some 'F' => some (fixed f places spec.grouping)
  | some '%' => some (fixed (f.abs * 100.0) places spec.grouping ++ ['%'])
  | some 'e' => some (scientific f places)
  | some 'E' => some ((scientific f places).map Char.toUpper)
  | some 'g' | some 'G' => some (general f places)
  | none =>
    match spec.precision with
    | some p => some (general f (max p 1))
    | none => some (floatText f.abs).toList
  | _ => none

/-- The base of a kind and the mark that shows it. -/
def base? : Char → Option (Nat × List Char)
  | 'd' => some (10, [])
  | 'x' => some (16, ['0', 'x'])
  | 'X' => some (16, ['0', 'X'])
  | 'o' => some (8, ['0', 'o'])
  | 'b' => some (2, ['0', 'b'])
  | _ => none

/-- The absolute value of an integer, under a kind that fits one. -/
def intBody? (spec : FormatSpec) (n : Int64) : Option (List Char) :=
  let size := n.toInt.natAbs
  match spec.kind with
  | none =>
    if spec.precision.isNone then some (groupDigits spec.grouping (Nat.toDigits 10 size)) else none
  | some k =>
    (base? k).map fun (base, mark) =>
      let digits := Nat.toDigits base size
      let digits := if k = 'X' then digits.map Char.toUpper else digits
      let digits := if k = 'd' then groupDigits spec.grouping digits else digits
      (if spec.alternate then mark else []) ++ digits

/-- The sign that a number is written with. -/
def signText (spec : FormatSpec) (negative : Bool) : List Char :=
  if negative then ['-']
  else
    match spec.sign with
    | some '+' => ['+']
    | some ' ' => [' ']
    | _ => []

/-- The character of a code point. -/
def character? (n : Int64) : Option Char :=
  let n := n.toInt
  if h : 0 ≤ n ∧ n.toNat.isValidChar then some (Char.ofNatAux n.toNat h.2) else none

/-- A value under a specification; `raw` is its text, for the message. -/
def apply (h : Heap) (spec : FormatSpec) (raw : String) (v : Value) : Except Fault (List Char) :=
  let number := fun (negative : Bool) body => .ok (spec.pad true (spec.signText negative) body)
  let refused := .error (.badSpec raw (h.typeName v))
  let fraction := fun (f : Float) =>
    match spec.floatBody? f with
    | some body => number (signBit f && !f.isNaN && f != 0.0) body
    | none => refused
  match v with
  | .str s =>
    if spec.kind.all (· == 's') then
      .ok (spec.pad false [] (spec.precision.elim s.toList s.toList.take))
    else refused
  | .float f => fraction f
  | v =>
    match v.int? with
    | some n =>
      if spec.kind = some 'c' then
        match character? n with
        | some c => .ok (spec.pad false [] [c])
        | none => .error .characterRange
      else
        match spec.intBody? n with
        | some body => number (n < 0) body
        | none => fraction (ofWord n)
    | none =>
      if spec.kind.isNone then .ok (spec.pad false [] (h.str v).toList) else refused

end FormatSpec

/-- A value under a written specification; the empty one gives its text. -/
def Heap.format (h : Heap) (v : Value) (spec : String) : Except Fault String :=
  if spec.isEmpty then .ok (h.str v)
  else
    match FormatSpec.read? spec.toList with
    | none => .error (.badSpec spec (h.typeName v))
    | some parsed => String.ofList <$> parsed.apply h spec v

end StepTrace
