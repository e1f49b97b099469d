import StepTrace.Format.Spec

/-!
Texts with holes: `%` conversions filled from one value or a tuple, and brace fields filled from
positional and named arguments.
-/

set_option autoImplicit false

namespace StepTrace

namespace Percent

/-- The flags, width and precision between `%` and its conversion. -/
structure Flags where
  spec : FormatSpec := {}
  width : List Char := []
  precision : Option (List Char) := none

/-- One more character of the flags, if it belongs to them. -/
def Flags.add? (f : Flags) (c : Char) : Option Flags :=
  match c with
  | '-' => some { f with spec := { f.spec with align := some .left } }
  | '+' | ' ' => some { f with spec := { f.spec with sign := some c } }
  | '#' => some { f with spec := { f.spec with alternate := true } }
  | '.' => some { f with precision := some [] }
  | c =>
    if c = '0' ∧ f.width.isEmpty ∧ f.precision.isNone then
      some { f with spec := { f.spec with zero := true } }
    else if c.isDigit then
      match f.precision with
      | some p => some { f with precision := some (p ++ [c]) }
      | none => some { f with width := f.width ++ [c] }
    else none

/-- The flags at the start of a text, and what follows them. -/
def Flags.read (f : Flags) : List Char → Flags × List Char
  | [] => (f, [])
  | c :: rest =>
    match f.add? c with
    | some f => f.read rest
    | none => (f, c :: rest)

def Flags.toSpec (f : Flags) : FormatSpec :=
  { f.spec with
    width := (FormatSpec.size? f.width).getD 0
    precision := f.precision.map fun p => (FormatSpec.size? p).getD 0
    zero := f.spec.zero && f.spec.align.isNone }

theorem length_snd_read (f : Flags) (cs : List Char) : (f.read cs).2.length ≤ cs.length := by
  fun_induction Flags.read f cs <;> grind

def convert (h : Heap) (spec : FormatSpec) (conversion : Char) (v : Value) :
    Except Fault (List Char) :=
  match conversion with
  | 's' => .ok (spec.pad false [] (h.str v).toList)
  | 'r' => .ok (spec.pad false [] (h.repr v).toList)
  | 'd' | 'i' | 'u' =>
    let whole := match v with
      | .float f => Value.int (Number.toWord f)
      | v => v
    if whole.int?.isNone then
      .error (.type ("%d format: a real number is required, not " ++ h.typeName v))
    else { spec with kind := some 'd', precision := none }.apply h "d" whole
  | c =>
    if ['f', 'F', 'e', 'E', 'g', 'G', 'x', 'X', 'o', 'c'].contains c then
      ({ spec with kind := some c }.apply h (String.singleton c) v).mapError fun _ =>
        .type ("%" ++ String.singleton c ++ " format: a number is required, not " ++ h.typeName v)
    else .error (.value ("unsupported format character " ++ Fault.mark (String.singleton c)))

/-- Fills the conversions of a template from values, each of which has to be used. -/
def fill (h : Heap) (template : List Char) (values : List Value) (out : List Char) :
    Except Fault (List Char) :=
  match template with
  | [] =>
    if values.isEmpty then .ok out.reverse
    else .error (.type "not all arguments converted during string formatting")
  | '%' :: tail =>
    match _hr : (Flags.read {} tail).2 with
    | [] => .error (.value "incomplete format")
    | '%' :: rest => fill h rest values ('%' :: out)
    | c :: rest =>
      match values with
      | [] => .error (.type "not enough arguments for format string")
      | v :: values =>
        match convert h (Flags.read {} tail).1.toSpec c v with
        | .error e => .error e
        | .ok piece => fill h rest values (piece.reverse ++ out)
  | c :: rest => fill h rest values (c :: out)
termination_by template.length
decreasing_by
  · have := length_snd_read {} tail
    rw [_hr, List.length_cons] at this
    simp only [List.length_cons]
    omega
  · have := length_snd_read {} tail
    rw [_hr, List.length_cons] at this
    simp only [List.length_cons]
    omega
  · simp

end Percent

/-- `template % args`. -/
def Heap.formatPercent (h : Heap) (template : String) (args : Value) : Except Fault String :=
  let values := match h.deref? args with
    | some (.tuple items) => items.toList
    | _ => [args]
  String.ofList <$> Percent.fill h template.toList values []

namespace Braces

/-- What a template in braces is made of. -/
inductive Piece
  | char (c : Char)
  | field (text : List Char)

/-- A text up to a character that stops it, and what follows that character. -/
def splitOnce (stop : Char) (cs : List Char) : List Char × Option (List Char) :=
  let before := cs.takeWhile (· != stop)
  match cs.drop before.length with
  | [] => (before, none)
  | _ :: after => (before, some after)

/-- The next piece of a template, and what follows it. -/
def next : List Char → Except Fault (Option (Piece × List Char))
  | [] => .ok none
  | '\x7b' :: '\x7b' :: rest => .ok (some (.char '\x7b', rest))
  | '\x7d' :: '\x7d' :: rest => .ok (some (.char '\x7d', rest))
  | '\x7b' :: rest =>
    match splitOnce '\x7d' rest with
    | (_, none) => .error (.value "expected '\x7d' before end of string")
    | (text, some rest) => .ok (some (.field text, rest))
  | '\x7d' :: _ => .error (.value "Single '\x7d' encountered in format string")
  | c :: rest => .ok (some (.char c, rest))

def position? : List Char → Option Nat
  | '+' :: cs => FormatSpec.size? cs
  | cs => FormatSpec.size? cs

/-- The argument that a field names; fields without a name count the positional ones. -/
def argument (args : List Value) (named : List (String × Value)) (counted : Nat)
    (name : List Char) : Except Fault Value :=
  let place := if name.isEmpty then some counted else position? name
  let found := match place with
    | some i => args[i]?
    | none => (named.find? (·.1 == String.ofList name)).map Prod.snd
  match found with
  | some v => .ok v
  | none =>
    if place.isSome then
      .error (.index "Replacement index out of range for positional args tuple")
    else .error (.missingKey (Fault.mark (String.ofList name)))

/-- Fills the fields of a template. The fuel is the length of the template. -/
def fill (h : Heap) (args : List Value) (named : List (String × Value)) :
    Nat → List Char → Nat → String → Except Fault String
  | 0, _, _, out => .ok out
  | fuel + 1, template, counted, out => do
    match ← next template with
    | none => return out
    | some (.char c, rest) => fill h args named fuel rest counted (out.push c)
    | some (.field text, rest) =>
      let (head, spec) := splitOnce ':' text
      let (name, conversion) := splitOnce '!' head
      let v ← argument args named counted name
      let v := match conversion with
        | some ['r'] => .str (h.repr v)
        | some ['s'] => .str (h.str v)
        | _ => v
      let piece ← h.format v (String.ofList (spec.getD []))
      fill h args named fuel rest (if name.isEmpty then counted + 1 else counted) (out ++ piece)

end Braces

/-- `template.format(…)`. -/
def Heap.formatBraces (h : Heap) (template : String) (args : List Value)
    (named : List (String × Value)) : Except Fault String :=
  Braces.fill h args named (template.length + 1) template.toList 0 ""

end StepTrace
