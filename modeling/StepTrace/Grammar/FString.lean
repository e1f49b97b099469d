import StepTrace.SyntaxError
import StepTrace.Text.Cuts

/-!
Formatted strings: literal text and replacement fields in braces. A doubled brace is a literal one.
In a field, `!` announces a conversion and `:` a format specification, unless they stand inside
brackets or quotes.
-/

set_option autoImplicit false

namespace StepTrace

def openBrace : Char := '\x7b'

def closeBrace : Char := '\x7d'

/-- A replacement field as it is written. -/
structure FieldText where
  expression : List Char
  conversion : Option Char
  spec : Option String

/-- The specification of a field, and what follows the field; `spec` is in reverse. -/
def specFrom (spec : List Char) : List Char → Option (String × List Char)
  | [] => none
  | c :: rest =>
    if c = closeBrace then some (String.ofList spec.reverse, rest) else specFrom (c :: spec) rest

/-- A field after its opening brace, and what follows it; `text` is in reverse. -/
def fieldFrom (depth : Nat) (quote : Option Char) (text : List Char) (conversion : Option Char) :
    List Char → Option (FieldText × List Char)
  | [] => none
  | c :: rest =>
    match quote with
    | some q =>
      fieldFrom depth (if c = q then none else some q) (c :: text) conversion rest
    | none =>
      if c = '\'' ∨ c = '"' then fieldFrom depth (some c) (c :: text) conversion rest
      else if c = '(' ∨ c = '[' ∨ c = openBrace then
        fieldFrom (depth + 1) none (c :: text) conversion rest
      else if c = ')' ∨ c = ']' then
        fieldFrom (depth - 1) none (c :: text) conversion rest
      else if c = closeBrace then
        if 0 < depth then fieldFrom (depth - 1) none (c :: text) conversion rest
        else some (⟨text.reverse, conversion, none⟩, rest)
      else if c = '!' ∧ depth = 0 ∧ rest.head? ≠ some '=' then
        match rest with
        | [] => none
        | mark :: rest => fieldFrom depth none text (some mark) rest
      else if c = ':' ∧ depth = 0 then
        (specFrom [] rest).map fun (spec, rest) => (⟨text.reverse, conversion, some spec⟩, rest)
      else fieldFrom depth none (c :: text) conversion rest

/-- The value of a field, by a reader of expressions in text. -/
def fieldValue (read : String → Location → Except SyntaxError Expr) (loc : Location)
    (field : FieldText) : Except SyntaxError FPart := do
  let text := Text.trim (String.ofList field.expression)
  if text.isEmpty then throw ⟨.fieldEmpty, loc⟩
  let value ← read text loc
  let call (f : String) : Expr := .call value.location (.name value.location f) [value] []
  match field.conversion with
  | none => return .field value field.spec
  | some 'r' | some 'a' => return .field (call "repr") field.spec
  | some 's' => return .field (call "str") field.spec
  | some _ => throw ⟨.fieldConversion, loc⟩

/-- The literal text gathered so far, if there is any. -/
def literalPart (literal : List Char) : List FPart :=
  if literal.isEmpty then [] else [.text (String.ofList literal.reverse)]

/--
The parts of a formatted string from `body` on; `literal` and `parts` hold what came before, last
first. A field ends after it starts, so the body gets shorter.
-/
def fstringFrom (read : String → Location → Except SyntaxError Expr) (loc : Location)
    (literal : List Char) (parts : List FPart) (body : List Char) :
    Except SyntaxError (List FPart) :=
  match body with
  | [] => .ok (literalPart literal ++ parts).reverse
  | c :: rest =>
    if (c = openBrace ∨ c = closeBrace) ∧ rest.head? = some c then
      fstringFrom read loc (c :: literal) parts (rest.drop 1)
    else if c = closeBrace then .error ⟨.fieldClose, loc⟩
    else if c = openBrace then
      match fieldFrom 0 none [] none rest with
      | none => .error ⟨.fieldOpen, loc⟩
      | some (field, after) =>
        if after.length ≤ rest.length then do
          let part ← fieldValue read loc field
          fstringFrom read loc [] (part :: literalPart literal ++ parts) after
        else .error ⟨.fieldOpen, loc⟩
    else fstringFrom read loc (c :: literal) parts rest
termination_by body.length
decreasing_by all_goals simp only [List.length_cons, List.length_drop]; omega

/-- The parts of a formatted string whose literal starts at `loc`. -/
def fstringParts (read : String → Location → Except SyntaxError Expr) (loc : Location)
    (body : String) : Except SyntaxError (List FPart) :=
  fstringFrom read loc [] [] body.toList

end StepTrace
