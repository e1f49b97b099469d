import StepTrace.Json
import StepTrace.Number.Read

/-!
Reading documents. Numbers are read with one rounding of the digits and one of the scaling, so a
fraction may come back one place off; arrays and objects nest at most 127 deep.
-/

set_option autoImplicit false

namespace StepTrace.Json

/-- How deep arrays and objects may nest. -/
def maxNesting : Nat := 127

/-- Why a text is not a document. -/
inductive ReadError
  | malformed
  /-- Too deep, with the number of bytes up to and including the bracket. -/
  | tooDeep (column : Nat)
deriving DecidableEq, Repr

/-- A text being read, with the count of bytes read. -/
structure Source where
  rest : List Char
  bytes : Nat

def isSpace (c : Char) : Bool :=
  c == ' ' || c == '\n' || c == '\t' || c == '\r'

def skipSpaces : List Char → Nat → Source
  | [], n => ⟨[], n⟩
  | c :: rest, n => if isSpace c then skipSpaces rest (n + 1) else ⟨c :: rest, n⟩

def afterWord (word : String) (rest : List Char) (bytes : Nat) : Except ReadError Source :=
  let w := word.toList
  if w.isPrefixOf rest then .ok ⟨rest.drop w.length, bytes + w.length⟩ else .error .malformed

/-- The value of four hexadecimal digits. -/
def hex4? (a b c d : Char) : Option Nat :=
  if [a, b, c, d].all fun x => x.isDigit || ('a' ≤ x && x ≤ 'f') || ('A' ≤ x && x ≤ 'F') then
    Number.digits? 16 [a, b, c, d]
  else none

def simpleEscape? (c : Char) : Option Char :=
  match c with
  | '"' => some '"'
  | '\\' => some '\\'
  | '/' => some '/'
  | 'b' => some '\x08'
  | 'f' => some '\x0c'
  | 'n' => some '\n'
  | 'r' => some '\r'
  | 't' => some '\t'
  | _ => none

/-- A text after its opening quote; characters beyond 16 bits are escaped as two halves. -/
def readText (out : String) : List Char → Nat → Except ReadError (String × Source)
  | [], _ => .error .malformed
  | '"' :: rest, n => .ok (out, ⟨rest, n + 1⟩)
  | '\\' :: 'u' :: a :: b :: c :: d :: rest, n =>
    match hex4? a b c d with
    | none => .error .malformed
    | some h =>
      if 0xD800 ≤ h ∧ h < 0xDC00 then
        match rest with
        | '\\' :: 'u' :: a :: b :: c :: d :: rest =>
          match hex4? a b c d with
          | none => .error .malformed
          | some l =>
            if 0xDC00 ≤ l ∧ l < 0xE000 then
              readText (out.push (Char.ofNat (0x10000 + (h - 0xD800) * 0x400 + (l - 0xDC00)))) rest
                (n + 12)
            else .error .malformed
        | _ => .error .malformed
      else if 0xDC00 ≤ h ∧ h < 0xE000 then .error .malformed
      else readText (out.push (Char.ofNat h)) rest (n + 6)
  | '\\' :: c :: rest, n =>
    match simpleEscape? c with
    | some c => readText (out.push c) rest (n + 2)
    | none => .error .malformed
  | c :: rest, n =>
    if c.toNat < 32 then .error .malformed
    else readText (out.push c) rest (n + c.utf8Size)

/-- A number as it is written: a sign, digits before and after the point, and an exponent. -/
structure Numeral where
  negative : Bool
  whole : List Char
  places : Option (List Char)
  exponent : Option (Bool × List Char)

/-- The greatest significand that is kept. -/
def maxSignificand : Nat := 0x10000000000000000 - 1

/-- The digits that fit the significand, read on from `acc`, and the count of digits left over. -/
def significandFrom (acc : Nat) : List Char → Nat × Nat
  | [] => (acc, 0)
  | c :: rest =>
    let next := acc * 10 + (c.toNat - '0'.toNat)
    if maxSignificand < next then (acc, rest.length + 1) else significandFrom next rest

/-- `f` scaled by a power of ten, in steps the table of powers reaches; `none` past the range. -/
def scaleTen (f : Float) (e : Int) : Nat → Option Float
  | 0 => some f
  | fuel + 1 =>
    if e.natAbs ≤ 308 then
      let power := Float.ofScientific 1 false e.natAbs
      if 0 ≤ e then
        let scaled := f * power
        if scaled.isInf then none else some scaled
      else some (f / power)
    else if f == 0.0 then some f
    else if 0 ≤ e then none
    else scaleTen (f / Float.ofScientific 1 false 308) (e + 308) fuel

/-- The fraction of a significand and an exponent of ten. -/
def ofParts (negative : Bool) (significand : Nat) (e : Int) : Option Float :=
  (scaleTen (Float.ofNat significand) e (e.natAbs / 308 + 2)).map fun f =>
    if negative then -f else f

/-- The value of a numeral; `none` where it is out of range. -/
def Numeral.value? (n : Numeral) : Option Json :=
  let (significand, dropped) := significandFrom 0 n.whole
  match n.places, n.exponent with
  | none, none =>
    if 0 < dropped then (ofParts n.negative significand dropped).map float
    else if n.negative then
      if significand = 0 ∨ 0x8000000000000000 < significand then
        some (float (-(Float.ofNat significand)))
      else some (int (-(significand : Int)))
    else some (int significand)
  | places, exponent =>
    let places := places.getD []
    let (significand, rest) := significandFrom significand places
    let base : Int := dropped - ((places.length - rest : Nat) : Int)
    match exponent with
    | none => (ofParts n.negative significand base).map float
    | some (down, digits) =>
      let e := (Number.digits? 10 digits).getD 0
      if e < 0x80000000 then
        let e : Int := if down then base - e else base + e
        (ofParts n.negative significand (max (-0x80000000) (min e (0x80000000 - 1)))).map float
      else if significand ≠ 0 ∧ !down then none
      else some (float (if n.negative then -0.0 else 0.0))

/-- The numeral that `cs` starts with, and its length. -/
def numeral? (cs : List Char) : Option (Numeral × Nat) := do
  let (negative, cs) := match cs with
    | '-' :: rest => (true, rest)
    | cs => (false, cs)
  let whole := cs.takeWhile Char.isDigit
  if whole.isEmpty || (whole.head? == some '0' && 1 < whole.length) then none
  let sign := if negative then 1 else 0
  let after := cs.drop whole.length
  let (places, after, count) ← match after with
    | '.' :: rest =>
      let places := rest.takeWhile Char.isDigit
      if places.isEmpty then none
      else some (some places, rest.drop places.length, sign + whole.length + 1 + places.length)
    | after => some (none, after, sign + whole.length)
  match after with
  | c :: rest =>
    if c == 'e' || c == 'E' then
      let (down, rest, mark) := match rest with
        | '-' :: rest => (true, rest, 2)
        | '+' :: rest => (false, rest, 2)
        | rest => (false, rest, 1)
      let digits := rest.takeWhile Char.isDigit
      if digits.isEmpty then none
      else some (⟨negative, whole, places, some (down, digits)⟩, count + mark + digits.length)
    else some (⟨negative, whole, places, none⟩, count)
  | [] => some (⟨negative, whole, places, none⟩, count)

/-- What a reader is in the middle of: the brackets opened, innermost first. -/
inductive Open
  | arr (done : List Json)
  | obj (done : List (String × Json)) (name : String)

/-- What a reader expects next. -/
inductive Expect
  | value
  /-- The first item of an array, or its end. -/
  | firstItem
  /-- The first name of an object, or its end. -/
  | firstName
  | name
  /-- A comma or the end of what is open. -/
  | after (done : Json)

/-- A name and its colon; the quote has been read. -/
def readName (rest : List Char) (bytes : Nat) : Except ReadError (String × Source) := do
  let (name, s) ← readText "" rest bytes
  match skipSpaces s.rest s.bytes with
  | ⟨':' :: rest, n⟩ => return (name, ⟨rest, n + 1⟩)
  | _ => throw .malformed

/-- A complete value handed to what is open. -/
def Open.add : Open → Json → Open
  | .arr done, j => .arr (j :: done)
  | .obj done name, j => .obj ((name, j) :: done) ""

/-- One step of reading: a scalar, a bracket, a name or a comma. -/
def readStep (open_ : List Open) (expect : Expect) (s : Source) :
    Except ReadError (List Open × Expect × Source) :=
  let s := skipSpaces s.rest s.bytes
  match expect, s.rest with
  | _, [] => .error .malformed
  | .after j, c :: rest =>
    match open_ with
    | [] => .error .malformed
    | o :: outer =>
      match o.add j, c with
      | .arr done, ',' => .ok (.arr done :: outer, .value, ⟨rest, s.bytes + 1⟩)
      | .arr done, ']' => .ok (outer, .after (arr done.reverse), ⟨rest, s.bytes + 1⟩)
      | .obj done _, ',' => .ok (.obj done "" :: outer, .name, ⟨rest, s.bytes + 1⟩)
      | .obj done _, '\x7d' => .ok (outer, .after (obj done.reverse), ⟨rest, s.bytes + 1⟩)
      | _, _ => .error .malformed
  | .firstItem, ']' :: rest => .ok (open_.drop 1, .after (arr []), ⟨rest, s.bytes + 1⟩)
  | .firstName, '\x7d' :: rest => .ok (open_.drop 1, .after (obj []), ⟨rest, s.bytes + 1⟩)
  | .firstName, '"' :: rest | .name, '"' :: rest =>
    match open_ with
    | .obj done _ :: outer => do
      let (name, s) ← readName rest (s.bytes + 1)
      return (.obj done name :: outer, .value, s)
    | _ => .error .malformed
  | .firstName, _ | .name, _ => .error .malformed
  | .value, c :: rest | .firstItem, c :: rest =>
    let opened := open_.length < maxNesting
    match c with
    | '[' =>
      if opened then .ok (.arr [] :: open_, .firstItem, ⟨rest, s.bytes + 1⟩)
      else .error (.tooDeep (s.bytes + 1))
    | '\x7b' =>
      if opened then .ok (.obj [] "" :: open_, .firstName, ⟨rest, s.bytes + 1⟩)
      else .error (.tooDeep (s.bytes + 1))
    | '"' => do
      let (text, s) ← readText "" rest (s.bytes + 1)
      return (open_, .after (str text), s)
    | 'n' => (afterWord "null" (c :: rest) s.bytes).map fun s => (open_, .after null, s)
    | 't' => (afterWord "true" (c :: rest) s.bytes).map fun s => (open_, .after (bool true), s)
    | 'f' => (afterWord "false" (c :: rest) s.bytes).map fun s => (open_, .after (bool false), s)
    | _ =>
      match numeral? (c :: rest) with
      | none => .error .malformed
      | some (numeral, count) =>
        match numeral.value? with
        | none => .error .malformed
        | some j => .ok (open_, .after j, ⟨(c :: rest).drop count, s.bytes + count⟩)

/-- Reads on until a value is complete. Each step reads at least a character. -/
def readLoop (open_ : List Open) (expect : Expect) (s : Source) : Nat →
    Except ReadError (Json × Source)
  | 0 => .error .malformed
  | fuel + 1 =>
    match open_, expect with
    | [], .after j => .ok (j, s)
    | _, _ =>
      match readStep open_ expect s with
      | .error e => .error e
      | .ok (open_, expect, s) => readLoop open_ expect s fuel

/-- The document written in a text, with nothing but spaces around it. -/
def read (text : String) : Except ReadError Json := do
  let cs := text.toList
  let (j, s) ← readLoop [] .value ⟨cs, 0⟩ (cs.length + 2)
  if (skipSpaces s.rest s.bytes).rest.isEmpty then return j else throw .malformed

mutual

/-- The document in which each object has a name once, with the last value given for it. -/
def merged : Json → Json
  | arr items => arr (mergedItems items)
  | obj members => obj (Ordered.ofList (mergedMembers members)).toList
  | j => j

def mergedItems : List Json → List Json
  | [] => []
  | j :: rest => j.merged :: mergedItems rest

def mergedMembers : List (String × Json) → List (String × Json)
  | [] => []
  | (k, j) :: rest => (k, j.merged) :: mergedMembers rest

end

end StepTrace.Json
