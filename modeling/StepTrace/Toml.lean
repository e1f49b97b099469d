import StepTrace.Number.Read

/-!
TOML documents: named values, and tables that may be given in parts. How a table came about decides
what may still be added to it: a table with a header or in braces is complete, one that a longer
header or a dotted key implies is not. A reader gives what stands at the front of a text, and the
text behind it; a text that is no document has no reading.
-/

set_option autoImplicit false

namespace StepTrace

/-- How a table came about. -/
inductive TableOrigin
  /-- Written in braces. -/
  | braces
  /-- Under its own header. -/
  | header
  /-- Named by the header of a table in it. -/
  | implied
  /-- Named by a dotted key. -/
  | dotted
deriving DecidableEq, Repr

inductive Toml
  | str (s : String)
  | int (n : Int64)
  | float (f : Float)
  | bool (b : Bool)
  /-- A date, a time, or both. -/
  | moment
  | arr (items : List Toml)
  | table (origin : TableOrigin) (entries : List (String × Toml))
  /-- An array of tables, each with a header of its own. -/
  | tables (items : List (List (String × Toml)))

instance : Inhabited Toml := ⟨.bool false⟩

namespace Toml

abbrev Entries := List (String × Toml)

/-- Puts what `f` makes of the value under a name in its place; a new name goes to the end. -/
def alter (name : String) (f : Option Toml → Option Toml) : Entries → Option Entries
  | [] => (f none).map fun v => [(name, v)]
  | (k, v) :: rest =>
    if k == name then (f (some v)).map fun v => (k, v) :: rest
    else (alter name f rest).map ((k, v) :: ·)

/-- Changes the last one of an array of tables. -/
def alterLast (f : Entries → Option Entries) (items : List Entries) : Option (List Entries) := do
  return items.dropLast ++ [← f (← items.getLast?)]

/--
Changes the table that a header names. Tables that are missing on the way are implied; of an array
of tables the last one is meant.
-/
def within (f : Entries → Option Entries) : List String → Entries → Option Entries
  | [], entries => f entries
  | name :: path, entries => entries |> alter name fun
    | none => (within f path []).map (table .implied)
    | some (table .braces _) => none
    | some (table origin sub) => (within f path sub).map (table origin)
    | some (tables items) => (alterLast (within f path) items).map tables
    | some _ => none

/-- Adds the table of a header; there may not be one but by implication. -/
def openTable (path : List String) (name : String) : Entries → Option Entries :=
  path |> within (alter name fun
    | none => some (table .header [])
    | some (table .implied sub) => some (table .header sub)
    | some _ => none)

/-- Adds a table to the array of a header. -/
def openItem (path : List String) (name : String) : Entries → Option Entries :=
  path |> within (alter name fun
    | none => some (tables [[]])
    | some (tables items) => some (tables (items ++ [[]]))
    | some _ => none)

/-- Adds a value under a dotted key; only tables of dotted keys may be added to. -/
def put (v : Toml) (name : String) : List String → Entries → Option Entries
  | [], entries => entries |> alter name fun
    | none => some v
    | some _ => none
  | key :: path, entries => entries |> alter key fun
    | none => (put v name path []).map (table .dotted)
    | some (table .dotted sub) => (put v name path sub).map (table .dotted)
    | some (table .implied sub) =>
      if path.isEmpty then none else (put v name path sub).map (table .implied)
    | some (tables items) =>
      if path.isEmpty then none else (alterLast (put v name path) items).map tables
    | some _ => none

end Toml

end StepTrace

namespace StepTrace.Toml

/-! ### Reading -/

/-- How deep brackets may nest, and the greatest length of a dotted key. -/
def maxNesting : Nat := 79

/-! ### Blanks and comments -/

def isBlank (c : Char) : Bool := c == ' ' || c == '\t'

/-- Characters of texts and comments: all but control characters. -/
def isPlain (c : Char) : Bool := c == '\t' || (32 ≤ c.toNat && c.toNat ≠ 127)

def skipBlanks (cs : List Char) : List Char := cs.dropWhile isBlank

def lineBreak? : List Char → Option (List Char)
  | '\n' :: rest => some rest
  | '\r' :: '\n' :: rest => some rest
  | _ => none

/-- What is left after the end of a line, before which blanks and a comment may stand. -/
def lineEnd? (cs : List Char) : Option (List Char) :=
  let rest := match skipBlanks cs with
    | '#' :: comment => comment.dropWhile isPlain
    | rest => rest
  if rest.isEmpty then some [] else lineBreak? rest

/-- What is left after blanks, line breaks and comments. -/
def skipLines (inComment : Bool) : List Char → List Char
  | [] => []
  | '\r' :: '\n' :: rest => skipLines false rest
  | c :: rest =>
    if c == '\n' then skipLines false rest
    else if inComment then if isPlain c then skipLines true rest else c :: rest
    else if isBlank c then skipLines false rest
    else if c == '#' then skipLines true rest
    else c :: rest

/-! ### Texts -/

def codePoint? (digits : List Char) : Option Char := do
  let n ← Number.digits? 16 digits
  if n.isValidChar then some (Char.ofNat n) else none

def simpleEscape? (c : Char) : Option Char :=
  match c with
  | 'b' => some '\x08'
  | 'f' => some '\x0c'
  | 'n' => some '\n'
  | 'r' => some '\r'
  | 't' => some '\t'
  | '\\' => some '\\'
  | '"' => some '"'
  | _ => none

/-- The number of characters after the backslash that an escape takes, and what it stands for. -/
def escape? : List Char → Option (Nat × Char)
  | 'u' :: rest => if 4 ≤ rest.length then (codePoint? (rest.take 4)).map (5, ·) else none
  | 'U' :: rest => if 8 ≤ rest.length then (codePoint? (rest.take 8)).map (9, ·) else none
  | c :: _ => (simpleEscape? c).map (1, ·)
  | [] => none

/-- A text on one line after its opening quote; `pending` characters belong to an escape. -/
def readLine (quote : Char) (pending : Nat) (out : String) : List Char → Option (String × List Char)
  | [] => none
  | c :: rest =>
    if 0 < pending then readLine quote (pending - 1) out rest
    else if c == quote then some (out, rest)
    else if c == '\\' && quote == '"' then
      match escape? rest with
      | some (n, c) => readLine quote n (out.push c) rest
      | none => none
    else if isPlain c then readLine quote 0 (out.push c) rest
    else none

/-- Whether the rest of a line is blank, and there is a line after it. -/
def breaksLine (cs : List Char) : Bool := (lineBreak? (skipBlanks cs)).isSome

/--
A text on several lines after its opening quotes. Up to two quotes may stand anywhere, also before
the closing ones. In `trimming`, blanks and line breaks do not count.
-/
def readLinesOf (quote : Char) (pending : Nat) (trimming : Bool) (out : String) :
    List Char → Option (String × List Char)
  | [] => none
  | c :: rest =>
    if 0 < pending then readLinesOf quote (pending - 1) trimming out rest
    else if c == quote then
      let more := (rest.takeWhile (· == quote)).length
      if more < 2 then readLinesOf quote 0 false (out.push c) rest
      else if more < 5 then some (out.pushn quote (more - 2), rest.drop more)
      else none
    else if trimming && (isBlank c || c == '\n' || (c == '\r' && rest.head? == some '\n')) then
      readLinesOf quote 0 true out rest
    else if c == '\\' && quote == '"' then
      if breaksLine rest then readLinesOf quote 0 true out rest
      else
        match escape? rest with
        | some (n, c) => readLinesOf quote n false (out.push c) rest
        | none => none
    else if c == '\r' && rest.head? == some '\n' then readLinesOf quote 0 false out rest
    else if c == '\n' || isPlain c then readLinesOf quote 0 false (out.push c) rest
    else none

def readText (quote : Char) (cs : List Char) : Option (String × List Char) :=
  match cs with
  | a :: b :: rest =>
    if a == quote && b == quote then
      readLinesOf quote 0 false "" ((lineBreak? rest).getD rest)
    else readLine quote 0 "" cs
  | _ => readLine quote 0 "" cs

/-! ### Keys -/

def isBare (c : Char) : Bool := c.isAlphanum || c == '-' || c == '_'

def readKey (cs : List Char) : Option (String × List Char) :=
  match cs with
  | '"' :: rest => readLine '"' 0 "" rest
  | '\'' :: rest => readLine '\'' 0 "" rest
  | _ =>
    let key := cs.takeWhile isBare
    if key.isEmpty then none else some (String.ofList key, cs.drop key.length)

/-- Keys with points between them, with blanks around each. -/
def readKeys : Nat → List Char → Option (List String × List Char)
  | 0, _ => none
  | room + 1, cs => do
    let (key, rest) ← readKey (skipBlanks cs)
    match skipBlanks rest with
    | '.' :: rest =>
      let (keys, rest) ← readKeys room rest
      return (key :: keys, rest)
    | rest => return ([key], rest)

/-- A dotted key as the path to a name. -/
def readPath (cs : List Char) : Option ((List String × String) × List Char) := do
  let (keys, rest) ← readKeys maxNesting cs
  return ((keys.dropLast, ← keys.getLast?), rest)

/-! ### Numbers, dates and times -/

/-- The digits of a run in which underscores stand between digits only. -/
def digitRun? (isDigit : Char → Bool) (cs : List Char) : Option (List Char) :=
  let groups := cs.splitOn '_'
  if groups.all fun g => !g.isEmpty && g.all isDigit then some groups.flatten else none

/-- Digits that do not begin with a zero, unless they are one. -/
def decimal? (cs : List Char) : Option (List Char) := do
  let digits ← digitRun? Char.isDigit cs
  if digits.head? == some '0' && cs.length ≠ 1 then none else some digits

/-- The sign of a number, and the number without it. -/
def signed : List Char → Bool × List Char
  | '-' :: rest => (true, rest)
  | '+' :: rest => (false, rest)
  | rest => (false, rest)

def integer? (cs : List Char) : Option Int64 :=
  let radix := fun base (isDigit : Char → Bool) rest => do
    let n ← Number.digits? base (← digitRun? isDigit rest)
    Number.ofInt? n
  match cs with
  | '0' :: 'x' :: rest => radix 16 (fun c => (Number.digitValue? c).any (· < 16)) rest
  | '0' :: 'o' :: rest => radix 8 (fun c => (Number.digitValue? c).any (· < 8)) rest
  | '0' :: 'b' :: rest => radix 2 (fun c => (Number.digitValue? c).any (· < 2)) rest
  | _ => do
    let (negative, rest) := signed cs
    let n ← Number.digits? 10 (← decimal? rest)
    Number.ofInt? (if negative then -(n : Int) else n)

/-- Digits, then places after a point or an exponent or both. -/
def fraction? (cs : List Char) : Option Float := do
  let (negative, rest) := signed cs
  if rest == "inf".toList then
    return if negative then -1.0 / 0.0 else 1.0 / 0.0
  if rest == "nan".toList then
    return 0.0 / 0.0
  let isMark := fun c => c == 'e' || c == 'E'
  let body := rest.takeWhile (!isMark ·)
  let mark := rest.drop body.length
  let whole := body.takeWhile (· != '.')
  let point := body.drop whole.length
  if mark.isEmpty && point.isEmpty then none
  let wholeDigits ← decimal? whole
  let places ← if point.isEmpty then some [] else digitRun? Char.isDigit (point.drop 1)
  let exponent ← if mark.isEmpty then some (0 : Int) else do
    let (down, digits) := signed (mark.drop 1)
    let e ← Number.digits? 10 (← digitRun? Char.isDigit digits)
    some (if down then -(e : Int) else e)
  let n ← Number.digits? 10 (wholeDigits ++ places)
  let f := Number.ofDecimal n (exponent - places.length)
  if negative then some (-f) else if f.isInf then none else some f

/-- Whether a number of two digits lies below a bound. -/
def isBelow (bound : Nat) (a b : Char) : Bool :=
  a.isDigit && b.isDigit && (Number.digits? 10 [a, b]).any (· < bound)

def daysIn (year month : Nat) : Nat :=
  if month = 2 then
    if year % 4 = 0 ∧ (year % 100 ≠ 0 ∨ year % 400 = 0) then 29 else 28
  else if month = 4 ∨ month = 6 ∨ month = 9 ∨ month = 11 then 30
  else 31

def afterDate? : List Char → Option (List Char)
  | y₁ :: y₂ :: y₃ :: y₄ :: '-' :: m₁ :: m₂ :: '-' :: d₁ :: d₂ :: rest => do
    if !([y₁, y₂, y₃, y₄, m₁, m₂, d₁, d₂].all Char.isDigit) then none
    let year ← Number.digits? 10 [y₁, y₂, y₃, y₄]
    let month ← Number.digits? 10 [m₁, m₂]
    let day ← Number.digits? 10 [d₁, d₂]
    if 1 ≤ month ∧ month ≤ 12 ∧ 1 ≤ day ∧ day ≤ daysIn year month then some rest else none
  | _ => none

/-- What is left after a time of the day. -/
def afterTime? : List Char → Option (List Char)
  | h₁ :: h₂ :: ':' :: m₁ :: m₂ :: ':' :: s₁ :: s₂ :: rest =>
    if isBelow 24 h₁ h₂ && isBelow 60 m₁ m₂ && isBelow 61 s₁ s₂ then
      match rest with
      | '.' :: c :: rest => if c.isDigit then some (rest.dropWhile Char.isDigit) else none
      | rest => some rest
    else none
  | _ => none

/-- Whether a text is the distance from universal time. -/
def isOffset : List Char → Bool
  | [z] => z == 'Z' || z == 'z'
  | [sign, h₁, h₂, ':', m₁, m₂] =>
    (sign == '+' || sign == '-') && isBelow 24 h₁ h₂ && isBelow 60 m₁ m₂
  | _ => false

/-- Whether a text is a time of the day, with or without an offset. -/
def isDatedTime (cs : List Char) : Bool :=
  match afterTime? cs with
  | some rest => rest.isEmpty || isOffset rest
  | none => false

/-- Whether a text is a date, a time of the day, or both. -/
def isMoment (cs : List Char) : Bool :=
  match afterDate? cs with
  | some [] => true
  | some (c :: rest) => (c == 'T' || c == 't') && isDatedTime rest
  | none => afterTime? cs == some []

/-- Characters of words, numbers, dates and times. -/
def isWordChar (c : Char) : Bool :=
  c.isAlphanum || c == '_' || c == '+' || c == '-' || c == '.' || c == ':'

/-- A value of one word; a time may follow its date after a space. -/
def readWord (cs : List Char) : Option (Toml × List Char) := do
  let word := cs.takeWhile isWordChar
  let rest := cs.drop word.length
  if word == "true".toList then return (bool true, rest)
  if word == "false".toList then return (bool false, rest)
  if let some n := integer? word then return (int n, rest)
  if let some f := fraction? word then return (float f, rest)
  if !isMoment word then none
  match rest with
  | ' ' :: c :: rest =>
    if afterDate? word == some [] && c.isDigit then
      let time := (c :: rest).takeWhile isWordChar
      if isDatedTime time then return (moment, (c :: rest).drop time.length) else none
    else return (moment, ' ' :: c :: rest)
  | rest => return (moment, rest)

/-! ### Values -/

/-- The items of an array after its bracket or a comma, where `value` reads an item. -/
def readItems (value : List Char → Option (Toml × List Char)) :
    Nat → List Char → Option (List Toml × List Char)
  | 0, _ => none
  | fuel + 1, cs =>
    match skipLines false cs with
    | ']' :: rest => some ([], rest)
    | cs => do
      let (v, rest) ← value cs
      match skipLines false rest with
      | ',' :: rest =>
        let (items, rest) ← readItems value fuel rest
        return (v :: items, rest)
      | ']' :: rest => return ([v], rest)
      | _ => none

/-- A key with its value, where `value` reads the value. -/
def readEntry (value : List Char → Option (Toml × List Char)) (cs : List Char) :
    Option ((List String × String × Toml) × List Char) := do
  let ((path, name), rest) ← readPath cs
  match rest with
  | '=' :: rest =>
    let (v, rest) ← value (skipBlanks rest)
    return ((path, name, v), rest)
  | _ => none

/-- The entries of a table in braces, the first of which has to follow. -/
def readEntries (value : List Char → Option (Toml × List Char)) (entries : Entries) :
    Nat → List Char → Option (Entries × List Char)
  | 0, _ => none
  | fuel + 1, cs => do
    let ((path, name, v), rest) ← readEntry value cs
    let entries ← put v name path entries
    match skipBlanks rest with
    | ',' :: rest => readEntries value entries fuel rest
    | '}' :: rest => return (entries, rest)
    | _ => none

/-- A text, a number, a date or a truth value. -/
def readScalar : List Char → Option (Toml × List Char)
  | '"' :: rest => (readText '"' rest).map fun (s, rest) => (str s, rest)
  | '\'' :: rest => (readText '\'' rest).map fun (s, rest) => (str s, rest)
  | cs => readWord cs

/-- A value with at most `room` brackets around one another. -/
def readValue : Nat → List Char → Option (Toml × List Char)
  | 0, cs => readScalar cs
  | room + 1, cs =>
    match cs with
    | '[' :: rest =>
      (readItems (readValue room) (rest.length + 1) rest).map fun (items, rest) => (arr items, rest)
    | '{' :: rest =>
      match skipBlanks rest with
      | '}' :: rest => some (table .braces [], rest)
      | rest =>
        (readEntries (readValue room) [] (rest.length + 1) rest).map fun (entries, rest) =>
          (table .braces entries, rest)
    | cs => readScalar cs

/-! ### Documents -/

/-- Reads the lines that are left; `header` is the path to the table that they belong to. -/
def readLines (header : List String) (entries : Entries) : Nat → List Char → Option Entries
  | 0, _ => none
  | fuel + 1, cs =>
    match skipBlanks cs with
    | [] => some entries
    | '[' :: '[' :: rest => do
      match ← readPath rest with
      | ((path, name), ']' :: ']' :: rest) =>
        let rest ← lineEnd? rest
        readLines (path ++ [name]) (← openItem path name entries) fuel rest
      | _ => none
    | '[' :: rest => do
      match ← readPath rest with
      | ((path, name), ']' :: rest) =>
        let rest ← lineEnd? rest
        readLines (path ++ [name]) (← openTable path name entries) fuel rest
      | _ => none
    | c :: rest =>
      if c == '#' || c == '\n' || c == '\r' then do
        readLines header entries fuel (← lineEnd? (c :: rest))
      else do
        let ((path, name, v), rest) ← readEntry (readValue maxNesting) (c :: rest)
        let rest ← lineEnd? rest
        readLines header (← within (put v name path) header entries) fuel rest

def read? (text : String) : Option Entries :=
  let cs := match text.toList with
    | '\ufeff' :: rest => rest
    | cs => cs
  readLines [] [] (cs.length + 1) cs

end StepTrace.Toml
