import StepTrace.Token.Scan

/-!
Reading a sequence of tokens: looking at the next one, passing it, and repeating a reader for as
long as it goes on.
-/

set_option autoImplicit false

namespace StepTrace

/-- The tokens not read yet, and the place of the last one that was. -/
structure Cursor where
  rest : List Token
  previous : Location

/-- The next token; past the end it is an `eof`. -/
def Cursor.peek (c : Cursor) : Token :=
  c.rest.headD ⟨.eof, c.previous⟩

/-- Passes the next token; the end is never passed. -/
def Cursor.advance (c : Cursor) : Cursor :=
  match c.rest with
  | [] => c
  | t :: rest => match t.kind with
    | .eof => c
    | _ => ⟨rest, t.loc⟩

/-- A reader of tokens. -/
abbrev Parse := StateT Cursor (Except SyntaxError)

namespace Parse

variable {α : Type}

def peek : Parse Token := return (← get).peek

def kind : Parse TokenKind := return (← get).peek.kind

def here : Parse Location := return (← get).peek.loc

def previous : Parse Location := return (← get).previous

def advance : Parse Unit := modify Cursor.advance

def failAt (loc : Location) (cause : SyntaxCause) : Parse α :=
  throw ⟨cause, loc⟩

/-- Fails at the next token. -/
def fail (cause : SyntaxCause) : Parse α := do
  failAt (← here) cause

def isSymbol (s : Symbol) : Parse Bool := do
  match ← kind with
  | .symbol t => return t == s
  | _ => return false

def isKeyword (k : Keyword) : Parse Bool := do
  match ← kind with
  | .keyword t => return t == k
  | _ => return false

def isNewline : Parse Bool := do
  match ← kind with
  | .newline => return true
  | _ => return false

def isEnd : Parse Bool := do
  match ← kind with
  | .eof => return true
  | _ => return false

/-- Passes the next token if it is the given one. -/
def passIf (test : Parse Bool) : Parse Bool := do
  if ← test then
    advance
    return true
  return false

def accept (s : Symbol) : Parse Bool := passIf (isSymbol s)

def acceptWord (k : Keyword) : Parse Bool := passIf (isKeyword k)

/-- Fails with what was expected unless `passed`. -/
def demand (what : String) (passed : Parse Bool) : Parse Unit := do
  unless ← passed do
    fail (.expected what (← kind))

def expect (s : Symbol) : Parse Unit :=
  demand ("expected '" ++ s.text ++ "'") (accept s)

/-- Passes a name. -/
def identifier : Parse String := do
  match ← kind with
  | .ident name =>
    advance
    return name
  | found => fail (.identifier found)

/--
Repeats `step`, which sees what it has produced so far (last first), until it declines. A step
that goes on passes a token, so the cursor bounds the repetition.
-/
def collect (step : List α → Parse (Option α)) (done : List α) (c : Cursor) :
    Except SyntaxError (List α × Cursor) :=
  match step done c with
  | .error e => .error e
  | .ok (none, next) => .ok (done.reverse, next)
  | .ok (some a, next) =>
    if next.rest.length < c.rest.length then collect step (a :: done) next
    else .ok ((a :: done).reverse, next)
termination_by c.rest.length

/-- The results of `step` until it declines. -/
def many (step : List α → Parse (Option α)) (first : List α) : Parse (List α) :=
  fun c => collect step first.reverse c

/-- `item` after each further comma, up to a comma that `stop` follows. -/
def commaSeparated (stop : Parse Bool) (item : List α → Parse α) (first : List α) :
    Parse (List α) :=
  many (fun done => do
    if ← accept .comma then
      if ← stop then return none
      return some (← item done)
    return none) first

end Parse

end StepTrace
