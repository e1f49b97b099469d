import StepTrace.Grammar.Cursor
import StepTrace.Grammar.FString

/-!
The grammar of expressions, one function per level of precedence. `room` counts how much deeper
the tree may still grow: brackets, prefix operators and each link of an operator chain take one,
and where none is left the text is refused.
-/

set_option autoImplicit false

namespace StepTrace

open Parse

/-- The deepest tree that is accepted. -/
def maxNesting : Nat := 200

/-- Readers for what lies inside an expression. -/
structure Inner where
  /-- A whole expression in a given room. -/
  expression : Nat → Parse Expr
  /-- The clauses of a comprehension in a given room. -/
  comprehension : Nat → Parse (List Clause)
  /-- An expression in the text of a formatted string. -/
  field : String → Location → Except SyntaxError Expr

/-- The room in which `inner` may be read inside `room`. -/
def deeper {α : Type} (inner : Nat → Parse α) : Nat → Parse α
  | 0 => fail .tooDeep
  | room + 1 => inner room

def operator? {α : Type} (ops : TokenKind → Option α) : Parse (Option α) := do
  return ops (← kind)

/-- If an operator comes next, goes on with it; else the chain ends with `left`. -/
def chainLink {α : Type} (ops : TokenKind → Option α) (left : Expr)
    (next : Location → α → Parse Expr) : Parse Expr := do
  match ops (← kind) with
  | none => return left
  | some op =>
    advance
    next (← previous) op

/-- A left-associative chain after its first operand; every link takes room. -/
def chain {α : Type} (ops : TokenKind → Option α) (node : Location → α → Expr → Expr → Expr)
    (operand : Nat → Parse Expr) : Nat → Expr → Parse Expr
  | 0, left => chainLink ops left fun _ _ => fail .tooDeep
  | room + 1, left => chainLink ops left fun loc op => do
    let right ← operand room
    chain ops node operand room (node loc op left right)

/-- A chain with its first operand. -/
def chained {α : Type} (ops : TokenKind → Option α) (node : Location → α → Expr → Expr → Expr)
    (operand : Nat → Parse Expr) (room : Nat) : Parse Expr := do
  chain ops node operand room (← operand room)

def startsExpression : Parse Bool := do
  match ← kind with
  | .int _ | .float _ | .str _ | .fstr _ | .ident _ => return true
  | .keyword k => return [Keyword.true, .false, .none, .not, .lambda].contains k
  | .symbol s => return [Symbol.minus, .plus, .tilde, .lparen, .lbracket, .lbrace].contains s
  | _ => return false

/-- Expressions between commas; a comma makes a tuple. -/
def expressionList (inner : Inner) (room : Nat) : Parse Expr := do
  let loc ← here
  let first ← inner.expression room
  if !(← isSymbol .comma) then return first
  let items ← commaSeparated (return !(← startsExpression)) (fun _ => inner.expression room) [first]
  return .tuple loc items

def ensureAssignable (target : Expr) : Parse Unit := do
  unless target.isAssignable do
    failAt target.location .assignTarget

def parameters (inner : Inner) (room : Nat) (close : Symbol) (annotated : Bool) :
    Parse (List Param) := do
  if ← isSymbol close then return []
  let first ← parameter []
  commaSeparated (isSymbol close) parameter [first]
where
  parameter (before : List Param) : Parse Param := do
    if (← isSymbol .star) || (← isSymbol .doubleStar) then fail .variadic
    let loc ← here
    let name ← identifier
    if before.any (·.name == name) then failAt loc (.duplicateParameter name)
    if annotated then
      if ← accept .colon then
        discard (inner.expression room)
    let value ← do
      if ← accept .eq then pure (some (← inner.expression room)) else pure none
    if value.isNone && before.any (·.default.isSome) then failAt loc .defaultOrder
    return .mk name value

inductive Argument
  | positional (value : Expr)
  | keyword (name : String) (value : Expr)

def Argument.positional? : Argument → Option Expr
  | positional value => some value
  | keyword .. => none

def Argument.keyword? : Argument → Option (String × Expr)
  | positional _ => none
  | keyword name value => some (name, value)

/-- Whether a name and `=` come next. -/
def startsKeyword : Parse Bool := do
  match (← get).rest with
  | ⟨.ident _, _⟩ :: ⟨.symbol .eq, _⟩ :: _ => return true
  | _ => return false

def clauses (orTest targets : Parse Expr) : Parse (List Clause) :=
  many (fun _ => do
    if !(← acceptWord .for) then return none
    let target ← targets
    demand "expected 'in'" (acceptWord .in)
    let iter ← orTest
    let conditions ← many (fun _ => do
      if ← acceptWord .if then return some (← orTest)
      return none) []
    return some (.mk target iter conditions)) []

/-- Arguments up to a closing parenthesis. -/
def arguments (inner : Inner) (room : Nat) :
    Parse (List Argument) := do
  if ← isSymbol .rparen then return []
  let first ← argument []
  commaSeparated (isSymbol .rparen) argument [first]
where
  argument (before : List Argument) : Parse Argument := do
    if (← isSymbol .star) || (← isSymbol .doubleStar) then fail .unpacking
    if ← startsKeyword then
      let name ← identifier
      advance
      return .keyword name (← inner.expression room)
    if before.any (·.keyword?.isSome) then fail .argumentOrder
    let loc ← here
    let value ← inner.expression room
    if ← isKeyword .for then
      return .positional (.listComp loc value (← inner.comprehension room))
    return .positional value

/-- An index: an expression list or a slice. -/
def index (inner : Inner) (room : Nat) : Parse Expr := do
  let loc ← here
  if ← isSymbol .colon then
    bounds loc none
  else
    let first ← expressionList inner room
    if ← isSymbol .colon then bounds loc (some first) else return first
where
  bounds (loc : Location) (lower : Option Expr) : Parse Expr := do
    advance
    let upper ← do
      if (← isSymbol .colon) || (← isSymbol .rbracket) then pure none
      else pure (some (← inner.expression room))
    let step ← do
      if ← accept .colon then
        if ← isSymbol .rbracket then pure none else pure (some (← inner.expression room))
      else pure none
    return .slice loc lower upper step

/-- Adjacent strings; one formatted string among them makes the whole a formatted one. -/
def stringAtom (inner : Inner) : Parse Expr := do
  let loc ← here
  let pieces ← many (fun _ => do
    match ← peek with
    | ⟨.str s, _⟩ =>
      advance
      return some (false, [FPart.text s])
    | ⟨.fstr body, start⟩ =>
      advance
      match fstringParts inner.field start body with
      | .ok parts => return some (true, parts)
      | .error e => throw e
    | _ => return none) []
  if pieces.any (·.1) then return .fstring loc (pieces.flatMap (·.2))
  let texts := pieces.flatMap (·.2) |>.map fun
    | .text s => s
    | .field .. => ""
  return .str loc (String.join texts)

/-- What follows an opening parenthesis. -/
def parenthesized (inner : Inner) (room : Nat)
    (loc : Location) : Parse Expr := do
  if ← accept .rparen then return .tuple loc []
  let first ← inner.expression room
  if ← isKeyword .for then
    let cs ← inner.comprehension room
    expect .rparen
    return .listComp loc first cs
  if !(← isSymbol .comma) then
    expect .rparen
    return first
  let items ← commaSeparated (isSymbol .rparen) (fun _ => inner.expression room) [first]
  expect .rparen
  return .tuple loc items

/-- What follows an opening bracket. -/
def listDisplay (inner : Inner) (room : Nat)
    (loc : Location) : Parse Expr := do
  if ← accept .rbracket then return .list loc []
  let first ← inner.expression room
  if ← isKeyword .for then
    let cs ← inner.comprehension room
    expect .rbracket
    return .listComp loc first cs
  let items ← commaSeparated (isSymbol .rbracket) (fun _ => inner.expression room) [first]
  expect .rbracket
  return .list loc items

/-- A key, a colon and a value. -/
def entry (inner : Inner) (room : Nat) : Parse (Expr × Expr) := do
  let key ← inner.expression room
  expect .colon
  return (key, ← inner.expression room)

/-- What follows an opening brace; a set comprehension is the set of a list comprehension. -/
def braceDisplay (inner : Inner) (room : Nat)
    (loc : Location) : Parse Expr := do
  if ← accept .rbrace then return .dict loc []
  let first ← inner.expression room
  if ← accept .colon then
    let value ← inner.expression room
    if ← isKeyword .for then
      let cs ← inner.comprehension room
      expect .rbrace
      return .dictComp loc first value cs
    let entries ← commaSeparated (isSymbol .rbrace) (fun _ => entry inner room) [(first, value)]
    expect .rbrace
    return .dict loc entries
  if ← isKeyword .for then
    let cs ← inner.comprehension room
    expect .rbrace
    return .call loc (.name loc "set") [.listComp loc first cs] []
  let items ← commaSeparated (isSymbol .rbrace) (fun _ => inner.expression room) [first]
  expect .rbrace
  return .set loc items

/-- Literals, names and whatever stands in brackets. -/
def primary (inner : Inner) (room : Nat) :
    Parse Expr := do
  let ⟨kind, loc⟩ ← peek
  let literal (e : Expr) : Parse Expr := do
    advance
    return e
  match kind with
  | .int n => literal (.int loc n)
  | .float f => literal (.float loc f)
  | .str _ | .fstr _ => stringAtom inner
  | .keyword .true => literal (.bool loc true)
  | .keyword .false => literal (.bool loc false)
  | .keyword .none => literal (.none loc)
  | .ident name => literal (.name loc name)
  | .symbol .lparen =>
    advance
    parenthesized inner room loc
  | .symbol .lbracket =>
    advance
    listDisplay inner room loc
  | .symbol .lbrace =>
    advance
    braceDisplay inner room loc
  | .reserved word => failAt loc (.unsupported word)
  | found => failAt loc (.unexpected found)

/-- One call, subscript or attribute after `left`, with `next` to go on. -/
def suffix (inner : Inner) (room : Nat) (left : Expr)
    (next : Expr → Parse Expr) (loc : Location) : Symbol → Parse Expr
  | .lparen => do
    advance
    let args ← arguments inner room
    expect .rparen
    next (.call loc left (args.filterMap (·.positional?)) (args.filterMap (·.keyword?)))
  | .lbracket => do
    advance
    let i ← index inner room
    expect .rbracket
    next (.subscript loc left i)
  | _ => do
    advance
    next (.attr loc left (← identifier))

/-- If a suffix comes next, goes on with it; else the expression ends. -/
def suffixLink (left : Expr) (next : Location → Symbol → Parse Expr) : Parse Expr := do
  match ← peek with
  | ⟨.symbol .lparen, loc⟩ => next loc .lparen
  | ⟨.symbol .lbracket, loc⟩ => next loc .lbracket
  | ⟨.symbol .dot, loc⟩ => next loc .dot
  | _ => return left

/-- The calls, subscripts and attributes after `left`; every one takes room. -/
def suffixes (inner : Inner) : Nat → Expr → Parse Expr
  | 0, left => suffixLink left fun _ _ => fail .tooDeep
  | room + 1, left => suffixLink left
    (suffix inner room left (suffixes inner room))

def postfixExpr (inner : Inner) (room : Nat) :
    Parse Expr := do
  suffixes inner room (← primary inner room)

def unaryOp? : TokenKind → Option UnaryOp
  | .symbol .minus => some .neg
  | .symbol .plus => some .pos
  | .symbol .tilde => some .bitNot
  | _ => none

/-- A sign before a number literal belongs to the literal. -/
def foldSign (loc : Location) (op : UnaryOp) (operand : Expr) : Expr :=
  match op, operand with
  | .neg, .int _ n => .int loc (-n)
  | .neg, .float _ f => .float loc (-f)
  | op, operand => .unary loc op operand

/-- A prefix operator or a power, whose right operand is read by `operand`. -/
def unaryWith (base operand : Parse Expr) : Parse Expr := do
  let ⟨kind, loc⟩ ← peek
  match unaryOp? kind with
  | some op =>
    advance
    return foldSign loc op (← operand)
  | none =>
    let left ← base
    if ← accept .doubleStar then
      let loc ← previous
      return .binary loc .pow left (← operand)
    return left

def unary (postfixAt : Nat → Parse Expr) : Nat → Parse Expr
  | 0 => unaryWith (postfixAt 0) (fail .tooDeep)
  | room + 1 => unaryWith (postfixAt (room + 1)) (unary postfixAt room)

def factorOp? : TokenKind → Option BinaryOp
  | .symbol .star => some .mul
  | .symbol .slash => some .div
  | .symbol .doubleSlash => some .floorDiv
  | .symbol .percent => some .mod
  | _ => none

def termOp? : TokenKind → Option BinaryOp
  | .symbol .plus => some .add
  | .symbol .minus => some .sub
  | _ => none

def shiftOp? : TokenKind → Option BinaryOp
  | .symbol .ltLt => some .shiftLeft
  | .symbol .gtGt => some .shiftRight
  | _ => none

def ampOp? : TokenKind → Option BinaryOp
  | .symbol .amp => some .bitAnd
  | _ => none

def caretOp? : TokenKind → Option BinaryOp
  | .symbol .caret => some .bitXor
  | _ => none

def pipeOp? : TokenKind → Option BinaryOp
  | .symbol .pipe => some .bitOr
  | _ => none

/-- Binary operators from `*` down to `|`, over an operand. -/
def bitwiseOr (operand : Nat → Parse Expr) : Nat → Parse Expr :=
  chained pipeOp? .binary <| chained caretOp? .binary <| chained ampOp? .binary <|
    chained shiftOp? .binary <| chained termOp? .binary <| chained factorOp? .binary operand

/-- Passes a comparison operator, of one word or two. -/
def comparison? : Parse (Option CompareOp) := do
  let found (op : CompareOp) (count : Nat) : Parse (Option CompareOp) := do
    advance
    if count = 2 then advance
    return some op
  match ((← get).rest.take 2).map Token.kind with
  | .symbol .eqEq :: _ => found .eq 1
  | .symbol .notEq :: _ => found .ne 1
  | .symbol .lt :: _ => found .lt 1
  | .symbol .le :: _ => found .le 1
  | .symbol .gt :: _ => found .gt 1
  | .symbol .ge :: _ => found .ge 1
  | .keyword .in :: _ => found .isIn 1
  | .keyword .not :: .keyword .in :: _ => found .notIn 2
  | .keyword .is :: .keyword .not :: _ => found .isNot 2
  | .keyword .is :: _ => found .is 1
  | _ => return none

def comparison (operand : Parse Expr) : Parse Expr := do
  let loc ← here
  let left ← operand
  let rest ← many (fun _ => do
    match ← comparison? with
    | some op => return some (op, ← operand)
    | none => return none) []
  if rest.isEmpty then return left
  return .compare loc left rest

/-- A negation, whose operand is read by `operand`, or a comparison. -/
def notWith (base operand : Parse Expr) : Parse Expr := do
  if ← acceptWord .not then
    let loc ← previous
    return .unary loc .not (← operand)
  base

def notTest (base : Nat → Parse Expr) : Nat → Parse Expr
  | 0 => notWith (base 0) (fail .tooDeep)
  | room + 1 => notWith (base (room + 1)) (notTest base room)

def andOp? : TokenKind → Option BoolOp
  | .keyword .and => some .and
  | _ => none

def orOp? : TokenKind → Option BoolOp
  | .keyword .or => some .or
  | _ => none

/-- Binary operators and comparisons under `not`, `and` and `or`. -/
def orTest (operand : Nat → Parse Expr) : Nat → Parse Expr :=
  chained orOp? .boolOp <| chained andOp? .boolOp <|
    notTest fun room => comparison (bitwiseOr operand room)

/-- The targets of a loop: they end at `in`. -/
def targetList (item : Parse Expr) : Parse Expr := do
  let loc ← here
  let first ← item
  let target ← do
    if ← isSymbol .comma then
      let items ← commaSeparated (isKeyword .in) (fun _ => item) [first]
      pure (Expr.tuple loc items)
    else pure first
  ensureAssignable target
  return target

/-- Parameters, a colon and a body; the keyword has been seen. -/
def lambdaExpr (inner : Inner) (room : Nat) : Parse Expr := do
  let loc ← here
  advance
  let params ← parameters inner room .colon false
  demand "expected ':' in lambda" (accept .colon)
  return .lambda loc params (← inner.expression room)

/-- An expression: a `lambda`, or operators with at most one condition around them. -/
def test (inner : Inner) (operand : Nat → Parse Expr) (room : Nat) : Parse Expr := do
  if ← isKeyword .lambda then return ← lambdaExpr inner room
  let loc ← here
  let yes ← orTest operand room
  if ← acceptWord .if then
    let condition ← orTest operand room
    demand "expected 'else' in conditional expression" (acceptWord .else)
    return .ifElse loc condition yes (← inner.expression room)
  return yes

/--
Readers of expressions and comprehensions. An inner expression or comprehension comes after at
least one token, so as many `levels` as there are tokens always suffice.
-/
def readers (field : String → Location → Except SyntaxError Expr) : Nat → Inner
  | 0 => ⟨fun _ => fail .tooDeep, fun _ => fail .tooDeep, field⟩
  | levels + 1 =>
    let inner := readers field levels
    let operand := unary (postfixExpr inner)
    { expression := deeper (test inner operand)
      comprehension := fun room =>
        clauses (orTest operand room) (targetList (bitwiseOr operand room))
      field }

/-- Enough levels for what is left to read. -/
def Cursor.levels (c : Cursor) : Nat :=
  c.rest.length + 1

/-- An expression list that makes up a whole text, which starts at `loc`. -/
def fieldExpression (field : String → Location → Except SyntaxError Expr) (text : String)
    (loc : Location) : Except SyntaxError Expr := do
  let c : Cursor := ⟨← tokensAt text loc, loc⟩
  let (e, left) ← (expressionList (readers field c.levels) maxNesting).run c
  match left.peek.kind with
  | .newline | .eof => return e
  | _ => throw ⟨.fieldExpression, loc⟩

/--
The expression in a field of a formatted string, with `depth` more levels of formatted strings
inside it. A formatted string is longer than its fields.
-/
def fieldAt : Nat → String → Location → Except SyntaxError Expr
  | 0 => fun _ loc => .error ⟨.fieldExpression, loc⟩
  | depth + 1 => fieldExpression (fieldAt depth)

end StepTrace
