import StepTrace.Grammar.Expression

/-!
The grammar of statements and programs.
-/

set_option autoImplicit false

namespace StepTrace

open Parse

/-- Readers for what lies inside a statement. -/
structure Parts where
  inner : Inner
  /-- Operands of binary operators, without operators. -/
  postfixAt : Nat → Parse Expr
  /-- Loop targets. -/
  targets : Nat → Parse Expr

def Parts.of (inner : Inner) : Parts where
  inner := inner
  postfixAt := postfixExpr inner
  targets room := targetList (bitwiseOr (unary (postfixExpr inner)) room)

/-- Whether a simple statement ends here. -/
def atStatementEnd : Parse Bool := do
  match ← kind with
  | .newline | .eof | .symbol .semicolon => return true
  | _ => return false

def dottedName : Parse String := do
  let first ← identifier
  let more ← many (fun _ => do
    if ← accept .dot then return some (← identifier)
    return none) []
  return String.intercalate "." (first :: more)

/-- `as` and a name, if they come next. -/
def alias? : Parse (Option String) := do
  if ← acceptWord .as then return some (← identifier)
  return none

def importedName : Parse ImportedName := do
  let name ← identifier
  return ⟨name, ← alias?⟩

/-- `from` and what follows it; the keyword has been passed. -/
def fromImport (loc : Location) : Parse Stmt := do
  let module ← dottedName
  demand "expected 'import'" (acceptWord .imports)
  let bracketed ← accept .lparen
  let first ← importedName
  let names ← commaSeparated (if bracketed then isSymbol .rparen else return false)
    (fun _ => importedName) [first]
  if bracketed then expect .rparen
  return .importFrom loc module names

def augmented? : TokenKind → Option BinaryOp
  | .symbol .plusEq => some .add
  | .symbol .minusEq => some .sub
  | .symbol .starEq => some .mul
  | .symbol .slashEq => some .div
  | .symbol .doubleSlashEq => some .floorDiv
  | .symbol .percentEq => some .mod
  | .symbol .doubleStarEq => some .pow
  | _ => none

/-- What an augmented assignment may change. -/
def Expr.isPlace : Expr → Bool
  | .name .. | .attr .. | .subscript .. => true
  | _ => false

/-- An expression, an assignment, or an annotation, whose type is read and dropped. -/
def expressionStatement (p : Parts) (room : Nat) : Parse Stmt := do
  let loc ← here
  let first ← expressionList p.inner room
  if ← isSymbol .eq then
    let rest ← many (fun _ => do
      if ← accept .eq then return some (← expressionList p.inner room)
      return none) []
    let chain := first :: rest
    let targets := chain.dropLast
    targets.forM ensureAssignable
    return .assign loc targets (chain.getLastD first)
  if let some op := augmented? (← kind) then
    advance
    unless first.isPlace do
      failAt first.location .augmentedTarget
    return .augAssign loc op first (← expressionList p.inner room)
  if ← accept .colon then
    ensureAssignable first
    discard (p.inner.expression room)
    if ← accept .eq then
      return .assign loc [first] (← expressionList p.inner room)
    return .pass loc
  return .expr loc first

def simpleStatement (p : Parts) (room : Nat) : Parse Stmt := do
  let ⟨kind, loc⟩ ← peek
  match kind with
  | .keyword .pass =>
    advance
    return .pass loc
  | .keyword .break =>
    advance
    return .break loc
  | .keyword .continue =>
    advance
    return .continue loc
  | .keyword .return =>
    advance
    if ← atStatementEnd then return .return loc none
    return .return loc (some (← expressionList p.inner room))
  | .keyword .global =>
    advance
    let first ← identifier
    return .global loc (← commaSeparated (return false) (fun _ => identifier) [first])
  | .keyword .raise =>
    advance
    if ← atStatementEnd then return .raise loc none
    return .raise loc (some (← p.inner.expression room))
  | .keyword .assert =>
    advance
    let condition ← p.inner.expression room
    if ← accept .comma then
      return .assert loc condition (some (← p.inner.expression room))
    return .assert loc condition none
  | .keyword .del =>
    advance
    let first ← p.postfixAt room
    let targets ← commaSeparated (return false) (fun _ => p.postfixAt room) [first]
    match targets.find? (!·.isAssignable) with
    | some bad => failAt bad.location .deleteTarget
    | none => return .delete loc targets
  | .keyword .imports =>
    advance
    let module ← dottedName
    return .importModule loc ⟨module, ← alias?⟩
  | .keyword .from =>
    advance
    fromImport loc
  | .reserved word => failAt loc (.unsupported word)
  | .keyword .elif | .keyword .else => fail .invalid
  | _ => expressionStatement p room

/-- Simple statements on one line, separated by semicolons. -/
def simpleLine (p : Parts) (room : Nat) : Parse (List Stmt) := do
  let first ← simpleStatement p room
  let stmts ← many (fun _ => do
    if ← accept .semicolon then
      if (← isNewline) || (← isEnd) then return none
      return some (← simpleStatement p room)
    return none) [first]
  unless ← isEnd do
    demand "invalid syntax: expected end of line" (passIf isNewline)
  return stmts

/-- `if` or `elif` and what follows it; the keyword has been passed. -/
def ifWith (p : Parts) (block : Nat → Parse (List Stmt)) (elseIf : Parse Stmt) (room : Nat) :
    Parse Stmt := do
  let loc ← previous
  let condition ← p.inner.expression room
  let body ← block room
  if ← acceptWord .elif then return .ifElse loc condition body [← elseIf]
  if ← acceptWord .else then return .ifElse loc condition body (← block room)
  return .ifElse loc condition body []

def ifStatement (p : Parts) (block : Nat → Parse (List Stmt)) : Nat → Parse Stmt
  | 0 => ifWith p block (fail .tooDeep) 0
  | room + 1 => ifWith p block (ifStatement p block room) (room + 1)

/-- A statement with a block; the keyword has been passed at `loc`. -/
def compound (p : Parts) (block : Nat → Parse (List Stmt)) (room : Nat) (loc : Location) :
    Keyword → Parse Stmt
  | .while => do
    let condition ← p.inner.expression room
    let body ← block room
    if ← isKeyword .else then fail .whileElse
    return .while loc condition body
  | .for => do
    let target ← p.targets room
    demand "expected 'in'" (acceptWord .in)
    let iter ← expressionList p.inner room
    let body ← block room
    if ← isKeyword .else then fail .forElse
    return .for loc target iter body
  | .define => do
    let name ← identifier
    expect .lparen
    let params ← parameters p.inner room .rparen true
    expect .rparen
    if ← accept .arrow then
      discard (p.inner.expression room)
    return .function loc name params (← block room)
  | _ => do
    let name ← identifier
    let base ← do
      if ← accept .lparen then
        let base ← do
          if ← isSymbol .rparen then pure none
          else pure (some (← p.inner.expression room))
        expect .rparen
        pure base
      else pure none
    return .class loc name base (← block room)

/-- One statement with a block, or a line of simple statements. -/
def statement (p : Parts) (block : Nat → Parse (List Stmt)) (room : Nat) : Parse (List Stmt) := do
  match ← peek with
  | ⟨.keyword .if, _⟩ =>
    advance
    return [← ifStatement p block room]
  | ⟨.keyword k, loc⟩ =>
    if [Keyword.while, .for, .define, .cls].contains k then
      advance
      return [← compound p block room loc k]
    simpleLine p room
  | _ => simpleLine p room

def isDedent : Parse Bool := do
  match ← kind with
  | .dedent => return true
  | _ => return false

def isIndent : Parse Bool := do
  match ← kind with
  | .indent => return true
  | _ => return false

/-- What follows the header of a block: an indented block, or simple statements on the same line. -/
def suite (p : Parts) (block : Nat → Parse (List Stmt)) (room : Nat) : Parse (List Stmt) := do
  expect .colon
  if !(← passIf isNewline) then return ← simpleLine p room
  if !(← passIf isIndent) then fail .block
  let body ← many (fun _ => do
    if (← isDedent) || (← isEnd) then return none
    if ← passIf isNewline then return some []
    return some (← statement p block room)) []
  discard (passIf isDedent)
  return body.flatten

/-- The block after a header; `levels` bounds the blocks inside it. -/
def blockAt (p : Parts) : Nat → Nat → Parse (List Stmt)
  | 0, _ => fail .tooDeep
  | levels + 1, room => deeper (suite p (blockAt p levels)) room

/-- A whole program. Every block takes room, so `maxNesting` levels of blocks suffice. -/
def program (p : Parts) : Parse Program := do
  let stmts ← many (fun _ => do
    if ← isEnd then return none
    if ← passIf isNewline then return some []
    if ← isIndent then fail .indent
    return some (← statement p (blockAt p (maxNesting + 1)) maxNesting)) []
  return stmts.flatten

/-- The program written in a text. -/
def parseProgram (source : String) : Except SyntaxError Program := do
  let c : Cursor := ⟨← tokens source, ⟨1, 1⟩⟩
  let (stmts, _) ← (program (.of (readers (fieldAt source.length) c.levels))).run c
  return stmts

theorem parseProgram_ofList (letters : List Char) :
    parseProgram (String.ofList letters) = (do
      let c : Cursor := ⟨← Layout.run ⟨⟨letters, ⟨1, 1⟩⟩, [0], 0, true, []⟩, ⟨1, 1⟩⟩
      let (stmts, _) ← (program (.of (readers (fieldAt letters.length) c.levels))).run c
      return stmts) := by
  rw [parseProgram, tokens_ofList, String.length_ofList]

end StepTrace
