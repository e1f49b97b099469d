import StepTrace.Token

/-!
What can be wrong with the text of a program, and the messages for it.
-/

set_option autoImplicit false

namespace StepTrace

/-- A defect of the text of a program. -/
inductive SyntaxCause
  | unindent
  | continuation
  | loneBang
  | character (c : Char)
  | openString
  | baseLiteral (digits : String)
  | floatLiteral (text : String)
  | intLiteral (text : String)
  | expected (what : String) (found : TokenKind)
  | identifier (found : TokenKind)
  | unexpected (found : TokenKind)
  | indent
  | block
  | unsupported (word : String)
  | invalid
  | deleteTarget
  | assignTarget
  | augmentedTarget
  | whileElse
  | forElse
  | variadic
  | duplicateParameter (name : String)
  | defaultOrder
  | unpacking
  | argumentOrder
  | tooDeep
  | fieldClose
  | fieldOpen
  | fieldEmpty
  | fieldExpression
  | fieldConversion
  deriving Repr

def SyntaxCause.message : SyntaxCause → String
  | unindent => "unindent does not match any outer indentation level"
  | continuation => "unexpected character after line continuation character"
  | loneBang => "invalid syntax: '!'"
  | character c => "invalid character '" ++ c.toString ++ "'"
  | openString => "unterminated string literal"
  | baseLiteral digits => "invalid number literal '0?" ++ digits ++ "'"
  | floatLiteral text => "invalid float literal '" ++ text ++ "'"
  | intLiteral text => "integer literal '" ++ text ++ "' is too large"
  | expected what found => what ++ ", found " ++ found.describe
  | identifier found => "expected identifier, found " ++ found.describe
  | unexpected found => "invalid syntax: unexpected " ++ found.describe
  | indent => "unexpected indent"
  | block => "expected an indented block"
  | unsupported word => "'" ++ word ++ "' is not supported"
  | invalid => "invalid syntax"
  | deleteTarget => "cannot delete expression"
  | assignTarget => "cannot assign to expression"
  | augmentedTarget => "illegal expression for augmented assignment"
  | whileElse => "'while ... else' is not supported"
  | forElse => "'for ... else' is not supported"
  | variadic => "variadic parameters are not supported"
  | duplicateParameter name => "duplicate argument '" ++ name ++ "' in function definition"
  | defaultOrder => "non-default argument follows default argument"
  | unpacking => "argument unpacking is not supported"
  | argumentOrder => "positional argument follows keyword argument"
  | tooDeep => "too many nested expressions"
  | fieldClose => "f-string: single '\x7d' is not allowed"
  | fieldOpen => "f-string: expecting '\x7d'"
  | fieldEmpty => "f-string: empty expression not allowed"
  | fieldExpression => "f-string: invalid expression"
  | fieldConversion => "f-string: invalid conversion character"

/-- A defect and its place. -/
structure SyntaxError where
  cause : SyntaxCause
  loc : Location
  deriving Repr

/-- The message with its place. -/
def SyntaxError.describe (e : SyntaxError) : String :=
  e.cause.message ++ " (line " ++ toString e.loc.line ++ ", column " ++ toString e.loc.column ++ ")"

end StepTrace
