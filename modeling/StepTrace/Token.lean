import StepTrace.Syntax
import StepTrace.Number.Layout
import StepTrace.Text.Quoted

/-!
The words of a program's text: literals, names, keywords, symbols, and the marks of its layout.
-/

set_option autoImplicit false

namespace StepTrace

inductive Keyword
  | true | false | none | and | or | not | if | elif | else | while | for | in | is | define
  | return | cls | break | continue | pass | global | imports | from | as | lambda | raise | assert | del
deriving DecidableEq, Repr

def Keyword.text : Keyword → String
  | .true => "True"
  | .false => "False"
  | .none => "None"
  | .and => "and"
  | .or => "or"
  | .not => "not"
  | .if => "if"
  | .elif => "elif"
  | .else => "else"
  | .while => "while"
  | .for => "for"
  | .in => "in"
  | .is => "is"
  | .define => "def"
  | .return => "return"
  | .cls => "class"
  | .break => "break"
  | .continue => "continue"
  | .pass => "pass"
  | .global => "global"
  | .imports => "import"
  | .from => "from"
  | .as => "as"
  | .lambda => "lambda"
  | .raise => "raise"
  | .assert => "assert"
  | .del => "del"

def Keyword.all : List Keyword :=
  [.true, .false, .none, .and, .or, .not, .if, .elif, .else, .while, .for, .in, .is, .define,
    .return, .cls, .break, .continue, .pass, .global, .imports, .from, .as, .lambda, .raise, .assert, .del]

def Keyword.ofText? (s : String) : Option Keyword :=
  Keyword.all.find? (·.text == s)

theorem Keyword.mem_all (k : Keyword) : k ∈ Keyword.all := by
  cases k <;> decide

/-- Words of the full language that programs here cannot use. -/
def reservedWords : List String :=
  ["try", "except", "finally", "with", "yield", "async", "await", "nonlocal"]

inductive Symbol
  | plus | minus | star | doubleStar | slash | doubleSlash | percent
  | eqEq | notEq | lt | le | gt | ge
  | amp | pipe | caret | tilde | ltLt | gtGt
  | eq | plusEq | minusEq | starEq | slashEq | doubleSlashEq | percentEq | doubleStarEq
  | dot | comma | colon | semicolon | arrow
  | lparen | rparen | lbracket | rbracket | lbrace | rbrace
deriving DecidableEq, Repr

def Symbol.text : Symbol → String
  | plus => "+"
  | minus => "-"
  | star => "*"
  | doubleStar => "**"
  | slash => "/"
  | doubleSlash => "//"
  | percent => "%"
  | eqEq => "=="
  | notEq => "!="
  | lt => "<"
  | le => "<="
  | gt => ">"
  | ge => ">="
  | amp => "&"
  | pipe => "|"
  | caret => "^"
  | tilde => "~"
  | ltLt => "<<"
  | gtGt => ">>"
  | eq => "="
  | plusEq => "+="
  | minusEq => "-="
  | starEq => "*="
  | slashEq => "/="
  | doubleSlashEq => "//="
  | percentEq => "%="
  | doubleStarEq => "**="
  | dot => "."
  | comma => ","
  | colon => ":"
  | semicolon => ";"
  | arrow => "->"
  | lparen => "("
  | rparen => ")"
  | lbracket => "["
  | rbracket => "]"
  | lbrace => "\x7b"
  | rbrace => "\x7d"

/-- All symbols, a longer one before any that starts it. -/
def Symbol.all : List Symbol :=
  [.doubleStarEq, .doubleSlashEq, .doubleStar, .doubleSlash, .eqEq, .notEq, .le, .ge, .ltLt, .gtGt,
    .plusEq, .minusEq, .starEq, .slashEq, .percentEq, .arrow, .plus, .minus, .star, .slash,
    .percent, .lt, .gt, .amp, .pipe, .caret, .tilde, .eq, .dot, .comma, .colon, .semicolon,
    .lparen, .rparen, .lbracket, .rbracket, .lbrace, .rbrace]

theorem Symbol.mem_all (s : Symbol) : s ∈ Symbol.all := by
  cases s <;> decide

/-- A bracket opens a level in which line breaks do not count. -/
def Symbol.opens : Symbol → Bool
  | .lparen | .lbracket | .lbrace => Bool.true
  | _ => Bool.false

def Symbol.closes : Symbol → Bool
  | .rparen | .rbracket | .rbrace => Bool.true
  | _ => Bool.false

inductive TokenKind
  | int (value : Int64)
  | float (value : Float)
  | str (value : String)
  /-- The body of a formatted string, escapes resolved and fields still in it. -/
  | fstr (body : String)
  | ident (name : String)
  | reserved (word : String)
  | keyword (k : Keyword)
  | symbol (s : Symbol)
  | newline | indent | dedent | eof
deriving Repr

/-- The token as messages name it. -/
def TokenKind.describe : TokenKind → String
  | int n => "int literal " ++ toString n.toInt
  | float f => "float literal " ++ floatText f
  | str s => "string literal " ++ Text.described s
  | fstr s => "f-string " ++ Text.described s
  | ident s => "identifier '" ++ s ++ "'"
  | reserved s => "'" ++ s ++ "'"
  | keyword k => "'" ++ k.text ++ "'"
  | symbol s => "'" ++ s.text ++ "'"
  | newline => "end of line"
  | indent => "indent"
  | dedent => "dedent"
  | eof => "end of file"
where
  floatText (f : Float) : String :=
    if f.isNaN then "NaN"
    else if f.isInf then (if f < 0 then "-inf" else "inf")
    else Number.plain.write f

structure Token where
  kind : TokenKind
  loc : Location
deriving Repr

end StepTrace
