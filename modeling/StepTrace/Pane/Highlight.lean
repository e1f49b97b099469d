import StepTrace.Pane.Window
import StepTrace.Text.Letter
import StepTrace.Snapshot

/-!
Colors for lines of a program and for texts of values. Both are cut into spans from left to right;
no character is left out.
-/

set_option autoImplicit false

namespace StepTrace.Pane.Highlight

open Screen (Span Style)

/-! ### Lines of a program -/

def keywords : List String :=
  ["def", "class", "return", "if", "elif", "else", "while", "for", "in", "not", "and", "or", "is",
    "break", "continue", "pass", "import", "from", "as", "lambda", "raise", "assert", "del",
    "global", "nonlocal", "try", "except", "finally", "with", "yield"]

def constants : List String := ["None", "True", "False", "self"]

/-- The style of a word, before an opening parenthesis or not. -/
def wordStyle (word : String) (called : Bool) : Style :=
  if keywords.contains word then { Style.ink Theme.keyword with bold := true }
  else if constants.contains word || word.all Char.isDigit then .ink Theme.number
  else if called then .ink Theme.name
  else .ink Theme.text

def signStyle (c : Char) : Style :=
  if ['(', ')', '[', ']', '{', '}'].contains c then .ink Theme.primary else .ink Theme.text

def isWordChar (c : Char) : Bool := Text.isLetterOrDigit c || c == '_'

/-- Where a line is being read. -/
inductive Place
  /-- In a word, or between words. -/
  | code
  | quoted (quote : Char)
  /-- Behind a backslash between quotes. -/
  | escaped (quote : Char)

/-- The span of a word, which is given in reverse; there is none without characters. -/
def wordSpans (word : List Char) (called : Bool) : List Span :=
  if word.isEmpty then []
  else
    let text := String.ofList word.reverse
    [⟨text, wordStyle text called⟩]

/-- The span of a quoted text, which is given in reverse. -/
def quotedSpan (text : List Char) : Span := ⟨String.ofList text.reverse, .ink Theme.string⟩

/-- The spans of a line; `pending` characters are read but in no span yet, and are in reverse. -/
def codeSpans : Place → (pending : List Char) → List Char → List Span
  | .code, pending, [] => wordSpans pending false
  | .quoted _, pending, [] | .escaped _, pending, [] => [quotedSpan pending]
  | .code, pending, c :: rest =>
    if c == '#' then
      wordSpans pending false ++ [⟨String.ofList (c :: rest), .ink Theme.comment⟩]
    else if c == '"' || c == '\'' then wordSpans pending false ++ codeSpans (.quoted c) [c] rest
    else if isWordChar c then codeSpans .code (c :: pending) rest
    else
      wordSpans pending (c == '(') ++
        ⟨String.singleton c, signStyle c⟩ :: codeSpans .code [] rest
  | .quoted quote, pending, c :: rest =>
    if c == quote then quotedSpan (c :: pending) :: codeSpans .code [] rest
    else if c == '\\' then codeSpans (.escaped quote) (c :: pending) rest
    else codeSpans (.quoted quote) (c :: pending) rest
  | .escaped quote, pending, c :: rest => codeSpans (.quoted quote) (c :: pending) rest

def code (line : String) : List Span := codeSpans .code [] line.toList

/-! ### Texts of values -/

def isNumberChar (c : Char) : Bool := c.isDigit || ['-', '.', 'e', '+'].contains c

def pieceStyle (piece : String) : Style :=
  if piece.startsWith "'" || piece.startsWith "\"" then .ink Theme.string
  else if piece == cycleMark then .ink Theme.back
  else if ["None", "True", "False"].contains piece || piece.all isNumberChar then
    .ink Theme.number
  else .ink Theme.text

/-- The span of a piece, which is given in reverse; there is none without characters. -/
def pieceSpans (piece : List Char) : List Span :=
  if piece.isEmpty then []
  else
    let text := String.ofList piece.reverse
    [⟨text, pieceStyle text⟩]

/-- Characters between the pieces of the text of a value. -/
def isSeparator (c : Char) : Bool := ['[', ']', '{', '}', '(', ')', ',', ':', ' '].contains c

/-- The spans of the text of a value, read up to an open quote and `pending` characters. -/
def valueSpans : (quote : Option Char) → (pending : List Char) → List Char → List Span
  | _, pending, [] => pieceSpans pending
  | some quote, pending, c :: rest =>
    if c == quote then pieceSpans (c :: pending) ++ valueSpans none [] rest
    else valueSpans (some quote) (c :: pending) rest
  | none, pending, c :: rest =>
    if c == '\'' || c == '"' then pieceSpans pending ++ valueSpans (some c) [c] rest
    else if isSeparator c then
      pieceSpans pending ++ ⟨String.singleton c, .ink Theme.text⟩ :: valueSpans none [] rest
    else valueSpans none (c :: pending) rest

def value (text : String) : List Span := valueSpans none [] text.toList

end StepTrace.Pane.Highlight
