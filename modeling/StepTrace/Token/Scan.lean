import StepTrace.SyntaxError
import StepTrace.Text.Cuts
import StepTrace.Text.Letter
import StepTrace.Number.Read

/-!
From text to tokens. Blocks are told by indentation: the widths of the open blocks form a stack,
and a line that starts further in or further out yields `indent` or `dedent` tokens. Blank lines
and comments yield nothing, and neither do line breaks inside brackets.
-/

set_option autoImplicit false

namespace StepTrace

def Location.after (l : Location) (c : Char) : Location :=
  if c = '\n' then ⟨l.line + 1, 1⟩ else ⟨l.line, l.column + 1⟩

/-- The place after a text. -/
def Location.afterAll (l : Location) (cs : List Char) : Location :=
  cs.foldl Location.after l

/-- A text and the place at which it starts. -/
structure Scanner where
  rest : List Char
  loc : Location

/-- What is left after `n` characters. -/
def Scanner.skip (s : Scanner) (n : Nat) : Scanner :=
  ⟨s.rest.drop n, s.loc.afterAll (s.rest.take n)⟩

def Scanner.skipWhile (s : Scanner) (p : Char → Bool) : Scanner :=
  s.skip (s.rest.takeWhile p).length

theorem Scanner.skip_zero (s : Scanner) : s.skip 0 = s := by
  simp [Scanner.skip, Location.afterAll]

/-- The indentation that leading blanks amount to; a tab goes to the next multiple of 8. -/
def indentWidth (blanks : List Char) : Nat :=
  blanks.foldl (fun width c => if c = '\t' then (width / 8 + 1) * 8 else width + 1) 0

def isIndentChar (c : Char) : Bool :=
  c == ' ' || c == '\t'

/-- The tokens of a line start of a given width, and the open widths after it. -/
def applyIndent (width : Nat) (loc : Location) (open_ : List Nat) :
    Except SyntaxError (List Token × List Nat) :=
  if open_.headD 0 < width then .ok ([⟨.indent, loc⟩], width :: open_)
  else
    let kept := open_.dropWhile (width < ·)
    if kept.headD 0 = width then
      .ok (List.replicate (open_.length - kept.length) ⟨.dedent, loc⟩, kept)
    else .error ⟨.unindent, loc⟩

/--
What is left after blanks, form feeds and continued lines; inside brackets after line breaks and
comments too.
-/
def skipInline (inBrackets : Bool) : List Char → Location → Except SyntaxError Scanner
  | [], loc => .ok ⟨[], loc⟩
  | c :: rest, loc =>
    if isIndentChar c || c == '\x0c' then skipInline inBrackets rest (loc.after c)
    else if c = '\\' then
      match rest with
      | '\n' :: rest => skipInline inBrackets rest ((loc.after c).after '\n')
      | '\r' :: '\n' :: rest =>
        skipInline inBrackets rest (((loc.after c).after '\r').after '\n')
      | _ => .error ⟨.continuation, loc⟩
    else if inBrackets && (c == '\r' || c == '\n') then skipInline inBrackets rest (loc.after c)
    else if inBrackets && c == '#' then
      skipComment inBrackets rest (loc.after c)
    else .ok ⟨c :: rest, loc⟩
where
  skipComment (inBrackets : Bool) : List Char → Location → Except SyntaxError Scanner
    | [], loc => .ok ⟨[], loc⟩
    | c :: rest, loc =>
      if c = '\n' then skipInline inBrackets rest (loc.after c)
      else skipComment inBrackets rest (loc.after c)

/-- The character that `\c` stands for; a continued line stands for nothing. -/
def unescape (c : Char) : List Char :=
  match c with
  | 'n' => ['\n']
  | 't' => ['\t']
  | 'r' => ['\r']
  | '0' => ['\x00']
  | '\\' => ['\\']
  | '\'' => ['\'']
  | '"' => ['"']
  | '\n' => []
  | c => ['\\', c]

/-- The body of a string up to its closing quotes, and what is left; `acc` is in reverse. -/
def stringBody (quote : Char) (triple raw : Bool) (acc : List Char) :
    List Char → Location → Option (String × Scanner)
  | [], _ => none
  | c :: rest, loc =>
    if c = quote then
      if triple then
        match rest with
        | a :: b :: rest' =>
          if a = quote ∧ b = quote then
            some (String.ofList acc.reverse, ⟨rest', ((loc.after c).after a).after b⟩)
          else stringBody quote triple raw (c :: acc) (a :: b :: rest') (loc.after c)
        | rest => stringBody quote triple raw (c :: acc) rest (loc.after c)
      else some (String.ofList acc.reverse, ⟨rest, loc.after c⟩)
    else if c = '\n' ∧ !triple then none
    else if c = '\\' then
      match rest with
      | [] => none
      | e :: rest =>
        let shown := if raw then ['\\', e] else unescape e
        stringBody quote triple raw (shown.reverse ++ acc) rest ((loc.after c).after e)
    else stringBody quote triple raw (c :: acc) rest (loc.after c)

/-- A string whose opening quote has been read; `start` is the place of the literal. -/
def scanString (quote : Char) (raw : Bool) (start : Location) (s : Scanner) :
    Except SyntaxError (String × Scanner) :=
  let body :=
    match s.rest with
    | a :: b :: _ =>
      if a = quote ∧ b = quote then
        let s := s.skip 2
        stringBody quote true raw [] s.rest s.loc
      else stringBody quote false raw [] s.rest s.loc
    | _ => stringBody quote false raw [] s.rest s.loc
  match body with
  | some r => .ok r
  | none => .error ⟨.openString, start⟩

/-- The characters of a number, without underscores, and whether it is a fraction. -/
def numberBody (fraction : Bool) (acc : List Char) :
    List Char → Location → List Char × Bool × Scanner
  | [], loc => (acc.reverse, fraction, ⟨[], loc⟩)
  | c :: rest, loc =>
    if c.isDigit then numberBody fraction (c :: acc) rest (loc.after c)
    else if c = '_' then numberBody fraction acc rest (loc.after c)
    else if c = '.' ∧ !fraction then numberBody true (c :: acc) rest (loc.after c)
    else if c = 'e' ∨ c = 'E' then
      match rest with
      | sign :: rest' =>
        if sign = '+' ∨ sign = '-' then
          numberBody true (sign :: c :: acc) rest' ((loc.after c).after sign)
        else numberBody true (c :: acc) (sign :: rest') (loc.after c)
      | [] => numberBody true (c :: acc) [] (loc.after c)
    else (acc.reverse, fraction, ⟨c :: rest, loc⟩)

/-- The base that `0x`, `0b` or `0o` announces. -/
def baseOf? (c : Char) : Option Nat :=
  match c with
  | 'x' | 'X' => some 16
  | 'b' | 'B' => some 2
  | 'o' | 'O' => some 8
  | _ => none

/-- An integer in a base; `s` stands at its first digit. -/
def scanBased (base : Nat) (start : Location) (s : Scanner) :
    Except SyntaxError (TokenKind × Scanner) :=
  let run := s.rest.takeWhile fun c => c.isAlphanum || c == '_'
  let digits := run.filter (· != '_')
  match (Number.digits? base digits).bind fun n => Number.ofInt? n with
  | some n => .ok (.int n, s.skip run.length)
  | none => .error ⟨.baseLiteral (String.ofList digits), start⟩

def scanNumber (first : Char) (start : Location) (s : Scanner) :
    Except SyntaxError (TokenKind × Scanner) :=
  match (if first = '0' then s.rest.head?.bind baseOf? else none) with
  | some base => scanBased base start (s.skip 1)
  | none =>
    let (text, fraction, s) := numberBody (first == '.') [first] s.rest s.loc
    if fraction then
      match Number.float? text with
      | some f => .ok (.float f, s)
      | none => .error ⟨.floatLiteral (String.ofList text), start⟩
    else
      match Number.readWord? 10 text with
      | some n => .ok (.int n, s)
      | none => .error ⟨.intLiteral (String.ofList text), start⟩

def wordToken (word : String) : TokenKind :=
  match Keyword.ofText? word with
  | some k => .keyword k
  | none => if reservedWords.contains word then .reserved word else .ident word

/-- A name, keyword or string with letters in front; `s` stands at the first letter. -/
def scanWord (s : Scanner) : Except SyntaxError (TokenKind × Scanner) :=
  let run := s.rest.takeWhile fun c => Text.isLetterOrDigit c || c == '_'
  let word := String.ofList run
  let after := s.skip run.length
  let flags := String.ofList (run.map Char.toLower)
  match after.rest with
  | quote :: _ =>
    if (quote = '"' ∨ quote = '\'') ∧ ["f", "r", "fr", "rf", "b", "u"].contains flags then do
      let (body, left) ← scanString quote (flags.contains 'r') s.loc (after.skip 1)
      return (if flags.contains 'f' then .fstr body else .str body, left)
    else .ok (wordToken word, after)
  | [] => .ok (wordToken word, after)

def symbolAt? (cs : List Char) : Option Symbol :=
  Symbol.all.find? fun s => s.text.toList.isPrefixOf cs

def scanToken (s : Scanner) : Except SyntaxError (TokenKind × Scanner) :=
  match s.rest with
  | [] => .ok (.eof, s)
  | c :: rest =>
    if c = '"' ∨ c = '\'' then do
      let (body, left) ← scanString c false s.loc (s.skip 1)
      return (.str body, left)
    else if c.isDigit || (c == '.' && rest.head?.any Char.isDigit) then
      scanNumber c s.loc (s.skip 1)
    else if Text.isLetter c || c == '_' then scanWord s
    else
      match symbolAt? s.rest with
      | some sym => .ok (.symbol sym, s.skip sym.text.length)
      | none => .error ⟨if c = '!' then .loneBang else .character c, s.loc⟩

def bracketsAfter (depth : Nat) : TokenKind → Nat
  | .symbol s => if s.opens then depth + 1 else if s.closes then depth - 1 else depth
  | _ => depth

/-- A text in the middle of its tokens. -/
structure Layout where
  text : Scanner
  /-- The widths of the open blocks, innermost first. -/
  widths : List Nat
  /-- The level of open brackets. -/
  depth : Nat
  /-- Whether the text stands at the start of a line. -/
  fresh : Bool
  /-- The tokens so far, last one first. -/
  tokens : List Token

/-- The tokens that close a text: the end of its last line and of its blocks. -/
def Layout.close (l : Layout) : List Token :=
  let loc := l.text.loc
  let endLine :=
    match l.tokens with
    | [] => []
    | t :: _ => match t.kind with
      | .newline => []
      | _ => [⟨.newline, loc⟩]
  l.tokens.reverse ++ endLine ++ List.replicate (l.widths.length - 1) ⟨.dedent, loc⟩ ++
    [⟨.eof, loc⟩]

/-- Reads on inside a line: one token, a line break or a comment. -/
def Layout.within (l : Layout) : Except SyntaxError Layout := do
  let s ← skipInline (0 < l.depth) l.text.rest l.text.loc
  match s.rest with
  | [] => return { l with text := s }
  | '#' :: _ => return { l with text := s.skipWhile (· != '\n') }
  | '\r' :: _ => return { l with text := s.skip 1 }
  | '\n' :: _ =>
    return { l with text := s.skip 1, fresh := true, tokens := ⟨.newline, s.loc⟩ :: l.tokens }
  | _ =>
    let (kind, left) ← scanToken s
    return { l with
      text := left, depth := bracketsAfter l.depth kind, tokens := ⟨kind, s.loc⟩ :: l.tokens }

/-- Reads on: at the start of a line past its indentation, elsewhere as `within` does. -/
def Layout.step (l : Layout) : Except SyntaxError Layout :=
  if l.fresh then
    let blanks := l.text.rest.takeWhile isIndentChar
    let s := l.text.skip blanks.length
    match s.rest with
    | [] => .ok { l with text := s }
    | '\n' :: _ | '\r' :: _ => .ok { l with text := s.skip 1 }
    | '#' :: _ => .ok { l with text := s.skipWhile (· != '\n') }
    | _ => do
      let (marks, widths) ← applyIndent (indentWidth blanks) s.loc l.widths
      Layout.within
        { l with text := s, widths, fresh := false, tokens := marks.reverse ++ l.tokens }
  else l.within

/-- All tokens from `l` on. A step always reads something, so the text gets shorter. -/
def Layout.run (l : Layout) : Except SyntaxError (List Token) :=
  if l.text.rest.isEmpty then .ok l.close
  else
    match l.step with
    | .error e => .error e
    | .ok next =>
      if next.text.rest.length < l.text.rest.length then next.run else .ok next.close
termination_by l.text.rest.length

def tokensAt (source : String) (origin : Location) : Except SyntaxError (List Token) :=
  Layout.run ⟨⟨source.toList, origin⟩, [0], 0, true, []⟩

def tokens (source : String) : Except SyntaxError (List Token) :=
  tokensAt source ⟨1, 1⟩

-- The letters of a text need not be decoded where they are given.
theorem tokens_ofList (letters : List Char) :
    tokens (String.ofList letters) = Layout.run ⟨⟨letters, ⟨1, 1⟩⟩, [0], 0, true, []⟩ := by
  rw [tokens, tokensAt, String.toList_ofList]

end StepTrace
