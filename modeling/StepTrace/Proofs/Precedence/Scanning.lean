import Mathlib
import StepTrace.Proofs.Literals.Reading
import StepTrace.Proofs.Precedence.Formula

/-!
The text of a formula makes up the tokens of the formula: wherever two pieces touch, neither of them
can take a character of the other one.
-/

set_option autoImplicit false

namespace StepTrace

/-! ### Pieces one after another -/

def charsOf (ps : List Piece) : List Char := ps.flatMap Piece.chars

-- Before these characters the piece is a token of its own.
structure Piece.Reads (p : Piece) (kind : TokenKind) (next : List Char) : Prop where
  token : p.kind? = some kind
  starts : ∃ c cs, p.chars = c :: cs ∧ StartsToken c
  scanned : ∀ loc, ∃ loc', scanToken ⟨p.chars ++ next, loc⟩ = .ok (kind, ⟨next, loc'⟩)

inductive Separated : List Piece → Prop
  | nil : Separated []
  | token {p : Piece} {kind : TokenKind} {rest : List Piece} (reads : p.Reads kind (charsOf rest))
    (others : Separated rest) : Separated (p :: rest)
  | spaced {p : Piece} {kind : TokenKind} {rest : List Piece} (reads : p.Reads kind (charsOf rest))
    (others : Separated rest) : Separated (.blank :: p :: rest)

theorem Layout.At.passPiece {l : Layout} {p : Piece} {kind : TokenKind} {next : List Char}
    (here : l.At (p.chars ++ next)) (reads : p.Reads kind next) :
    ∃ l', l.Passes l' [kind] ∧ l'.fresh = false ∧ l'.text.rest = next := by
  obtain ⟨c, cs, head, starts⟩ := reads.starts
  have scanned := reads.scanned
  rw [head] at here scanned
  exact here.pass starts scanned (by simp)

theorem Separated.passes {ps : List Piece} (separated : Separated ps) {l : Layout}
    (within : l.fresh = false) (text : l.text.rest = charsOf ps) :
    ∃ l', l.Passes l' (ps.filterMap Piece.kind?) ∧ l'.At [] := by
  induction separated generalizing l with
  | nil => exact ⟨l, .refl l, within, .inl text⟩
  | @token p kind rest reads _ ih =>
    obtain ⟨l₁, passes₁, within₁, text₁⟩ := Layout.At.passPiece ⟨within, .inl text⟩ reads
    obtain ⟨l', passes, here⟩ := ih within₁ text₁
    refine ⟨l', ?_, here⟩
    rw [List.filterMap_cons_some reads.token]
    exact passes₁.trans passes
  | @spaced p kind rest reads _ ih =>
    obtain ⟨l₁, passes₁, within₁, text₁⟩ := Layout.At.passPiece ⟨within, .inr text⟩ reads
    obtain ⟨l', passes, here⟩ := ih within₁ text₁
    refine ⟨l', ?_, here⟩
    rw [List.filterMap_cons_none rfl, List.filterMap_cons_some reads.token]
    exact passes₁.trans passes

/-! ### Words -/

-- These characters end a word and do not make a string of it.
def EndsWord (next : List Char) : Prop :=
  ∀ c ∈ next.head?, c ∈ [' ', ',', ')', ']', '(', '[', '.']

theorem EndsWord.stop {next : List Char} (ends : EndsWord next) :
    ∀ c ∈ next.head?, (Text.isLetterOrDigit c || c == '_') = false ∧ c ≠ '"' ∧ c ≠ '\'' := by
  intro c here
  have known := ends c here
  simp only [List.mem_cons, List.not_mem_nil, or_false] at known
  rcases known with rfl | rfl | rfl | rfl | rfl | rfl | rfl <;> decide

theorem not_isDigit_of_isLetter {c : Char} (letter : Text.isLetter c = true) :
    c.isDigit = false := by
  refine Bool.eq_false_iff.2 fun digit => ?_
  simp only [Char.isDigit, Bool.and_eq_true, decide_eq_true_eq, ge_iff_le,
    UInt32.le_iff_toNat_le] at digit
  have low : c.val < 128 := by
    rw [UInt32.lt_iff_toNat_lt]
    exact Nat.lt_of_le_of_lt digit.2 (by decide)
  simp only [Text.isLetter, if_pos low, Char.isAlpha, Char.isUpper, Char.isLower, Bool.or_eq_true,
    Bool.and_eq_true, decide_eq_true_eq, ge_iff_le, UInt32.le_iff_toNat_le] at letter
  obtain ⟨-, high⟩ := digit
  have nine : ('9'.val).toNat = 57 := rfl
  have upper : ('A'.val).toNat = 65 := rfl
  have lower : ('a'.val).toNat = 97 := rfl
  omega

theorem not_isDigit_of_letter {c : Char} (letter : (Text.isLetter c || c == '_') = true) :
    c.isDigit = false := by
  rcases Bool.or_eq_true_iff.1 letter with alphabetic | underscore
  · exact not_isDigit_of_isLetter alphabetic
  · rw [beq_iff_eq.1 underscore]
    rfl

-- A letter is none of the characters that tokens of other kinds start with.
theorem ne_of_isLetter {c d : Char} (letter : (Text.isLetter c || c == '_') = true)
    (other : (Text.isLetter d || d == '_') = false) : c ≠ d := by
  rintro rfl
  rw [letter] at other
  cases other

theorem startsToken_of_isLetter {c : Char} (letter : (Text.isLetter c || c == '_') = true) :
    StartsToken c := by
  have ne : ∀ d : Char, (Text.isLetter d || d == '_') = false → c ≠ d := fun d =>
    ne_of_isLetter letter
  have blank : isIndentChar c = false := by
    simp [isIndentChar, ne ' ' (by decide), ne '\t' (by decide)]
  exact ⟨blank, ne _ (by decide), ne _ (by decide), ne _ (by decide), ne _ (by decide),
    ne _ (by decide)⟩

theorem scanToken_word {c : Char} {cs next : List Char}
    (letter : (Text.isLetter c || c == '_') = true)
    (letters : ∀ d ∈ c :: cs, (Text.isLetterOrDigit d || d == '_') = true) (ends : EndsWord next)
    (loc : Location) : ∃ loc', scanToken ⟨c :: cs ++ next, loc⟩ =
      .ok (wordToken (String.ofList (c :: cs)), ⟨next, loc'⟩) := by
  have ne : ∀ d : Char, (Text.isLetter d || d == '_') = false → c ≠ d := fun d =>
    ne_of_isLetter letter
  obtain ⟨loc', read⟩ := scanWord_of_head letters ends.stop loc
  refine ⟨loc', Eq.trans ?_ read⟩
  simp [scanToken, ne '"' (by decide), ne '\'' (by decide), not_isDigit_of_letter letter,
    ne '.' (by decide), letter]

/-! ### Symbols -/

theorem scanToken_symbol {c : Char} {cs : List Char} {s : Symbol}
    (quote : ¬ (c = '"' ∨ c = '\''))
    (number : (c.isDigit || (c == '.' && cs.head?.any Char.isDigit)) = false)
    (letter : (Text.isLetter c || c == '_') = false) (symbol : symbolAt? (c :: cs) = some s)
    (loc : Location) :
    scanToken ⟨c :: cs, loc⟩ = .ok (.symbol s, Scanner.skip ⟨c :: cs, loc⟩ s.text.length) := by
  rw [scanToken]
  dsimp only
  rw [if_neg quote, number, if_neg Bool.false_ne_true, letter, if_neg Bool.false_ne_true, symbol]

/-! ### Pieces -/

namespace Identifier

theorem word (n : Identifier) : ∃ c cs, n.text.toList = c :: cs ∧
    (Text.isLetter c || c == '_') = true ∧
    ∀ d ∈ c :: cs, (Text.isLetterOrDigit d || d == '_') = true := by
  have valid := n.valid
  simp only [isName, Bool.and_eq_true] at valid
  obtain ⟨⟨⟨first, letters⟩, -⟩, -⟩ := valid
  cases word : n.text.toList with
  | nil =>
    rw [word] at first
    cases first
  | cons c cs =>
    rw [word] at first letters
    exact ⟨c, cs, rfl, first, List.all_eq_true.1 letters⟩

theorem token (n : Identifier) : wordToken n.text = .ident n.text := by
  have valid := n.valid
  simp only [isName, Bool.and_eq_true, Option.isNone_iff_eq_none, Bool.not_eq_true'] at valid
  rw [wordToken, valid.1.2]
  dsimp only
  rw [valid.2]
  rfl

end Identifier

namespace Piece.Reads

theorem name (n : Identifier) {next : List Char} (ends : EndsWord next) :
    (Piece.name n).Reads (.ident n.text) next := by
  obtain ⟨c, cs, word, first, letters⟩ := n.word
  have text : String.ofList (c :: cs) = n.text := by rw [← word, String.ofList_toList]
  refine ⟨rfl, ⟨c, cs, word, startsToken_of_isLetter first⟩, fun loc => ?_⟩
  obtain ⟨loc', read⟩ := scanToken_word first letters ends loc
  rw [text, n.token] at read
  exact ⟨loc', by rw [chars, word, read]⟩

theorem word (k : Keyword) {next : List Char} (ends : EndsWord next) :
    (Piece.word k).Reads (.keyword k) next := by
  obtain ⟨c, cs, text, first, letters, kind⟩ : ∃ c cs, k.text.toList = c :: cs ∧
      (Text.isLetter c || c == '_') = true ∧
      (c :: cs).all (fun d => Text.isLetterOrDigit d || d == '_') = true ∧
      wordToken (String.ofList (c :: cs)) = .keyword k := by
    cases k <;> exact ⟨_, _, rfl, rfl, rfl, rfl⟩
  refine ⟨rfl, ⟨c, cs, text, startsToken_of_isLetter first⟩, fun loc => ?_⟩
  obtain ⟨loc', read⟩ := scanToken_word first (List.all_eq_true.1 letters) ends loc
  rw [kind] at read
  exact ⟨loc', by rw [chars, text, read]⟩

theorem starts_mark (s : Symbol) : ∃ c cs, (Piece.mark s).chars = c :: cs ∧ StartsToken c := by
  cases s <;> exact ⟨_, _, rfl, by constructor <;> decide⟩

-- A blank ends a symbol.
theorem mark (s : Symbol) (next : List Char) : (Piece.mark s).Reads (.symbol s) (' ' :: next) := by
  refine ⟨rfl, starts_mark s, fun loc => ?_⟩
  cases s <;> exact ⟨_, rfl⟩

-- Nothing makes a longer symbol of these.
theorem alone {s : Symbol} (known : s ∈ [.lparen, .rparen, .lbracket, .rbracket, .comma, .tilde])
    (next : List Char) : (Piece.mark s).Reads (.symbol s) next := by
  refine ⟨rfl, starts_mark s, fun loc => ?_⟩
  simp only [List.mem_cons, List.not_mem_nil, or_false] at known
  rcases known with rfl | rfl | rfl | rfl | rfl | rfl <;> exact ⟨_, rfl⟩

theorem plus {next : List Char} (equals : next.head? ≠ some '=') :
    (Piece.mark .plus).Reads (.symbol .plus) next := by
  have symbol : symbolAt? ('+' :: next) = some .plus := by
    cases next with
    | nil => rfl
    | cons c next =>
      have other : c ≠ '=' := fun same => equals (congrArg some same)
      simp [symbolAt?, Symbol.all, Symbol.text, List.isPrefixOf, other.symm]
  exact ⟨rfl, starts_mark _, fun loc =>
    ⟨_, scanToken_symbol (by decide) rfl (by decide) symbol loc⟩⟩

theorem minus {next : List Char} (equals : next.head? ≠ some '=') (arrow : next.head? ≠ some '>') :
    (Piece.mark .minus).Reads (.symbol .minus) next := by
  have symbol : symbolAt? ('-' :: next) = some .minus := by
    cases next with
    | nil => rfl
    | cons c next =>
      have other : c ≠ '=' := fun same => equals (congrArg some same)
      have other' : c ≠ '>' := fun same => arrow (congrArg some same)
      simp [symbolAt?, Symbol.all, Symbol.text, List.isPrefixOf, other.symm, other'.symm]
  exact ⟨rfl, starts_mark _, fun loc =>
    ⟨_, scanToken_symbol (by decide) rfl (by decide) symbol loc⟩⟩

-- After a dot a digit would make a number.
theorem dot {next : List Char} (digit : next.head?.any Char.isDigit = false) :
    (Piece.mark .dot).Reads (.symbol .dot) next := by
  have number : ('.'.isDigit || '.' == '.' && next.head?.any Char.isDigit) = false := by
    rw [digit]
    rfl
  exact ⟨rfl, starts_mark _, fun loc =>
    ⟨_, scanToken_symbol (by decide) number (by decide) rfl loc⟩⟩

end Piece.Reads

/-! ### Formulas -/

-- The pieces can be told apart, with a blank in front or without.
structure Solid (ps : List Piece) : Prop where
  separated : Separated ps
  first : ∃ p rest, ps = p :: rest ∧ p ≠ .blank

namespace Solid

variable {p : Piece} {ps rest : List Piece} {kind : TokenKind}

theorem cons (reads : p.Reads kind (charsOf rest)) (others : Separated rest) :
    Solid (p :: rest) := by
  refine ⟨.token reads others, p, rest, rfl, ?_⟩
  rintro rfl
  cases reads.token

theorem blank (h : Solid ps) : Separated (.blank :: ps) := by
  obtain ⟨separated, p, rest, rfl, solid⟩ := h
  cases separated with
  | token reads others => exact .spaced reads others
  | spaced => exact absurd rfl solid

theorem word (k : Keyword) (h : Solid ps) : Solid (.word k :: .blank :: ps) :=
  cons (.word k (by rintro _ ⟨⟩; decide)) h.blank

theorem mark (s : Symbol) (h : Solid ps) : Solid (.mark s :: .blank :: ps) :=
  cons (.mark s _) h.blank

theorem alone {s : Symbol} (known : s ∈ [.lparen, .rparen, .lbracket, .rbracket, .comma, .tilde])
    (h : Separated ps) : Solid (.mark s :: ps) :=
  cons (.alone known _) h

end Solid

-- Whatever may come after an operand, the pieces can be told apart.
def Stands (ps : List Piece) : Prop :=
  ∀ rest, Separated rest → EndsWord (charsOf rest) → Solid (ps ++ rest)

theorem Stands.enclosed {ps : List Piece} (h : Stands ps) (needed : Bool) :
    Stands (enclosed needed ps) := by
  intro rest others ends
  cases needed with
  | false => exact h rest others ends
  | true =>
    have close : Solid (.mark .rparen :: rest) := .alone (by simp) others
    have inside := h _ close.separated (by rintro _ ⟨⟩; decide)
    rw [StepTrace.enclosed, if_pos rfl, List.append_assoc]
    exact .alone (by simp) inside.separated

-- The pieces are an operator, for between blanks.
def Joins (ops : List Piece) : Prop := ∀ rest, Solid rest → Solid (ops ++ .blank :: rest)

theorem joins_word (k : Keyword) : Joins [.word k] := fun _ h => h.word k

theorem joins_mark (s : Symbol) : Joins [.mark s] := fun _ h => h.mark s

theorem LeftOp.joins (op : LeftOp) : Joins [op.piece] := by
  cases op with
  | or | and => exact joins_word _
  | _ => exact joins_mark _

theorem CompareOp.joins (op : CompareOp) : Joins op.pieces := by
  cases op with
  | isIn | is => exact joins_word _
  | notIn | isNot => exact fun _ h => (h.word _).word _
  | _ => exact joins_mark _

theorem Stands.join {ps ops qs : List Piece} (left : Stands ps) (joins : Joins ops)
    (right : Stands qs) : Stands (ps ++ spaced ops ++ qs) := by
  intro rest others ends
  have after := (joins _ (right rest others ends)).blank
  have joined := left _ after (by rintro _ ⟨⟩; decide)
  simpa [spaced] using joined

-- The first character of a formula makes no longer symbol of a sign in front of it.
theorem Starts.head? {ps : List Piece} {level : Nat} (starts : Starts ps level)
    (least : level < 15) (more : List Piece) :
    (charsOf (ps ++ more)).head? ≠ some '=' ∧ (charsOf (ps ++ more)).head? ≠ some '>' := by
  obtain ⟨p, rest, kind, rfl, token, opens⟩ := starts
  obtain ⟨c, cs, chars, other⟩ : ∃ c cs, p.chars = c :: cs ∧ c ≠ '=' ∧ c ≠ '>' := by
    cases p with
    | blank => cases token
    | name n =>
      obtain ⟨c, cs, word, letter, -⟩ := n.word
      exact ⟨c, cs, word, ne_of_isLetter letter (by decide), ne_of_isLetter letter (by decide)⟩
    | word k =>
      obtain rfl := Option.some.inj token
      cases k <;> exact ⟨_, _, rfl, by decide, by decide⟩
    | mark s =>
      obtain rfl := Option.some.inj token
      cases s
      case lparen | minus | plus | tilde => exact ⟨_, _, rfl, by decide, by decide⟩
      all_goals exact absurd (Nat.lt_of_le_of_lt opens least) (Nat.lt_irrefl 15)
  have head : (charsOf (p :: rest ++ more)).head? = some c := by simp [charsOf, chars]
  rw [head]
  exact ⟨fun same => other.1 (Option.some.inj same), fun same => other.2 (Option.some.inj same)⟩

theorem Stands.sign {op : UnaryOp} {ps : List Piece} {level : Nat} (h : Stands ps)
    (starts : Starts ps level) (least : level < 15) : Stands (op.pieces ++ ps) := by
  intro rest others ends
  obtain ⟨equals, arrow⟩ := starts.head? least rest
  have inside := h rest others ends
  rw [List.append_assoc]
  cases op with
  | neg => exact .cons (.minus equals arrow) inside.separated
  | pos => exact .cons (.plus equals) inside.separated
  | bitNot => exact .alone (by simp) inside.separated
  | not => exact inside.word _

theorem Stands.name (n : Identifier) : Stands [.name n] :=
  fun _ others ends => .cons (.name n ends) others

-- Brackets after an operand.
theorem Stands.bracketed {ps inside : List Piece} {opening closing : Symbol} (left : Stands ps)
    (opens : opening = .lparen ∨ opening = .lbracket)
    (closes : closing = .rparen ∨ closing = .rbracket)
    (h : ∀ rest, Separated (.mark closing :: rest) → Separated (inside ++ .mark closing :: rest)) :
    Stands (ps ++ .mark opening :: inside ++ [.mark closing]) := by
  intro rest others _
  have close : Solid (.mark closing :: rest) :=
    .alone (by rcases closes with rfl | rfl <;> simp) others
  have inner := h rest close.separated
  have open_ : Solid (.mark opening :: (inside ++ .mark closing :: rest)) :=
    .alone (by rcases opens with rfl | rfl <;> simp) inner
  have joined := left _ open_.separated (by rcases opens with rfl | rfl <;> rintro _ ⟨⟩ <;> decide)
  simpa using joined

theorem Stands.attr {ps : List Piece} (left : Stands ps) (n : Identifier) :
    Stands (ps ++ [.mark .dot, .name n]) := by
  intro rest others ends
  have field : Solid (.name n :: rest) := Stands.name n rest others ends
  have digit : (charsOf (.name n :: rest)).head?.any Char.isDigit = false := by
    obtain ⟨c, cs, word, letter, -⟩ := n.word
    have head : (charsOf (.name n :: rest)).head? = some c := by
      simp [charsOf, Piece.chars, word]
    rw [head, Option.any_some]
    exact not_isDigit_of_letter letter
  have dot : Solid (.mark .dot :: .name n :: rest) := .cons (.dot digit) field.separated
  have joined := left _ dot.separated (by rintro _ ⟨⟩; decide)
  simpa using joined

namespace Formula

theorem separated_moreArgs {args : List Formula} (stands : ∀ t ∈ args, Stands t.pieces)
    {rest : List Piece} (close : Separated (.mark .rparen :: rest)) :
    Separated (moreArgPieces args ++ .mark .rparen :: rest) ∧
      EndsWord (charsOf (moreArgPieces args ++ .mark .rparen :: rest)) := by
  induction args with
  | nil => exact ⟨close, by rintro _ ⟨⟩; decide⟩
  | cons t args ih =>
    obtain ⟨first, others⟩ := List.forall_mem_cons.1 stands
    obtain ⟨after, ends⟩ := ih others
    have comma := Solid.alone (s := .comma) (by simp) (first _ after ends).blank
    rw [moreArgPieces]
    have joined := comma.separated
    exact ⟨by simpa using joined, by rintro _ ⟨⟩; decide⟩

theorem separated_args {args : List Formula} (stands : ∀ t ∈ args, Stands t.pieces)
    {rest : List Piece} (close : Separated (.mark .rparen :: rest)) :
    Separated (argPieces args ++ .mark .rparen :: rest) := by
  cases args with
  | nil => exact close
  | cons t args =>
    obtain ⟨first, others⟩ := List.forall_mem_cons.1 stands
    obtain ⟨after, ends⟩ := separated_moreArgs others close
    rw [argPieces, List.append_assoc]
    exact (first _ after ends).separated

theorem stands_links {ps : List Piece} (left : Stands ps) {rest : List (CompareOp × Formula)}
    (stands : ∀ link ∈ rest, Stands link.2.pieces) : Stands (ps ++ linkPieces rest) := by
  induction rest generalizing ps with
  | nil =>
    rw [linkPieces, List.append_nil]
    exact left
  | cons link rest ih =>
    obtain ⟨op, t⟩ := link
    obtain ⟨first, others⟩ := List.forall_mem_cons.1 stands
    have joined := ih (left.join op.joins (first.enclosed (9 < t.level))) others
    rw [linkPieces]
    simpa using joined

theorem stands (t : Formula) : Stands t.pieces := by
  induction t with
  | name n =>
    rw [pieces]
    exact .name n
  | chain op l r left right =>
    rw [pieces]
    exact (left.enclosed _).join op.joins (right.enclosed _)
  | power b e base exponent =>
    rw [pieces]
    exact (base.enclosed _).join (joins_mark _) (exponent.enclosed _)
  | unary op t operand =>
    rw [pieces]
    exact (operand.enclosed _).sign t.starts.enclosed (by cases op <;> decide)
  | compare a op b rest first second others =>
    rw [pieces]
    exact stands_links ((first.enclosed _).join op.joins (second.enclosed _)) others
  | ifElse c y n condition yes no =>
    rw [pieces]
    exact ((yes.enclosed _).join (joins_word .if) (condition.enclosed _)).join (joins_word .else) no
  | call f args callee inside =>
    rw [pieces]
    exact (callee.enclosed _).bracketed (.inl rfl) (.inl rfl) fun _ => separated_args inside
  | attr o n object =>
    rw [pieces]
    exact (object.enclosed _).attr n
  | subscript o i object index =>
    rw [pieces]
    exact (object.enclosed _).bracketed (.inr rfl) (.inr rfl) fun _ close =>
      (index _ close (by rintro _ ⟨⟩; decide)).separated

end Formula

/-! ### The tokens of a text -/

namespace Formula

theorem kinds_eq_concat (t : Formula) : ∃ ks k, t.kinds = ks ++ [k] ∧ k ≠ .newline := by
  have filled : t.kinds ≠ [] := by
    obtain ⟨p, rest, kind, same, token, -⟩ := t.starts
    rw [kinds, same, List.filterMap_cons_some token]
    exact List.cons_ne_nil _ _
  have last := List.getLast_mem filled
  obtain ⟨p, -, token⟩ := List.mem_filterMap.1 last
  refine ⟨t.kinds.dropLast, t.kinds.getLast filled, (List.dropLast_append_getLast filled).symm, ?_⟩
  intro same
  rw [same] at token
  cases p <;> cases token

theorem tokens_text (t : Formula) :
    ∃ ts, tokens t.text = .ok ts ∧ ts.map Token.kind = t.kinds ++ [.newline, .eof] := by
  obtain ⟨ks, k, kinds, other⟩ := t.kinds_eq_concat
  have solid := t.stands [] .nil nofun
  rw [List.append_nil] at solid
  obtain ⟨c, cs, chars, starts⟩ : ∃ c cs, charsOf t.pieces = c :: cs ∧ StartsToken c := by
    obtain ⟨separated, p, rest, same, first⟩ := solid
    rw [same] at separated ⊢
    cases separated with
    | token reads =>
      obtain ⟨c, cs, chars, starts⟩ := reads.starts
      exact ⟨c, cs ++ charsOf rest, by simp [charsOf, chars], starts⟩
    | spaced => exact absurd rfl first
  have text : t.text.toList = c :: cs := by
    rw [text, String.toList_ofList]
    exact chars
  rw [tokens, tokensAt, text, run_margin starts]
  obtain ⟨l, passes, here⟩ := solid.separated.passes
    (l := ⟨⟨c :: cs, ⟨1, 1⟩⟩, [0], 0, false, []⟩) rfl chars.symm
  have passed : l.tokens.map Token.kind = (ks ++ [k]).reverse := by
    rw [← kinds, passes.kinds]
    exact List.append_nil _
  obtain ⟨ts, run, all⟩ := here.finish passes.widths passed other
  refine ⟨ts, passes.run.trans run, ?_⟩
  rw [all, kinds, List.append_assoc]
  rfl

end Formula

end StepTrace
