import StepTrace.Proofs.Literals.Printing
import StepTrace.Proofs.Literals.Scanning

/-!
The tokens of literals: those that their texts make up, whatever stands around them.
-/

set_option autoImplicit false

namespace StepTrace

/-! ### One token at a time -/

-- The text stands before `cs`, or before a blank in front of it.
structure Layout.At (l : Layout) (cs : List Char) : Prop where
  fresh : l.fresh = false
  text : l.text.rest = cs ∨ l.text.rest = ' ' :: cs

-- Between the layouts there are tokens of these kinds.
structure Layout.Passes (l l' : Layout) (kinds : List TokenKind) : Prop where
  run : l.run = l'.run
  widths : l'.widths = l.widths
  kinds : l'.tokens.map Token.kind = kinds.reverse ++ l.tokens.map Token.kind

theorem Layout.Passes.refl (l : Layout) : l.Passes l [] := ⟨rfl, rfl, rfl⟩

theorem Layout.Passes.trans {l l₁ l₂ : Layout} {ks ks' : List TokenKind} (h : l.Passes l₁ ks)
    (h' : l₁.Passes l₂ ks') : l.Passes l₂ (ks ++ ks') := by
  refine ⟨h.run.trans h'.run, h'.widths.trans h.widths, ?_⟩
  rw [h'.kinds, h.kinds, List.reverse_append, List.append_assoc]

theorem StartsToken.skip {c : Char} (starts : StartsToken c) (inside : Bool) (cs : List Char)
    (loc : Location) : skipInline inside (c :: cs) loc = .ok ⟨c :: cs, loc⟩ := by
  obtain ⟨blank, feed, slash, ret, line, hash⟩ := starts
  rw [skipInline.eq_def]
  simp [blank, feed, slash, ret, line, hash]

theorem skipInline_blank (inside : Bool) (cs : List Char) (loc : Location) :
    skipInline inside (' ' :: cs) loc = skipInline inside cs (loc.after ' ') := by
  rw [skipInline.eq_def]
  rfl

namespace Layout.At

variable {l : Layout} {c : Char} {cs rest : List Char} {kind : TokenKind}

theorem skip (here : l.At (c :: cs)) (starts : StartsToken c) :
    ∃ loc, skipInline (0 < l.depth) l.text.rest l.text.loc = .ok ⟨c :: cs, loc⟩ := by
  rcases here.text with text | text
  · rw [text]
    exact ⟨_, starts.skip ..⟩
  · rw [text, skipInline_blank]
    exact ⟨_, starts.skip ..⟩

theorem within (here : l.At (c :: cs)) (starts : StartsToken c)
    (token : ∀ loc, ∃ loc', scanToken ⟨c :: cs, loc⟩ = .ok (kind, ⟨rest, loc'⟩)) :
    ∃ loc loc', l.within = .ok { l with
      text := ⟨rest, loc'⟩, depth := bracketsAfter l.depth kind,
      tokens := ⟨kind, loc⟩ :: l.tokens } := by
  obtain ⟨loc, skipped⟩ := here.skip starts
  obtain ⟨loc', scanned⟩ := token loc
  refine ⟨loc, loc', ?_⟩
  obtain ⟨-, -, -, ret, line, hash⟩ := starts
  rw [Layout.within, Except.bind_of_ok skipped]
  dsimp only
  split
  case h_1 same => cases same
  case h_2 same => exact absurd (List.cons.inj same).1 hash
  case h_3 same => exact absurd (List.cons.inj same).1 ret
  case h_4 same => exact absurd (List.cons.inj same).1 line
  case h_5 =>
    rw [scanned]
    rfl

theorem pass (here : l.At (c :: cs)) (starts : StartsToken c)
    (token : ∀ loc, ∃ loc', scanToken ⟨c :: cs, loc⟩ = .ok (kind, ⟨rest, loc'⟩))
    (shorter : rest.length ≤ cs.length) :
    ∃ l', l.Passes l' [kind] ∧ l'.fresh = false ∧ l'.text.rest = rest := by
  obtain ⟨loc, loc', within⟩ := here.within starts token
  have step : l.step = l.within := if_neg (by rw [here.fresh]; exact Bool.false_ne_true)
  have longer : rest.length < l.text.rest.length := by
    rcases here.text with text | text <;> rw [text] <;> simp <;> omega
  have filled : ¬ l.text.rest.isEmpty = true := by
    intro empty
    rw [List.isEmpty_iff.1 empty] at longer
    cases longer
  refine ⟨{ l with
    text := ⟨rest, loc'⟩, depth := bracketsAfter l.depth kind, tokens := ⟨kind, loc⟩ :: l.tokens },
    ⟨?_, rfl, rfl⟩, here.fresh, rfl⟩
  rw [Layout.run, if_neg filled, step, within]
  exact if_pos longer

end Layout.At

/-! ### Texts of several tokens -/

-- Before a separator or a closing bracket the text makes up tokens of these kinds.
def Reads (text : List Char) (kinds : List TokenKind) : Prop :=
  ∀ (l : Layout) (rest : List Char), Ends rest → l.At (text ++ rest) →
    ∃ l', l.Passes l' kinds ∧ l'.At rest

-- A symbol of one character that starts no longer symbol.
structure Mark (c : Char) (s : Symbol) : Prop where
  starts : StartsToken c
  scanned : ∀ rest loc, scanToken ⟨c :: rest, loc⟩ = .ok (.symbol s, ⟨rest, loc.after c⟩)

-- These characters are tokens whatever comes next.
theorem Mark.of {c : Char} {s : Symbol}
    (known : (c, s) ∈ [('(', .lparen), (')', .rparen), ('[', .lbracket), (']', .rbracket),
      ('\x7b', .lbrace), ('\x7d', .rbrace), (',', .comma), (':', .colon)]) : Mark c s := by
  simp only [List.mem_cons, Prod.mk.injEq, List.not_mem_nil, or_false] at known
  rcases known with ⟨rfl, rfl⟩ | ⟨rfl, rfl⟩ | ⟨rfl, rfl⟩ | ⟨rfl, rfl⟩ | ⟨rfl, rfl⟩ | ⟨rfl, rfl⟩ |
    ⟨rfl, rfl⟩ | ⟨rfl, rfl⟩ <;> exact ⟨by constructor <;> decide, fun _ _ => rfl⟩

theorem Mark.pass {c : Char} {s : Symbol} (mark : Mark c s) {l : Layout} {cs : List Char}
    (here : l.At (c :: cs)) :
    ∃ l', l.Passes l' [.symbol s] ∧ l'.fresh = false ∧ l'.text.rest = cs :=
  here.pass mark.starts (fun loc => ⟨_, mark.scanned cs loc⟩) (Nat.le_refl _)

namespace Reads

variable {text text' : List Char} {ks ks' : List TokenKind} {c d : Char} {s t : Symbol}

theorem nil : Reads [] [] := fun l _ _ here => ⟨l, .refl l, here⟩

-- A text of one token.
theorem single {kind : TokenKind} (starts : StartsToken c)
    (token : ∀ rest, Ends rest → ∀ loc, ∃ loc',
      scanToken ⟨c :: text ++ rest, loc⟩ = .ok (kind, ⟨rest, loc'⟩)) : Reads (c :: text) [kind] := by
  intro l rest ends here
  obtain ⟨l', passes, fresh, left⟩ := here.pass starts (token rest ends) (by simp)
  exact ⟨l', passes, fresh, .inl left⟩

theorem cons_mark (mark : Mark c s) (h : Reads text ks) : Reads (c :: text) (.symbol s :: ks) := by
  intro l rest ends here
  obtain ⟨l₁, passes₁, fresh, left⟩ := mark.pass here
  obtain ⟨l', passes, here'⟩ := h l₁ rest ends ⟨fresh, .inl left⟩
  exact ⟨l', passes₁.trans passes, here'⟩

theorem concat_mark (mark : Mark c s) (closes : Ends [c]) (h : Reads text ks) :
    Reads (text ++ [c]) (ks ++ [.symbol s]) := by
  intro l rest ends here
  rw [List.append_assoc] at here
  obtain ⟨l₁, passes₁, here₁⟩ := h l (c :: rest) closes here
  obtain ⟨l', passes, fresh, left⟩ := mark.pass here₁
  exact ⟨l', passes₁.trans passes, fresh, .inl left⟩

-- Two texts with a separator and a blank between them.
theorem separated (mark : Mark c s) (closes : Ends [c]) (h : Reads text ks)
    (h' : Reads text' ks') : Reads (text ++ c :: ' ' :: text') (ks ++ .symbol s :: ks') := by
  intro l rest ends here
  rw [List.append_assoc] at here
  obtain ⟨l₁, passes₁, here₁⟩ := h l (c :: ' ' :: (text' ++ rest)) closes here
  obtain ⟨l₂, passes₂, fresh, left⟩ := mark.pass here₁
  obtain ⟨l', passes, here'⟩ := h' l₂ rest ends ⟨fresh, .inr left⟩
  exact ⟨l', passes₁.trans (passes₂.trans passes), here'⟩

theorem bracketed (opens : Mark c s) (closes : Mark d t) (ends : Ends [d]) (h : Reads text ks) :
    Reads (c :: text ++ [d]) (.symbol s :: ks ++ [.symbol t]) :=
  concat_mark closes ends (cons_mark opens h)

theorem round (h : Reads text ks) :
    Reads ('(' :: text ++ [')']) (.symbol .lparen :: ks ++ [.symbol .rparen]) :=
  bracketed (.of (by simp)) (.of (by simp)) (by simp [Ends]) h

theorem square (h : Reads text ks) :
    Reads ('[' :: text ++ [']']) (.symbol .lbracket :: ks ++ [.symbol .rbracket]) :=
  bracketed (.of (by simp)) (.of (by simp)) (by simp [Ends]) h

theorem curly (h : Reads text ks) :
    Reads ('\x7b' :: text ++ ['\x7d']) (.symbol .lbrace :: ks ++ [.symbol .rbrace]) :=
  bracketed (.of (by simp)) (.of (by simp)) (by simp [Ends]) h

theorem comma : Mark ',' .comma := .of (by simp)

theorem intercalate {texts : List String} {kss : List (List TokenKind)}
    (h : List.Forall₂ (fun text ks => Reads text.toList ks) texts kss) :
    Reads (", ".intercalate texts).toList ([.symbol .comma].intercalate kss) := by
  induction h with
  | nil => exact nil
  | cons first others ih =>
    cases others with
    | nil => simpa [List.intercalate] using first
    | cons second others =>
      have joined := separated comma (by simp [Ends]) first ih
      simpa [String.intercalate_cons_cons, List.intercalate] using joined

/-! ### Texts of one token -/

theorem keyword {k : Keyword} (starts : StartsToken c) (letter : Text.isLetter c = true)
    (letters : (c :: text).all Text.isLetterOrDigit = true) (quote : c ≠ '"' ∧ c ≠ '\'')
    (number : c.isDigit = false ∧ c ≠ '.') (kind : wordToken (String.ofList (c :: text)) = .keyword k) :
    Reads (c :: text) [.keyword k] := by
  refine single starts fun rest ends loc => ?_
  obtain ⟨loc', read⟩ := scanWord_of_ends
    (fun d hd => by rw [List.all_eq_true.1 letters d hd, Bool.true_or]) ends loc
  exact ⟨loc', by rw [List.cons_append, scanToken_of_letter letter quote number, ← List.cons_append,
    read, kind]⟩

theorem number {n : Nat} {w : Int64} (value : Number.ofInt? n = some w) :
    Reads (Nat.toDigits 10 n) [.int w] := by
  have all : ∀ c ∈ Nat.toDigits 10 n, c.isDigit = true := fun c hc =>
    Nat.isDigit_of_mem_toDigits (by decide) (by decide) hc
  have read := (readWord?_digits all (Number.digits?_toDigits n)).trans value
  cases digits : Nat.toDigits 10 n with
  | nil => exact absurd digits Nat.toDigits_ne_nil
  | cons c digits' =>
    rw [digits] at all read
    exact .single (startsToken_of_isDigit (all c List.mem_cons_self)) fun rest ends loc =>
      scanToken_digits all ends read loc

theorem quoted (s : String) : Reads (Text.quoted s).toList [.str s] := by
  have isQuote := isQuote_quoteFor s.toList
  have starts : StartsToken (Text.quoteFor s.toList) := by
    rcases isQuote with same | same <;> rw [same] <;> constructor <;> decide
  rw [Text.quoted, String.toList_ofList]
  refine .single starts fun rest ends loc => ?_
  obtain ⟨loc', read⟩ := scanToken_quoted isQuote s.toList ends loc
  refine ⟨loc', ?_⟩
  rw [String.ofList_toList] at read
  simpa using read

-- No digit makes a longer symbol of a minus sign.
theorem minus {n : Nat} (h : Reads (Nat.toDigits 10 n) ks) :
    Reads ('-' :: Nat.toDigits 10 n) (.symbol .minus :: ks) := by
  intro l rest ends here
  have token : ∀ loc, ∃ loc', scanToken ⟨'-' :: (Nat.toDigits 10 n ++ rest), loc⟩ =
      .ok (.symbol .minus, ⟨Nat.toDigits 10 n ++ rest, loc'⟩) := by
    intro loc
    cases digits : Nat.toDigits 10 n with
    | nil => exact absurd digits Nat.toDigits_ne_nil
    | cons c ds =>
      have digit : c.isDigit = true :=
        Nat.isDigit_of_mem_toDigits (b := 10) (n := n) (by decide) (by decide)
          (digits ▸ List.mem_cons_self)
      have longer : ∀ d : Char, d.isDigit = false → d ≠ c := by
        rintro d other rfl
        rw [digit] at other
        cases other
      have symbol : symbolAt? ('-' :: (c :: ds ++ rest)) = some .minus := by
        simp [symbolAt?, Symbol.all, Symbol.text, List.isPrefixOf, longer '=' (by decide),
          longer '>' (by decide)]
      have plain : ('-'.isDigit || '-' == '.' && Option.any Char.isDigit (c :: ds ++ rest).head?) =
          false := rfl
      refine ⟨loc.after '-', ?_⟩
      rw [scanToken]
      dsimp only
      rw [if_neg (by decide), plain, if_neg Bool.false_ne_true, if_neg (by decide), symbol]
      rfl
  obtain ⟨l₁, passes₁, fresh, left⟩ := here.pass (by constructor <;> decide) token (Nat.le_refl _)
  obtain ⟨l', passes, here'⟩ := h l₁ rest ends ⟨fresh, .inl left⟩
  exact ⟨l', passes₁.trans passes, here'⟩

theorem int {n : Int64} (other : n ≠ Int64.minValue) :
    Reads (toString n.toInt).toList
      (if n < 0 then [.symbol .minus, .int (-n)] else [.int n]) := by
  rw [Int.toString_eq_repr, Int.repr_eq_if]
  have sign : n < 0 ↔ ¬ 0 ≤ n.toInt := by rw [Int64.lt_iff_toInt_lt, Int64.toInt_zero, Int.not_le]
  by_cases positive : 0 ≤ n.toInt
  · rw [if_pos positive, if_neg (fun negative => sign.1 negative positive), Nat.toList_repr]
    exact number (Number.ofInt?_eq_some_iff.2 (Int.toNat_of_nonneg positive).symm)
  · have least : n.toInt ≠ Int64.minValue.toInt := fun same => other (Int64.toInt_inj.1 same)
    have bounds := Number.fits_toInt n
    have value : (-n).toInt = ((-n.toInt).toNat : Int) := by
      rw [Int64.toInt_minValue] at least
      rw [Number.FitsWord] at bounds
      rw [Int64.toInt_neg, Int.bmod_eq_of_le (by omega) (by omega)]
      omega
    rw [if_neg positive, if_pos (sign.2 positive), String.toList_append, Nat.toList_repr]
    exact minus (number (Number.ofInt?_eq_some_iff.2 value))

end Reads

/-! ### Literals -/

namespace Literal

mutual

def kinds : Literal → List TokenKind
  | none => [.keyword .none]
  | bool b => [.keyword (if b then .true else .false)]
  | int n => if n < 0 then [.symbol .minus, .int (-n)] else [.int n]
  | str s => [.str s]
  | list items =>
    .symbol .lbracket :: [.symbol .comma].intercalate (kindsAll items) ++ [.symbol .rbracket]
  | tuple [item] => .symbol .lparen :: (item.kinds ++ [.symbol .comma]) ++ [.symbol .rparen]
  | tuple items =>
    .symbol .lparen :: [.symbol .comma].intercalate (kindsAll items) ++ [.symbol .rparen]
  | dict entries =>
    .symbol .lbrace :: [.symbol .comma].intercalate (kindsEntries entries) ++ [.symbol .rbrace]
  | set items =>
    .symbol .lbrace :: [.symbol .comma].intercalate (kindsAll items) ++ [.symbol .rbrace]

def kindsAll : List Literal → List (List TokenKind)
  | [] => []
  | l :: rest => l.kinds :: kindsAll rest

def kindsEntries : List (Literal × Literal) → List (List TokenKind)
  | [] => []
  | (k, v) :: rest => (k.kinds ++ .symbol .colon :: v.kinds) :: kindsEntries rest

end

end Literal

namespace Heap.Spells

variable {h : Heap} {v : Value} {l : Literal}

theorem reads_all {items : List Literal}
    (reads : ∀ l ∈ items, Reads l.text.toList l.kinds) :
    Reads (", ".intercalate (Literal.textAll items)).toList
      ([.symbol .comma].intercalate (Literal.kindsAll items)) := by
  refine .intercalate ?_
  induction items with
  | nil => exact .nil
  | cons l rest ih =>
    obtain ⟨first, others⟩ := List.forall_mem_cons.1 reads
    exact .cons first (ih others)

theorem reads_entries {entries : List (Literal × Literal)}
    (reads : ∀ e ∈ entries, Reads e.1.text.toList e.1.kinds ∧ Reads e.2.text.toList e.2.kinds) :
    Reads (", ".intercalate (Literal.textEntries entries)).toList
      ([.symbol .comma].intercalate (Literal.kindsEntries entries)) := by
  refine .intercalate ?_
  induction entries with
  | nil => exact .nil
  | cons e rest ih =>
    obtain ⟨⟨key, value⟩, others⟩ := List.forall_mem_cons.1 reads
    refine .cons ?_ (ih others)
    have entry := Reads.separated (c := ':') (s := .colon) (.of (by simp)) (by simp [Ends]) key value
    simpa using entry

theorem reads_tuple {items : List Literal} (reads : ∀ l ∈ items, Reads l.text.toList l.kinds) :
    Reads (Literal.tuple items).text.toList (Literal.tuple items).kinds := by
  match items with
  | [] => exact .round .nil
  | [l] =>
    have single := Reads.concat_mark Reads.comma (by simp [Ends]) (reads l List.mem_cons_self)
    simpa [Literal.text, Literal.kinds] using single.round
  | l :: l' :: rest => simpa [Literal.text, Literal.kinds] using (reads_all reads).round

-- The text of a literal is taken apart into its tokens.
theorem reads (spells : h.Spells v l) : Reads l.text.toList l.kinds := by
  induction l generalizing v with
  | none =>
    exact .keyword (by constructor <;> decide) rfl rfl (by decide) (by decide) rfl
  | bool b =>
    cases b <;>
      exact .keyword (by constructor <;> decide) rfl rfl (by decide) (by decide) rfl
  | int n =>
    cases spells with
    | int other => exact .int other
  | str s => exact .quoted s
  | list items ih =>
    have inside : ∀ l ∈ items, Reads l.text.toList l.kinds := fun l hl =>
      (spells.of_part l hl).elim fun _ => ih l hl
    simpa [Literal.text, Literal.kinds] using (reads_all inside).square
  | tuple items ih => exact reads_tuple fun l hl => (spells.of_part l hl).elim fun _ => ih l hl
  | dict entries ih =>
    have inside : ∀ e ∈ entries,
        Reads e.1.text.toList e.1.kinds ∧ Reads e.2.text.toList e.2.kinds := by
      intro e he
      constructor
      · exact (spells.of_part e.1 (List.mem_flatMap.2 ⟨e, he, by simp⟩)).elim fun _ => (ih e he).1
      · exact (spells.of_part e.2 (List.mem_flatMap.2 ⟨e, he, by simp⟩)).elim fun _ => (ih e he).2
    simpa [Literal.text, Literal.kinds] using (reads_entries inside).curly
  | set items ih =>
    have inside : ∀ l ∈ items, Reads l.text.toList l.kinds := fun l hl =>
      (spells.of_part l hl).elim fun _ => ih l hl
    simpa [Literal.text, Literal.kinds] using (reads_all inside).curly

end Heap.Spells

/-! ### The line that binds a name to a literal -/

theorem Literal.kinds_eq_concat (l : Literal) : ∃ ks k, l.kinds = ks ++ [k] ∧ k ≠ .newline := by
  cases l with
  | int n =>
    rw [kinds]
    split
    · exact ⟨[_], _, rfl, nofun⟩
    · exact ⟨[], _, rfl, nofun⟩
  | tuple items =>
    match items with
    | [] | [_] | _ :: _ :: _ => exact ⟨_, _, rfl, nofun⟩
  | list | dict | set => exact ⟨_, _, rfl, nofun⟩
  | _ => exact ⟨[], _, rfl, nofun⟩

theorem run_of_nil {l : Layout} (empty : l.text.rest = []) : l.run = .ok l.close := by
  rw [Layout.run, empty]
  rfl

-- The text ends in the middle of a line, and no block is open.
theorem Layout.At.finish {l : Layout} (here : l.At []) (widths : l.widths = [0])
    {ks : List TokenKind}
    {k : TokenKind} (kinds : l.tokens.map Token.kind = (ks ++ [k]).reverse) (other : k ≠ .newline) :
    ∃ ts, l.run = .ok ts ∧ ts.map Token.kind = ks ++ [k, .newline, .eof] := by
  have closed : ∀ l' : Layout, l'.tokens = l.tokens → l'.widths = l.widths →
      l'.close.map Token.kind = ks ++ [k, .newline, .eof] := by
    intro l' tokens width
    rw [List.reverse_append, List.reverse_singleton, List.singleton_append] at kinds
    obtain ⟨t, ts, split, rfl, before⟩ := List.map_eq_cons_iff.1 kinds
    have reversed := congrArg List.reverse before
    rw [List.reverse_reverse, ← List.map_reverse] at reversed
    rw [Layout.close, tokens, width, widths, split]
    dsimp only
    split
    · next same => exact absurd same other
    · simp [reversed]
  rcases here.text with text | text
  · exact ⟨l.close, run_of_nil text, closed l rfl rfl⟩
  · refine ⟨Layout.close { l with text := ⟨[], l.text.loc.after ' '⟩ }, ?_, closed _ rfl rfl⟩
    have within : l.within = .ok { l with text := ⟨[], l.text.loc.after ' '⟩ } := by
      rw [Layout.within, text, skipInline_blank]
      rfl
    have step : l.step = l.within := if_neg (by rw [here.fresh]; exact Bool.false_ne_true)
    rw [Layout.run, step, within, text]
    exact run_of_nil rfl

-- A line that starts at the margin starts and ends no block.
theorem run_margin {c : Char} (starts : StartsToken c) (cs : List Char) (loc : Location) :
    Layout.run ⟨⟨c :: cs, loc⟩, [0], 0, true, []⟩ =
      Layout.run ⟨⟨c :: cs, loc⟩, [0], 0, false, []⟩ := by
  obtain ⟨blank, feed, slash, ret, line, hash⟩ := starts
  have step : Layout.step ⟨⟨c :: cs, loc⟩, [0], 0, true, []⟩ =
      Layout.step ⟨⟨c :: cs, loc⟩, [0], 0, false, []⟩ := by
    have margin : (c :: cs).takeWhile isIndentChar = [] := by
      rw [List.takeWhile_cons, blank]
      rfl
    simp only [Layout.step, margin, List.length_nil, Scanner.skip_zero, if_true]
    split
    · next same => cases same
    · next same => exact absurd (List.cons.inj same).1 line
    · next same => exact absurd (List.cons.inj same).1 ret
    · next same => exact absurd (List.cons.inj same).1 hash
    · rfl
  rw [Layout.run.eq_def, Layout.run.eq_def ⟨_, _, _, false, _⟩, step]
  rfl

theorem Heap.Spells.tokens_assignment {h : Heap} {v : Value} {l : Literal} (spells : h.Spells v l) :
    ∃ ts, tokens ("x = " ++ l.text) = .ok ts ∧
      ts.map Token.kind = .ident "x" :: .symbol .eq :: l.kinds ++ [.newline, .eof] := by
  obtain ⟨ks, k, kinds, other⟩ := l.kinds_eq_concat
  have text : ("x = " ++ l.text).toList = 'x' :: ' ' :: '=' :: ' ' :: l.text.toList := by simp
  rw [tokens, tokensAt, text, run_margin (by constructor <;> decide)]
  have here : Layout.At ⟨⟨'x' :: ' ' :: '=' :: ' ' :: l.text.toList, ⟨1, 1⟩⟩, [0], 0, false, []⟩
      ('x' :: ' ' :: '=' :: ' ' :: l.text.toList) := ⟨rfl, .inl rfl⟩
  have name : ∀ loc, scanToken ⟨'x' :: ' ' :: '=' :: ' ' :: l.text.toList, loc⟩ =
      .ok (.ident "x", ⟨' ' :: '=' :: ' ' :: l.text.toList, loc.after 'x'⟩) := fun _ => rfl
  have sign : ∀ loc, scanToken ⟨'=' :: ' ' :: l.text.toList, loc⟩ =
      .ok (.symbol .eq, ⟨' ' :: l.text.toList, loc.after '='⟩) := fun _ => rfl
  obtain ⟨l₁, passes₁, fresh₁, left₁⟩ :=
    here.pass (by constructor <;> decide) (fun loc => ⟨_, name loc⟩) (Nat.le_refl _)
  obtain ⟨l₂, passes₂, fresh₂, left₂⟩ := Layout.At.pass ⟨fresh₁, .inr left₁⟩
    (by constructor <;> decide) (fun loc => ⟨_, sign loc⟩) (Nat.le_refl _)
  obtain ⟨l₃, passes₃, here₃⟩ := spells.reads l₂ [] trivial
    ⟨fresh₂, .inr (by rw [left₂, List.append_nil])⟩
  have passes := passes₁.trans (passes₂.trans passes₃)
  have kinds₃ : l₃.tokens.map Token.kind = (.ident "x" :: .symbol .eq :: ks ++ [k]).reverse := by
    rw [passes.kinds, kinds]
    simp
  obtain ⟨ts, run, all⟩ := here₃.finish passes.widths kinds₃ other
  refine ⟨ts, passes.run.trans run, ?_⟩
  rw [all, kinds]
  simp

end StepTrace
