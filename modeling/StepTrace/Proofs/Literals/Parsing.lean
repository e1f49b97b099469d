import StepTrace.Grammar.Statement
import StepTrace.Proofs.Literals.Reading

/-!
Reading literals from tokens: they come out of the grammar of expressions as they went in, if there
is room for their levels.
-/

set_option autoImplicit false

namespace StepTrace

open Parse

/-! ### Readers at a cursor -/

-- The tokens that are left have these kinds.
def Cursor.Holds (c : Cursor) (ks : List TokenKind) : Prop := c.rest.map Token.kind = ks

namespace Cursor.Holds

variable {c : Cursor} {k : TokenKind} {ks : List TokenKind}

theorem peek (h : c.Holds (k :: ks)) : c.peek.kind = k := by
  obtain ⟨t, ts, rest, same, -⟩ := List.map_eq_cons_iff.1 h
  rw [Cursor.peek, rest]
  exact same

theorem advance (h : c.Holds (k :: ks)) (more : k ≠ .eof) : c.advance.Holds ks := by
  obtain ⟨t, ts, rest, same, others⟩ := List.map_eq_cons_iff.1 h
  rw [Cursor.advance, rest]
  dsimp only
  split
  · next last => exact absurd (same.symm.trans last) more
  · exact others

theorem symbol {s : Symbol} (h : c.Holds (.symbol s :: ks)) : c.advance.Holds ks :=
  h.advance nofun

end Cursor.Holds

def TokenKind.isSymbol (s : Symbol) : TokenKind → Bool
  | .symbol t => t == s
  | _ => false

def TokenKind.isKeyword (w : Keyword) : TokenKind → Bool
  | .keyword t => t == w
  | _ => false

namespace Parse

variable {α β : Type} {p : Parse α} {f : α → Parse β} {c c' : Cursor} {a : α}

theorem bind_ok (h : p c = .ok (a, c')) : (p >>= f) c = f a c' := by
  change (p c).bind (fun r => f r.1 r.2) = _
  rw [h]
  rfl

theorem advance_eq (c : Cursor) : advance c = .ok ((), c.advance) := rfl

theorem here_eq (c : Cursor) : here c = .ok (c.peek.loc, c) := rfl

theorem peek_of {k : TokenKind} {ks : List TokenKind} (h : c.Holds (k :: ks)) :
    peek c = .ok (⟨k, c.peek.loc⟩, c) := by
  rw [← h.peek]
  rfl

theorem isSymbol_eq (s : Symbol) (c : Cursor) :
    isSymbol s c = .ok (c.peek.kind.isSymbol s, c) := by
  refine (bind_ok (p := kind) (c := c) rfl).trans ?_
  cases c.peek.kind <;> rfl

theorem isKeyword_eq (w : Keyword) (c : Cursor) :
    isKeyword w c = .ok (c.peek.kind.isKeyword w, c) := by
  refine (bind_ok (p := kind) (c := c) rfl).trans ?_
  cases c.peek.kind <;> rfl

theorem passIf_of_true {test : Parse Bool} (h : test c = .ok (true, c')) :
    passIf test c = .ok (true, c'.advance) := (bind_ok h).trans rfl

theorem passIf_of_false {test : Parse Bool} (h : test c = .ok (false, c')) :
    passIf test c = .ok (false, c') := (bind_ok h).trans rfl

theorem accept_of {s : Symbol} {k : TokenKind} {ks : List TokenKind} (h : c.Holds (k :: ks))
    (same : k.isSymbol s = true) : accept s c = .ok (true, c.advance) :=
  passIf_of_true (by rw [isSymbol_eq, h.peek, same])

theorem accept_of_other {s : Symbol} {k : TokenKind} {ks : List TokenKind} (h : c.Holds (k :: ks))
    (other : k.isSymbol s = false) : accept s c = .ok (false, c) :=
  passIf_of_false (by rw [isSymbol_eq, h.peek, other])

theorem acceptWord_of_other {w : Keyword} {k : TokenKind} {ks : List TokenKind}
    (h : c.Holds (k :: ks)) (other : k.isKeyword w = false) : acceptWord w c = .ok (false, c) :=
  passIf_of_false (by rw [isKeyword_eq, h.peek, other])

theorem expect_of {s : Symbol} {k : TokenKind} {ks : List TokenKind} (h : c.Holds (k :: ks))
    (same : k.isSymbol s = true) : expect s c = .ok ((), c.advance) :=
  (bind_ok (accept_of h same)).trans rfl

theorem collect_of_none {step : List α → Parse (Option α)} {done : List α}
    (h : step done c = .ok (none, c')) : collect step done c = .ok (done.reverse, c') := by
  rw [collect, h]

theorem collect_of_some {step : List α → Parse (Option α)} {done : List α}
    (h : step done c = .ok (some a, c')) (shorter : c'.rest.length < c.rest.length) :
    collect step done c = collect step (a :: done) c' := by
  rw [collect, h]
  exact if_pos shorter

theorem many_of_none {step : List α → Parse (Option α)} {first : List α}
    (h : step first.reverse c = .ok (none, c')) : many step first c = .ok (first, c') := by
  rw [many, collect_of_none h, List.reverse_reverse]

theorem many_of_some {step : List α → Parse (Option α)} (h : step [] c = .ok (some a, c'))
    (shorter : c'.rest.length < c.rest.length) (ends : step [a] c' = .ok (none, c')) :
    many step [] c = .ok ([a], c') := by
  rw [many, List.reverse_nil, collect_of_some h shorter, collect_of_none ends]
  rfl

end Parse

/-! ### Tokens around expressions -/

-- After a token of this kind no expression goes on.
inductive TokenKind.Closes : TokenKind → Prop
  | comma : Closes (.symbol .comma)
  | colon : Closes (.symbol .colon)
  | eq : Closes (.symbol .eq)
  | rparen : Closes (.symbol .rparen)
  | rbracket : Closes (.symbol .rbracket)
  | rbrace : Closes (.symbol .rbrace)
  | newline : Closes .newline

-- With a token of this kind a literal starts.
inductive TokenKind.Starts : TokenKind → Prop
  | int (n : Int64) : Starts (.int n)
  | str (s : String) : Starts (.str s)
  | ident (name : String) : Starts (.ident name)
  | none : Starts (.keyword .none)
  | bool (b : Bool) : Starts (.keyword (if b then .true else .false))
  | lparen : Starts (.symbol .lparen)
  | lbracket : Starts (.symbol .lbracket)
  | lbrace : Starts (.symbol .lbrace)
  | minus : Starts (.symbol .minus)

-- The reader takes tokens of these kinds, if an expression ends there.
def Parse.Yields {α : Type} (p : Parse α) (ks : List TokenKind) (P : α → Prop) : Prop :=
  ∀ (c : Cursor) (k : TokenKind) (more : List TokenKind), k.Closes → c.Holds (ks ++ k :: more) →
    ∃ a c', p c = .ok (a, c') ∧ P a ∧ c'.Holds (k :: more)

theorem comparison?_of_closes {c : Cursor} {k : TokenKind} {more : List TokenKind}
    (closes : k.Closes) (h : c.Holds (k :: more)) : comparison? c = .ok (none, c) := by
  have kinds : (c.rest.take 2).map Token.kind = k :: more.take 1 := by
    rw [List.map_take, h]
    rfl
  refine (bind_ok (p := get) (c := c) rfl).trans ?_
  rw [kinds]
  cases closes <;> rfl

namespace Parse.Yields

variable {α β : Type} {P : Expr → Prop} {ks : List TokenKind} {k₀ : TokenKind} {inner : Inner}
  {room : Nat}

theorem chained {ops : TokenKind → Option α} {node : Location → α → Expr → Expr → Expr}
    {operand : Nat → Parse Expr} (none : ∀ k, k.Closes → ops k = none)
    (h : (operand room).Yields ks P) : (StepTrace.chained ops node operand room).Yields ks P := by
  intro c k more closes holds
  obtain ⟨e, c', read, he, holds'⟩ := h c k more closes holds
  refine ⟨e, c', (bind_ok read).trans ?_, he, holds'⟩
  have ends : ∀ next, chainLink ops e next c' = .ok (e, c') := by
    intro next
    refine (bind_ok (p := kind) (c := c') rfl).trans ?_
    rw [holds'.peek, none k closes]
    rfl
  cases room <;> exact ends _

theorem bitwiseOr {operand : Nat → Parse Expr} (h : (operand room).Yields ks P) :
    (StepTrace.bitwiseOr operand room).Yields ks P := by
  refine chained ?_ (chained ?_ (chained ?_ (chained ?_ (chained ?_ (chained ?_ h)))))
  all_goals rintro _ (_ | _ | _ | _ | _ | _ | _) <;> rfl

theorem comparison {operand : Parse Expr} (h : operand.Yields ks P) :
    (StepTrace.comparison operand).Yields ks P := by
  intro c k more closes holds
  obtain ⟨e, c', read, he, holds'⟩ := h c k more closes holds
  refine ⟨e, c', (bind_ok (here_eq c)).trans ((bind_ok read).trans ?_), he, holds'⟩
  exact (bind_ok (many_of_none
    ((bind_ok (comparison?_of_closes closes holds')).trans rfl))).trans rfl

theorem orTest {operand : Nat → Parse Expr} (starts : k₀.Starts)
    (h : (operand room).Yields (k₀ :: ks) P) :
    (StepTrace.orTest operand room).Yields (k₀ :: ks) P := by
  refine chained ?_ (chained ?_ fun c k more closes holds => ?_)
  · rintro _ (_ | _ | _ | _ | _ | _ | _) <;> rfl
  · rintro _ (_ | _ | _ | _ | _ | _ | _) <;> rfl
  · obtain ⟨e, c', read, he, holds'⟩ := comparison (bitwiseOr h) c k more closes holds
    refine ⟨e, c', ?_, he, holds'⟩
    have positive : acceptWord .not c = .ok (false, c) :=
      acceptWord_of_other holds (by cases starts with | bool b => cases b <;> rfl | _ => rfl)
    cases room <;> exact (bind_ok positive).trans read

theorem test {operand : Nat → Parse Expr} (starts : k₀.Starts)
    (h : (operand room).Yields (k₀ :: ks) P) :
    (StepTrace.test inner operand room).Yields (k₀ :: ks) P := by
  intro c k more closes holds
  obtain ⟨e, c', read, he, holds'⟩ := orTest starts h c k more closes holds
  have plain : StepTrace.Parse.isKeyword .lambda c = .ok (false, c) := by
    rw [isKeyword_eq, holds.peek]
    cases starts with
    | bool b => cases b <;> rfl
    | _ => rfl
  have ends : acceptWord .if c' = .ok (false, c') :=
    acceptWord_of_other holds' (by cases closes <;> rfl)
  refine ⟨e, c', (bind_ok plain).trans ?_, he, holds'⟩
  exact (bind_ok (here_eq c)).trans
    ((bind_ok read).trans ((bind_ok ends).trans rfl))

theorem postfixExpr (h : (primary inner room).Yields ks P) :
    (StepTrace.postfixExpr inner room).Yields ks P := by
  intro c k more closes holds
  obtain ⟨e, c', read, he, holds'⟩ := h c k more closes holds
  refine ⟨e, c', (bind_ok read).trans ?_, he, holds'⟩
  have ends : ∀ next, suffixLink e next c' = .ok (e, c') := by
    intro next
    exact (bind_ok (peek_of holds')).trans (by cases closes <;> rfl)
  cases room <;> exact ends _

theorem unary {postfixAt : Nat → Parse Expr} (plain : unaryOp? k₀ = none)
    (h : (postfixAt room).Yields (k₀ :: ks) P) :
    (StepTrace.unary postfixAt room).Yields (k₀ :: ks) P := by
  intro c k more closes holds
  obtain ⟨e, c', read, he, holds'⟩ := h c k more closes holds
  refine ⟨e, c', ?_, he, holds'⟩
  have ends : accept .doubleStar c' = .ok (false, c') :=
    accept_of_other holds' (by cases closes <;> rfl)
  have within : ∀ operand, unaryWith (postfixAt room) operand c = .ok (e, c') := by
    intro operand
    refine (bind_ok (peek_of holds)).trans ?_
    dsimp only
    rw [plain]
    exact (bind_ok read).trans ((bind_ok ends).trans rfl)
  cases room <;> exact within _

-- An expression without operators of its own takes one level of room.
theorem expression {field : String → Location → Except SyntaxError Expr} {levels : Nat}
    (starts : k₀.Starts) (plain : unaryOp? k₀ = none)
    (h : (primary (readers field levels) room).Yields (k₀ :: ks) P) :
    ((readers field (levels + 1)).expression (room + 1)).Yields (k₀ :: ks) P :=
  test starts (unary plain (postfixExpr h))

/-! ### Literals of one token -/

theorem int (n : Int64) : (primary inner room).Yields [.int n] fun e => ∃ loc, e = .int loc n := by
  intro c k more closes holds
  exact ⟨.int c.peek.loc n, c.advance, (bind_ok (peek_of holds)).trans rfl, ⟨_, rfl⟩,
    holds.advance nofun⟩

theorem str (s : String) : (primary inner room).Yields [.str s] fun e => ∃ loc, e = .str loc s := by
  intro c k more closes holds
  have after : c.advance.Holds (k :: more) := holds.advance nofun
  refine ⟨.str c.peek.loc s, c.advance, (bind_ok (peek_of holds)).trans ?_, ⟨_, rfl⟩, after⟩
  have shorter : c.advance.rest.length < c.rest.length := by
    have before := congrArg List.length holds
    have left := congrArg List.length after
    simp only [List.length_map, List.length_append, List.length_cons] at before left
    omega
  change stringAtom inner c = _
  refine (bind_ok (here_eq c)).trans ((bind_ok (many_of_some
    ((bind_ok (peek_of holds)).trans rfl) shorter ((bind_ok (peek_of after)).trans ?_))).trans ?_)
  · cases closes <;> rfl
  · simp [String.join, pure, StateT.pure, Except.pure]

theorem none : (primary inner room).Yields [.keyword .none] fun e => ∃ loc, e = .none loc := by
  intro c k more closes holds
  exact ⟨.none c.peek.loc, c.advance, (bind_ok (peek_of holds)).trans rfl, ⟨_, rfl⟩,
    holds.advance nofun⟩

theorem bool (b : Bool) : (primary inner room).Yields [.keyword (if b then .true else .false)]
    fun e => ∃ loc, e = .bool loc b := by
  intro c k more closes holds
  refine ⟨.bool c.peek.loc b, c.advance, (bind_ok (peek_of holds)).trans ?_, ⟨_, rfl⟩,
    holds.advance nofun⟩
  cases b <;> rfl

-- A sign takes one more level.
theorem negative {field : String → Location → Except SyntaxError Expr} {levels : Nat} (n : Int64) :
    ((readers field (levels + 1)).expression (room + 2)).Yields [.symbol .minus, .int n] fun e =>
      ∃ loc, e = .int loc (-n) := by
  refine test .minus fun c k more closes holds => ?_
  have number : (StepTrace.unary (StepTrace.postfixExpr (readers field levels)) room).Yields
      [.int n] fun e => ∃ loc, e = .int loc n := unary rfl (postfixExpr (int n))
  obtain ⟨e, c', read, ⟨loc, rfl⟩, holds'⟩ :=
    number c.advance k more closes (holds.advance nofun)
  exact ⟨.int c.peek.loc (-n), c', (bind_ok (peek_of holds)).trans
    ((bind_ok (advance_eq c)).trans ((bind_ok read).trans rfl)), ⟨_, rfl⟩, holds'⟩

end Parse.Yields

/-! ### Items between commas -/

section

variable {α β : Type} {R : α → β → Prop} {kinds : β → List TokenKind} {item : Parse α}
  {close : Symbol} {c : Cursor} {more : List TokenKind}

-- What comes after the first item.
def commaKinds (kinds : β → List TokenKind) (bs : List β) : List TokenKind :=
  bs.flatMap fun b => .symbol .comma :: kinds b

theorem intercalate_kinds (kinds : β → List TokenKind) (b : β) (bs : List β) :
    [TokenKind.symbol .comma].intercalate ((b :: bs).map kinds) =
      kinds b ++ commaKinds kinds bs := by
  induction bs generalizing b with
  | nil => simp [List.intercalate, commaKinds]
  | cons b' bs ih =>
    have ih := ih b'
    rw [List.map_cons, List.map_cons, List.intercalate, List.intersperse_cons_cons]
    rw [List.map_cons, List.intercalate] at ih
    rw [List.flatten_cons, List.flatten_cons, ih]
    simp [commaKinds]

theorem closes_commaKinds (kinds : β → List TokenKind) (bs : List β) (more : List TokenKind)
    (closes : TokenKind.Closes (.symbol close)) :
    ∃ k ks, commaKinds kinds bs ++ .symbol close :: more = k :: ks ∧ k.Closes := by
  cases bs with
  | nil => exact ⟨_, _, rfl, closes⟩
  | cons b bs => exact ⟨_, _, rfl, .comma⟩

theorem Parse.collect_commas (closes : TokenKind.Closes (.symbol close)) (other : close ≠ .comma)
    {bs : List β} (yields : ∀ b ∈ bs, item.Yields (kinds b) (R · b))
    (starts : ∀ b ∈ bs, ∃ k ks, kinds b = k :: ks ∧ k.isSymbol close = false)
    (holds : c.Holds (commaKinds kinds bs ++ .symbol close :: more)) (done : List α) :
    ∃ as c', collect (fun _ => do
        if ← accept .comma then
          if ← isSymbol close then return none
          return some (← item)
        return none) done c = .ok (done.reverse ++ as, c') ∧
      List.Forall₂ R as bs ∧ c'.Holds (.symbol close :: more) := by
  induction bs generalizing c done with
  | nil =>
    have ends : accept .comma c = .ok (false, c) :=
      accept_of_other holds (by simpa [TokenKind.isSymbol] using other)
    refine ⟨[], c, ?_, .nil, holds⟩
    rw [List.append_nil]
    exact collect_of_none ((bind_ok ends).trans rfl)
  | cons b bs ih =>
    obtain ⟨yields₁, yields⟩ := List.forall_mem_cons.1 yields
    obtain ⟨⟨k, ks, head, plain⟩, starts⟩ := List.forall_mem_cons.1 starts
    obtain ⟨k', ks', tail, closes'⟩ := closes_commaKinds kinds bs more closes
    have comma : c.Holds (.symbol .comma :: (kinds b ++ k' :: ks')) := by
      rw [← tail]
      simpa [commaKinds] using holds
    have inside := comma.advance nofun
    obtain ⟨a, c₁, read, ha, holds₁⟩ := yields₁ _ k' ks' closes' inside
    have goes : isSymbol close c.advance = .ok (false, c.advance) := by
      rw [head] at inside
      rw [isSymbol_eq, inside.peek, plain]
    have shorter : c₁.rest.length < c.rest.length := by
      have before := congrArg List.length comma
      have after := congrArg List.length holds₁
      simp only [List.length_map, List.length_append, List.length_cons] at before after
      omega
    rw [← tail] at holds₁
    obtain ⟨as, c', others, has, holds'⟩ := ih yields starts holds₁ (a :: done)
    refine ⟨a :: as, c', ?_, .cons ha has, holds'⟩
    refine (collect_of_some ((bind_ok (accept_of comma rfl)).trans
      ((bind_ok goes).trans ((bind_ok read).trans rfl))) shorter).trans ?_
    rw [others, List.reverse_cons, List.append_assoc]
    rfl

theorem Parse.commaSeparated_of (closes : TokenKind.Closes (.symbol close)) (other : close ≠ .comma)
    {bs : List β} (yields : ∀ b ∈ bs, item.Yields (kinds b) (R · b))
    (starts : ∀ b ∈ bs, ∃ k ks, kinds b = k :: ks ∧ k.isSymbol close = false)
    (holds : c.Holds (commaKinds kinds bs ++ .symbol close :: more)) (first : α) :
    ∃ as c', commaSeparated (isSymbol close) (fun _ => item) [first] c = .ok (first :: as, c') ∧
      List.Forall₂ R as bs ∧ c'.Holds (.symbol close :: more) :=
  collect_commas closes other yields starts holds [first]

end

/-! ### Displays -/

-- The expression is how a program writes the literal.
inductive Expr.Writes : Expr → Literal → Prop
  | none (loc : Location) : Writes (.none loc) .none
  | bool (loc : Location) (b : Bool) : Writes (.bool loc b) (.bool b)
  | int (loc : Location) (n : Int64) : Writes (.int loc n) (.int n)
  | str (loc : Location) (s : String) : Writes (.str loc s) (.str s)
  | list (loc : Location) {es : List Expr} {items : List Literal}
    (inside : List.Forall₂ Writes es items) : Writes (.list loc es) (.list items)
  | tracked (loc : Location) {loc' : Location} {es : List Expr} {items : List Literal}
    (inside : List.Forall₂ Writes es items) : Writes (.tracked loc (.list loc' es)) (.list items)
  | tuple (loc : Location) {es : List Expr} {items : List Literal}
    (inside : List.Forall₂ Writes es items) : Writes (.tuple loc es) (.tuple items)
  | dict (loc : Location) {es : List (Expr × Expr)} {entries : List (Literal × Literal)}
    (keys : List.Forall₂ Writes (es.map Prod.fst) (entries.map Prod.fst))
    (values : List.Forall₂ Writes (es.map Prod.snd) (entries.map Prod.snd)) :
    Writes (.dict loc es) (.dict entries)
  | set (loc : Location) {es : List Expr} {items : List Literal}
    (inside : List.Forall₂ Writes es items) : Writes (.set loc es) (.set items)

namespace Literal

theorem kindsAll_eq_map (items : List Literal) : kindsAll items = items.map kinds :=
  eq_map_of_cons rfl (fun _ _ => rfl) items

theorem kindsEntries_eq_map (entries : List (Literal × Literal)) :
    kindsEntries entries = entries.map fun e => e.1.kinds ++ .symbol .colon :: e.2.kinds :=
  eq_map_of_cons rfl (fun _ _ => rfl) entries

theorem starts_kinds (l : Literal) : ∃ k ks, l.kinds = k :: ks ∧ k.Starts := by
  cases l with
  | none => exact ⟨_, _, rfl, .none⟩
  | bool b => exact ⟨_, _, rfl, .bool b⟩
  | int n =>
    rw [kinds]
    split
    · exact ⟨_, _, rfl, .minus⟩
    · exact ⟨_, _, rfl, .int n⟩
  | str s => exact ⟨_, _, rfl, .str s⟩
  | tuple items =>
    rcases items with _ | ⟨_, _ | ⟨_, _⟩⟩ <;> exact ⟨_, _, rfl, .lparen⟩
  | list => exact ⟨_, _, rfl, .lbracket⟩
  | dict | set => exact ⟨_, _, rfl, .lbrace⟩

theorem starts_other (l : Literal) {close : Symbol} (closes : TokenKind.Closes (.symbol close)) :
    ∃ k ks, l.kinds = k :: ks ∧ k.isSymbol close = false := by
  obtain ⟨k, ks, head, starts⟩ := l.starts_kinds
  refine ⟨k, ks, head, ?_⟩
  cases closes <;> cases starts <;> rfl

end Literal

namespace Parse.Yields

variable {inner : Inner} {room : Nat} {l : Literal}

theorem isKeyword_of_closes {w : Keyword} {c : Cursor} {k : TokenKind} {ks : List TokenKind}
    (closes : k.Closes) (holds : c.Holds (k :: ks)) :
    StepTrace.Parse.isKeyword w c = .ok (false, c) := by
  rw [isKeyword_eq, holds.peek]
  cases closes <;> rfl

theorem accept_close {close : Symbol} (closes : TokenKind.Closes (.symbol close)) {c : Cursor}
    {more : List TokenKind} (holds : c.Holds (l.kinds ++ more)) :
    accept close c = .ok (false, c) := by
  obtain ⟨k, ks, head, plain⟩ := l.starts_other closes
  rw [head] at holds
  exact accept_of_other holds plain

-- The first of several items, and those after it.
theorem items {close : Symbol} (closes : TokenKind.Closes (.symbol close)) (other : close ≠ .comma)
    {rest : List Literal} {c : Cursor} {more : List TokenKind}
    (yields : ∀ l' ∈ l :: rest, (inner.expression room).Yields l'.kinds (·.Writes l'))
    (holds : c.Holds ([.symbol .comma].intercalate (Literal.kindsAll (l :: rest)) ++
      .symbol close :: more)) :
    accept close c = .ok (false, c) ∧
    ∃ e c₁ k₁ ks₁, inner.expression room c = .ok (e, c₁) ∧ c₁.Holds (k₁ :: ks₁) ∧ k₁.Closes ∧
      k₁ = (if rest = [] then .symbol close else .symbol .comma) ∧
      ∃ es c', commaSeparated (isSymbol close) (fun _ => inner.expression room) [e] c₁ =
        .ok (e :: es, c') ∧ List.Forall₂ Expr.Writes (e :: es) (l :: rest) ∧
        c'.Holds (.symbol close :: more) := by
  obtain ⟨yields₁, yields⟩ := List.forall_mem_cons.1 yields
  rw [Literal.kindsAll_eq_map, intercalate_kinds, List.append_assoc] at holds
  have next : ∃ ks₁, commaKinds Literal.kinds rest ++ .symbol close :: more =
      (if rest = [] then .symbol close else .symbol .comma) :: ks₁ := by
    cases rest with
    | nil => exact ⟨_, rfl⟩
    | cons l rest => exact ⟨_, rfl⟩
  have closes₁ : TokenKind.Closes (if rest = [] then .symbol close else .symbol .comma) := by
    split
    · exact closes
    · exact .comma
  obtain ⟨ks₁, tail⟩ := next
  rw [tail] at holds
  obtain ⟨e, c₁, read, he, holds₁⟩ := yields₁ c _ ks₁ closes₁ holds
  obtain ⟨es, c', others, hes, holds'⟩ := commaSeparated_of closes other yields
    (fun l' _ => l'.starts_other closes) (tail ▸ holds₁) e
  exact ⟨accept_close closes holds, e, c₁, _, ks₁, read, holds₁, closes₁, rfl, es, c', others,
    .cons he hes, holds'⟩

theorem list {items : List Literal}
    (yields : ∀ l ∈ items, (inner.expression room).Yields l.kinds (·.Writes l)) :
    (primary inner room).Yields (Literal.list items).kinds (·.Writes (.list items)) := by
  intro c k more closes holds
  rw [Literal.kinds, List.append_assoc] at holds
  have opened := holds.symbol
  cases items with
  | nil =>
    exact ⟨.list c.peek.loc [], c.advance.advance, (bind_ok (peek_of holds)).trans
      ((bind_ok (advance_eq c)).trans ((bind_ok (accept_of opened rfl)).trans rfl)), .list _ .nil,
      opened.symbol⟩
  | cons l rest =>
    obtain ⟨filled, e, c₁, k₁, ks₁, first, holds₁, closes₁, -, es, c₂, others, hes, holds₂⟩ :=
      Yields.items .rbracket (by decide) yields opened
    exact ⟨.list c.peek.loc (e :: es), c₂.advance, (bind_ok (peek_of holds)).trans
      ((bind_ok (advance_eq c)).trans ((bind_ok filled).trans
        ((bind_ok first).trans ((bind_ok (isKeyword_of_closes closes₁ holds₁)).trans
          ((bind_ok others).trans ((bind_ok (expect_of holds₂ rfl)).trans rfl)))))), .list _ hes,
      holds₂.symbol⟩

theorem set {l : Literal} {rest : List Literal}
    (yields : ∀ l' ∈ l :: rest, (inner.expression room).Yields l'.kinds (·.Writes l')) :
    (primary inner room).Yields (Literal.set (l :: rest)).kinds (·.Writes (.set (l :: rest))) := by
  intro c k more closes holds
  rw [Literal.kinds, List.append_assoc] at holds
  have opened := holds.symbol
  obtain ⟨filled, e, c₁, k₁, ks₁, first, holds₁, closes₁, which, es, c₂, others, hes, holds₂⟩ :=
    Yields.items .rbrace (by decide) yields opened
  have single : accept .colon c₁ = .ok (false, c₁) :=
    accept_of_other holds₁ (by rw [which]; split <;> rfl)
  exact ⟨.set c.peek.loc (e :: es), c₂.advance, (bind_ok (peek_of holds)).trans
    ((bind_ok (advance_eq c)).trans ((bind_ok filled).trans
      ((bind_ok first).trans ((bind_ok single).trans
        ((bind_ok (isKeyword_of_closes closes₁ holds₁)).trans
          ((bind_ok others).trans ((bind_ok (expect_of holds₂ rfl)).trans rfl))))))), .set _ hes,
    holds₂.symbol⟩

theorem tuple {items : List Literal}
    (yields : ∀ l ∈ items, (inner.expression room).Yields l.kinds (·.Writes l)) :
    (primary inner room).Yields (Literal.tuple items).kinds (·.Writes (.tuple items)) := by
  intro c k more closes holds
  cases items with
  | nil =>
    have opened := holds.symbol
    exact ⟨.tuple c.peek.loc [], c.advance.advance, (bind_ok (peek_of holds)).trans
      ((bind_ok (advance_eq c)).trans ((bind_ok (accept_of opened rfl)).trans rfl)), .tuple _ .nil,
      opened.symbol⟩
  | cons l items =>
    cases items with
    | nil =>
      rw [Literal.kinds, List.append_assoc] at holds
      have opened : c.advance.Holds (l.kinds ++ .symbol .comma :: .symbol .rparen :: k :: more) := by
        simpa using holds.symbol
      obtain ⟨e, c₁, first, he, holds₁⟩ := yields l List.mem_cons_self _ _ _ .comma opened
      have several : Parse.isSymbol .comma c₁ = .ok (true, c₁) := by
        rw [isSymbol_eq, holds₁.peek]
        rfl
      have after := holds₁.symbol
      have closed : Parse.isSymbol .rparen c₁.advance = .ok (true, c₁.advance) := by
        rw [isSymbol_eq, after.peek]
        rfl
      exact ⟨.tuple c.peek.loc [e], c₁.advance.advance, (bind_ok (peek_of holds)).trans
        ((bind_ok (advance_eq c)).trans ((bind_ok (accept_close .rparen opened)).trans
          ((bind_ok first).trans ((bind_ok (isKeyword_of_closes .comma holds₁)).trans
            ((bind_ok several).trans
              ((bind_ok (many_of_none ((bind_ok (accept_of holds₁ rfl)).trans
                ((bind_ok closed).trans rfl)))).trans
                ((bind_ok (expect_of after rfl)).trans rfl))))))), .tuple _ (.cons he .nil),
        after.symbol⟩
    | cons l' rest =>
      rw [Literal.kinds, List.append_assoc] at holds
      · have opened := holds.symbol
        obtain ⟨filled, e, c₁, k₁, ks₁, first, holds₁, closes₁, which, es, c₂, others, hes, holds₂⟩ :=
          Yields.items .rparen (by decide) yields opened
        have several : Parse.isSymbol .comma c₁ = .ok (true, c₁) := by
          rw [isSymbol_eq, holds₁.peek, which]
          rfl
        exact ⟨.tuple c.peek.loc (e :: es), c₂.advance, (bind_ok (peek_of holds)).trans
          ((bind_ok (advance_eq c)).trans ((bind_ok filled).trans
            ((bind_ok first).trans ((bind_ok (isKeyword_of_closes closes₁ holds₁)).trans
              ((bind_ok several).trans
                ((bind_ok others).trans ((bind_ok (expect_of holds₂ rfl)).trans rfl))))))),
          .tuple _ hes, holds₂.symbol⟩
      · simp

theorem entry {e : Literal × Literal}
    (key : (inner.expression room).Yields e.1.kinds (·.Writes e.1))
    (value : (inner.expression room).Yields e.2.kinds (·.Writes e.2)) :
    (StepTrace.entry inner room).Yields (e.1.kinds ++ .symbol .colon :: e.2.kinds)
      fun kv => kv.1.Writes e.1 ∧ kv.2.Writes e.2 := by
  intro c k more closes holds
  rw [List.append_assoc] at holds
  obtain ⟨a, c₁, first, ha, holds₁⟩ := key c _ _ .colon holds
  obtain ⟨b, c₂, second, hb, holds₂⟩ := value c₁.advance k more closes (holds₁.symbol)
  exact ⟨(a, b), c₂, (bind_ok first).trans ((bind_ok (expect_of holds₁ rfl)).trans
    ((bind_ok second).trans rfl)), ⟨ha, hb⟩, holds₂⟩

theorem dict {entries : List (Literal × Literal)}
    (yields : ∀ e ∈ entries, (inner.expression room).Yields e.1.kinds (·.Writes e.1) ∧
      (inner.expression room).Yields e.2.kinds (·.Writes e.2)) :
    (primary inner room).Yields (Literal.dict entries).kinds (·.Writes (.dict entries)) := by
  intro c k more closes holds
  rw [Literal.kinds, List.append_assoc] at holds
  have opened := holds.symbol
  cases entries with
  | nil =>
    exact ⟨.dict c.peek.loc [], c.advance.advance, (bind_ok (peek_of holds)).trans
      ((bind_ok (advance_eq c)).trans ((bind_ok (accept_of opened rfl)).trans rfl)),
      .dict _ .nil .nil, opened.symbol⟩
  | cons e rest =>
    obtain ⟨yields₁, yields⟩ := List.forall_mem_cons.1 yields
    let pair := fun e : Literal × Literal => e.1.kinds ++ .symbol .colon :: e.2.kinds
    have inside : c.advance.Holds (e.1.kinds ++ .symbol .colon ::
        (e.2.kinds ++ (commaKinds pair rest ++ .symbol .rbrace :: k :: more))) := by
      rw [Literal.kindsEntries_eq_map] at opened
      rw [← List.cons_append, ← List.append_assoc, ← List.append_assoc,
        ← intercalate_kinds pair e rest]
      exact opened
    obtain ⟨k₁, ks₁, tail, closes₁⟩ :=
      closes_commaKinds pair rest (k :: more) .rbrace
    obtain ⟨a, c₁, first, ha, holds₁⟩ := yields₁.1 c.advance _ _ .colon inside
    obtain ⟨b, c₂, second, hb, holds₂⟩ :=
      yields₁.2 c₁.advance k₁ ks₁ closes₁ (tail ▸ holds₁.symbol)
    have starts : ∀ e ∈ rest, ∃ k ks, pair e = k :: ks ∧ k.isSymbol .rbrace = false := by
      intro e _
      obtain ⟨k, ks, head, plain⟩ := e.1.starts_other .rbrace
      exact ⟨k, _, by simp only [pair, head]; rfl, plain⟩
    obtain ⟨es, c₃, others, hes, holds₃⟩ := commaSeparated_of .rbrace (by decide)
      (fun e he => entry (yields e he).1 (yields e he).2) starts (tail ▸ holds₂) (a, b)
    refine ⟨.dict c.peek.loc ((a, b) :: es), c₃.advance, (bind_ok (peek_of holds)).trans
      ((bind_ok (advance_eq c)).trans ((bind_ok (accept_close .rbrace inside)).trans
        ((bind_ok first).trans ((bind_ok (accept_of holds₁ rfl)).trans
          ((bind_ok second).trans ((bind_ok (isKeyword_of_closes closes₁ holds₂)).trans
            ((bind_ok others).trans ((bind_ok (expect_of holds₃ rfl)).trans rfl)))))))),
      .dict _ (.cons ha ?_) (.cons hb ?_), holds₃.symbol⟩
    · rw [List.forall₂_map_left_iff, List.forall₂_map_right_iff]
      exact hes.imp fun _ _ => And.left
    · rw [List.forall₂_map_left_iff, List.forall₂_map_right_iff]
      exact hes.imp fun _ _ => And.right

theorem imp {α : Type} {P Q : α → Prop} {p : Parse α} {ks : List TokenKind} (h : p.Yields ks P)
    (weaker : ∀ a, P a → Q a) : p.Yields ks Q := by
  intro c k more closes holds
  obtain ⟨a, c', read, ha, holds'⟩ := h c k more closes holds
  exact ⟨a, c', read, weaker a ha, holds'⟩

end Parse.Yields

/-! ### Literals -/

theorem Literal.inside_levels {l : Literal} {levels room : Nat} (deep : l.depth < levels)
    (fits : l.depth + 1 < room) : ∃ n r, levels = n + 1 ∧ room = r + 2 ∧
      ∀ part ∈ l.parts, part.depth < n ∧ part.depth + 1 < r + 1 := by
  refine ⟨levels - 1, room - 2, by omega, by omega, fun part here => ?_⟩
  have := depth_lt here
  omega

-- Of the levels of room a container takes one, and a sign another one.
theorem Heap.Spells.yields {h : Heap} {v : Value} {l : Literal} (spells : h.Spells v l)
    (field : String → Location → Except SyntaxError Expr) {levels room : Nat}
    (deep : l.depth < levels) (fits : l.depth + 1 < room) :
    ((readers field levels).expression room).Yields l.kinds (·.Writes l) := by
  induction l generalizing v levels room with
  | none =>
    obtain ⟨levels, room, rfl, rfl, -⟩ := Literal.inside_levels deep fits
    exact (Yields.expression .none rfl .none).imp fun _ written => written.elim fun loc same => same ▸ .none loc
  | bool b =>
    obtain ⟨levels, room, rfl, rfl, -⟩ := Literal.inside_levels deep fits
    exact (Yields.expression (.bool b) (by cases b <;> rfl) (.bool b)).imp
      fun _ written => written.elim fun loc same => same ▸ .bool loc b
  | int n =>
    obtain ⟨levels, room, rfl, rfl, -⟩ := Literal.inside_levels deep fits
    rw [Literal.kinds]
    split
    · refine (Yields.negative (-n)).imp fun _ written => ?_
      obtain ⟨loc, rfl⟩ := written
      rw [Int64.neg_neg]
      exact .int loc n
    · exact (Yields.expression (.int n) rfl (.int n)).imp
        fun _ written => written.elim fun loc same => same ▸ .int loc n
  | str s =>
    obtain ⟨levels, room, rfl, rfl, -⟩ := Literal.inside_levels deep fits
    exact (Yields.expression (.str s) rfl (.str s)).imp
      fun _ written => written.elim fun loc same => same ▸ .str loc s
  | list items ih =>
    obtain ⟨levels, room, rfl, rfl, inside⟩ := Literal.inside_levels deep fits
    have list := Yields.list fun l hl => (spells.of_part l hl).elim fun _ spells =>
      ih l hl spells (inside l hl).1 (inside l hl).2
    exact Yields.expression .lbracket rfl list
  | tuple items ih =>
    obtain ⟨levels, room, rfl, rfl, inside⟩ := Literal.inside_levels deep fits
    have tuple := Yields.tuple fun l hl => (spells.of_part l hl).elim fun _ spells =>
      ih l hl spells (inside l hl).1 (inside l hl).2
    rcases items with _ | ⟨_, _ | ⟨_, _⟩⟩ <;> exact Yields.expression .lparen rfl tuple
  | dict entries ih =>
    obtain ⟨levels, room, rfl, rfl, inside⟩ := Literal.inside_levels deep fits
    refine Yields.expression .lbrace rfl (.dict fun e he => ?_)
    have parts : e.1 ∈ (Literal.dict entries).parts ∧ e.2 ∈ (Literal.dict entries).parts := by
      constructor <;> exact List.mem_flatMap.2 ⟨e, he, by simp⟩
    constructor
    · obtain ⟨_, spells⟩ := spells.of_part e.1 parts.1
      exact (ih e he).1 spells (inside _ parts.1).1 (inside _ parts.1).2
    · obtain ⟨_, spells⟩ := spells.of_part e.2 parts.2
      exact (ih e he).2 spells (inside _ parts.2).1 (inside _ parts.2).2
  | set items ih =>
    obtain ⟨levels, room, rfl, rfl, inside⟩ := Literal.inside_levels deep fits
    have yields := fun l hl => (spells.of_part l hl).elim fun _ spells =>
      ih l hl spells (inside l hl).1 (inside l hl).2
    cases items with
    | nil =>
      cases spells with
      | set _ some => exact absurd rfl some
    | cons l rest => exact Yields.expression .lbrace rfl (.set yields)

end StepTrace
