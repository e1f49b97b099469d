import StepTrace.Proofs.Concatenation.Following
import StepTrace.Proofs.Concatenation.Layout

/-!
The grammar of expressions at two texts. More levels of expressions and of formatted strings give no
other trees.
-/

set_option autoImplicit false

namespace StepTrace

open Parse

variable {n : Nat} {b : Break} {α : Type}

def FieldsAgree (n : Nat) (field field' : String → Location → Except SyntaxError Expr) : Prop :=
  ∀ text loc e, field text loc = .ok e → field' text (loc.shift n) = .ok (e.shift n)

-- What is read with the first readers is read with the second ones, further down.
structure Inner.Agrees (n : Nat) (i i' : Inner) : Prop where
  expression : ∀ {b : Break} (room : Nat),
    Keeps n (OnLine n b) (i.expression room) (i'.expression room)
  comprehension : ∀ {b : Break} (room : Nat),
    Keeps n (OnLine n b) (i.comprehension room) (i'.comprehension room)
  field : FieldsAgree n i.field i'.field

theorem Keeps.deeper [Moves α] {inner inner' : Nat → Parse α}
    (h : ∀ room, Keeps n (OnLine n b) (inner room) (inner' room)) (room : Nat) :
    Keeps n (OnLine n b) (deeper inner room) (deeper inner' room) := by
  cases room with
  | zero => exact .fail
  | succ room => exact h room

/-! ### Operators -/

-- Marks of the layout are no operators.
def Plain (ops : TokenKind → Option α) : Prop := ∀ k, k.isLayout = true → ops k = none

theorem Plain.of {ops : TokenKind → Option α} (newline : ops .newline = none)
    (indent : ops .indent = none) (dedent : ops .dedent = none) (eof : ops .eof = none) :
    Plain ops := by
  intro k layout
  cases k <;> first | assumption | cases layout

theorem Plain.isLayout {ops : TokenKind → Option α} (plain : Plain ops) {k : TokenKind} {op : α}
    (h : ops k = some op) : k.isLayout = false := by
  cases layout : k.isLayout
  · rfl
  · rw [plain k layout] at h
    cases h

namespace Keeps

theorem chainLink {ops : TokenKind → Option α} (plain : Plain ops) (left : Expr)
    {next next' : Location → α → Parse Expr}
    (h : ∀ loc op, Keeps n (OnLine n b) (next loc op) (next' (move n loc) op)) :
    Keeps n (OnLine n b) (chainLink ops left next) (chainLink ops (move n left) next') := by
  unfold StepTrace.chainLink
  refine .bind .kind fun k => ?_
  rw [show move n k = k from rfl]
  cases found : ops k with
  | none => exact .ret rfl And.left
  | some op =>
    exact .bind (.advance (plain.isLayout found)) fun _ => .bind .previous fun loc => h loc op

theorem chain {ops : TokenKind → Option α} (plain : Plain ops)
    {node : Location → α → Expr → Expr → Expr}
    (hnode : ∀ loc op l r, move n (node loc op l r) = node (move n loc) op (move n l) (move n r))
    {operand operand' : Nat → Parse Expr}
    (h : ∀ room, Keeps n (OnLine n b) (operand room) (operand' room)) (room : Nat) (left : Expr) :
    Keeps n (OnLine n b) (chain ops node operand room left)
      (chain ops node operand' room (move n left)) := by
  induction room generalizing left with
  | zero => exact chainLink plain left fun _ _ => .fail
  | succ room ih =>
    exact chainLink plain left fun loc op => .bind (h room) fun right =>
      hnode loc op left right ▸ ih (node loc op left right)

theorem chained {ops : TokenKind → Option α} (plain : Plain ops)
    {node : Location → α → Expr → Expr → Expr}
    (hnode : ∀ loc op l r, move n (node loc op l r) = node (move n loc) op (move n l) (move n r))
    {operand operand' : Nat → Parse Expr}
    (h : ∀ room, Keeps n (OnLine n b) (operand room) (operand' room)) (room : Nat) :
    Keeps n (OnLine n b) (chained ops node operand room) (chained ops node operand' room) :=
  .bind (h room) fun left => chain plain hnode h room left

theorem bitwiseOr {operand operand' : Nat → Parse Expr}
    (h : ∀ room, Keeps n (OnLine n b) (operand room) (operand' room)) (room : Nat) :
    Keeps n (OnLine n b) (bitwiseOr operand room) (bitwiseOr operand' room) := by
  have level {ops : TokenKind → Option BinaryOp} (plain : Plain ops)
      {operand operand' : Nat → Parse Expr}
      (h : ∀ room, Keeps n (OnLine n b) (operand room) (operand' room)) (room : Nat) :
      Keeps n (OnLine n b) (StepTrace.chained ops .binary operand room)
        (StepTrace.chained ops .binary operand' room) := by
    refine chained plain (fun _ _ _ _ => ?_) h room
    rfl
  exact level (.of rfl rfl rfl rfl) (level (.of rfl rfl rfl rfl) (level (.of rfl rfl rfl rfl)
    (level (.of rfl rfl rfl rfl) (level (.of rfl rfl rfl rfl) (level (.of rfl rfl rfl rfl) h)))))
    room

theorem move_foldSign (loc : Location) (op : UnaryOp) (e : Expr) :
    move n (foldSign loc op e) = foldSign (move n loc) op (move n e) := by
  cases op <;> cases e <;> rfl

theorem unaryOp_plain : Plain unaryOp? := .of rfl rfl rfl rfl

theorem unaryWith {base base' operand operand' : Parse Expr}
    (hbase : Keeps n (OnLine n b) base base') (hoperand : Keeps n (OnLine n b) operand operand') :
    Keeps n (OnLine n b) (unaryWith base operand) (unaryWith base' operand') := by
  unfold StepTrace.unaryWith
  refine .bind .peek fun t => ?_
  obtain ⟨k, loc⟩ := t
  rw [show move n (⟨k, loc⟩ : Token) = ⟨k, loc.shift n⟩ from rfl]
  dsimp only
  cases found : unaryOp? k with
  | some op =>
    exact .pass (unaryOp_plain.isLayout found) (.bind hoperand fun e =>
      .keep (move_foldSign loc op e))
  | none =>
    refine .pre (.bind hbase fun left => ?_) And.left
    refine .bindIf (.tries .doubleStar) ?_ (.keep rfl)
    exact .bind .previous fun _ => .bind hoperand fun _ => .keep rfl

theorem unary {base base' : Nat → Parse Expr}
    (h : ∀ room, Keeps n (OnLine n b) (base room) (base' room)) (room : Nat) :
    Keeps n (OnLine n b) (unary base room) (unary base' room) := by
  induction room with
  | zero => exact unaryWith (h 0) .fail
  | succ room ih => exact unaryWith (h (room + 1)) ih

theorem notWith {base base' operand operand' : Parse Expr}
    (hbase : Keeps n (OnLine n b) base base') (hoperand : Keeps n (OnLine n b) operand operand') :
    Keeps n (OnLine n b) (notWith base operand) (notWith base' operand') :=
  .bindIf (.triesWord .not)
    (.bind .previous fun _ => .bind hoperand fun _ => .keep rfl) hbase

theorem notTest {base base' : Nat → Parse Expr}
    (h : ∀ room, Keeps n (OnLine n b) (base room) (base' room)) (room : Nat) :
    Keeps n (OnLine n b) (notTest base room) (notTest base' room) := by
  induction room with
  | zero => exact notWith (h 0) .fail
  | succ room ih => exact notWith (h (room + 1)) ih

end Keeps

/-! ### Two tokens ahead -/

-- A comparison operator at the start of these words, and whether it has two of them.
def comparisonOf? : List TokenKind → Option (CompareOp × Bool)
  | .symbol .eqEq :: _ => some (.eq, false)
  | .symbol .notEq :: _ => some (.ne, false)
  | .symbol .lt :: _ => some (.lt, false)
  | .symbol .le :: _ => some (.le, false)
  | .symbol .gt :: _ => some (.gt, false)
  | .symbol .ge :: _ => some (.ge, false)
  | .keyword .in :: _ => some (.isIn, false)
  | .keyword .not :: .keyword .in :: _ => some (.notIn, true)
  | .keyword .is :: .keyword .not :: _ => some (.isNot, true)
  | .keyword .is :: _ => some (.is, false)
  | _ => none

def Cursor.two (c : Cursor) : List TokenKind := (c.rest.take 2).map Token.kind

theorem comparison?_eq (c : Cursor) : comparison? c =
    match comparisonOf? c.two with
    | none => .ok (none, c)
    | some (op, false) => .ok (some op, c.advance)
    | some (op, true) => .ok (some op, c.advance.advance) := by
  refine (bind_ok (p := get) (c := c) rfl).trans ?_
  unfold Cursor.two
  generalize (c.rest.take 2).map Token.kind = ks
  unfold comparisonOf?
  split <;> simp only [*] <;> rfl

theorem comparisonOf?_layout {k : TokenKind} (layout : k.isLayout = true) (ks : List TokenKind) :
    comparisonOf? (k :: ks) = none := by
  cases k <;> first | rfl | cases layout

theorem comparisonOf?_second {k k' : TokenKind} {op : CompareOp}
    (h : comparisonOf? [k, k'] = some (op, true)) : k'.isLayout = false := by
  unfold comparisonOf? at h
  split at h <;> simp_all <;> rfl

-- The next two words of a line are the same in both texts, unless the line has ended.
theorem OnLine.two {c c' : Cursor} (line : OnLine n b c c') :
    (∃ k ks ks', k.isLayout = true ∧ c.two = k :: ks ∧ c'.two = k :: ks') ∨
    ∃ k k', k.isLayout = false ∧ c.two = [k, k'] ∧ c'.two = [k, k'] := by
  obtain ⟨ts, loc⟩ := c
  obtain ⟨ts', loc'⟩ := c'
  cases line with
  | ends => exact .inl ⟨_, _, _, b.layout, rfl, rfl⟩
  | @token t _ _ plain line =>
    right
    cases line with
    | ends => exact ⟨_, _, plain, rfl, rfl⟩
    | token plain' line => exact ⟨_, _, plain, rfl, rfl⟩

theorem OnLine.ahead {c c' : Cursor} {k k' : TokenKind} (line : OnLine n b c c')
    (two : c.two = [k, k']) (plain : k.isLayout = false) :
    Ahead n b k c c' ∧ Ahead n b k' c.advance c'.advance := by
  have next : c.peek.kind = k ∧ c.advance.peek.kind = k' := by
    obtain ⟨_ | ⟨t, _ | ⟨t', ts⟩⟩, loc⟩ := c
    · cases two
    · cases two
    · cases two
      have more : t.kind ≠ .eof := by
        intro last
        rw [last] at plain
        cases plain
      rw [Cursor.advance_cons more]
      exact ⟨rfl, rfl⟩
  have ahead : Ahead n b k c c' := ⟨line, next.1⟩
  exact ⟨ahead, (ahead.advance plain).1, next.2⟩

theorem Keeps.comparison? : Keeps n (OnLine n b) comparison? comparison? := by
  intro c c' a d line read
  rw [comparison?_eq] at read ⊢
  rcases line.two with ⟨k, ks, ks', layout, two, two'⟩ | ⟨k, k', plain, two, two'⟩
  · rw [two, comparisonOf?_layout layout] at read
    rw [two', comparisonOf?_layout layout]
    cases read
    exact ⟨c', rfl, line⟩
  · obtain ⟨ahead, ahead'⟩ := line.ahead two plain
    rw [two] at read
    rw [two']
    split at read
    · next found =>
      cases read
      exact ⟨c', rfl, line⟩
    · next op found =>
      cases read
      exact ⟨c'.advance, rfl, (ahead.advance plain).1⟩
    · next op found =>
      cases read
      exact ⟨_, rfl, (ahead'.advance (comparisonOf?_second found)).1⟩

theorem move_isEmpty [Moves α] (as : List α) : (move n as).isEmpty = as.isEmpty := by
  cases as <;> rfl

namespace Keeps

theorem comparison {operand operand' : Parse Expr}
    (h : Keeps n (OnLine n b) operand operand') :
    Keeps n (OnLine n b) (comparison operand) (comparison operand') := by
  refine .bind .here fun loc => .bind h fun left => ?_
  refine .bind (.many (fun _ => ?_) []) fun rest => ?_
  · refine .bind comparison? fun op => ?_
    cases op with
    | none => exact .keep rfl
    | some op => exact .bind h fun _ => .keep rfl
  · rw [move_isEmpty]
    exact .ite (.keep rfl) (.keep (move_compare ..))

theorem orTest {operand operand' : Nat → Parse Expr}
    (h : ∀ room, Keeps n (OnLine n b) (operand room) (operand' room)) (room : Nat) :
    Keeps n (OnLine n b) (orTest operand room) (orTest operand' room) := by
  have level {ops : TokenKind → Option BoolOp} (plain : Plain ops)
      {operand operand' : Nat → Parse Expr}
      (h : ∀ room, Keeps n (OnLine n b) (operand room) (operand' room)) (room : Nat) :
      Keeps n (OnLine n b) (StepTrace.chained ops .boolOp operand room)
        (StepTrace.chained ops .boolOp operand' room) := by
    refine chained plain (fun _ _ _ _ => ?_) h room
    rfl
  exact level (.of rfl rfl rfl rfl) (level (.of rfl rfl rfl rfl)
    (notTest fun room => comparison (bitwiseOr h room))) room

theorem ensureAssignable {R : Cursor → Cursor → Prop} (target : Expr) :
    Keeps n R (ensureAssignable target) (ensureAssignable (move n target)) := by
  unfold StepTrace.ensureAssignable
  rw [show (move n target).isAssignable = target.isAssignable from target.isAssignable_shift n]
  exact .ite (.keep rfl) .failAt

theorem targetList {item item' : Parse Expr} (h : Keeps n (OnLine n b) item item') :
    Keeps n (OnLine n b) (targetList item) (targetList item') := by
  have rest (target : Expr) : Keeps n (OnLine n b)
      (StepTrace.ensureAssignable target >>= fun _ => pure target)
      (StepTrace.ensureAssignable (move n target) >>= fun _ => pure (move n target)) :=
    .bind (ensureAssignable target) fun _ => .keep rfl
  refine .bind .here fun loc => .bind h fun first => .bindIf (.isSymbol .comma) ?_ (rest first)
  refine .bind (.commaSeparated (.isKeyword .in) (fun _ => h) [first]) fun items => ?_
  exact move_tuple n loc items ▸ rest (.tuple loc items)

end Keeps

/-! ### Formatted strings -/

section

variable {read read' : String → Location → Except SyntaxError Expr} {loc : Location}

theorem fieldValue_shift {field : FieldText} {part : FPart}
    (hread : FieldsAgree n read read')
    (h : fieldValue read loc field = .ok part) :
    fieldValue read' (loc.shift n) field = .ok (move n part) := by
  unfold fieldValue at h ⊢
  dsimp only at h ⊢
  split at h
  · cases h
  · next filled =>
    rw [if_neg filled]
    obtain ⟨value, found, h⟩ := Except.of_bind_ok h
    refine (Except.bind_of_ok (hread _ _ _ found)).trans ?_
    rw [Expr.location_shift]
    split at h <;> cases h <;> rfl

theorem move_literalPart (literal : List Char) :
    move n (literalPart literal) = literalPart literal := by
  unfold literalPart
  split <;> rfl

theorem fstringFrom_shift {literal body : List Char} {parts all : List FPart}
    (hread : FieldsAgree n read read')
    (h : fstringFrom read loc literal parts body = .ok all) :
    fstringFrom read' (loc.shift n) literal (move n parts) body = .ok (move n all) := by
  have kept (literal : List Char) (parts : List FPart) :
      move n (literalPart literal ++ parts) = literalPart literal ++ move n parts :=
    List.map_append.trans (congrArg (· ++ move n parts) (move_literalPart literal))
  fun_induction fstringFrom read loc literal parts body with
  | case1 literal parts =>
    cases h
    rw [fstringFrom, ← kept]
    exact congrArg Except.ok List.map_reverse.symm
  | case2 literal parts c rest doubled ih =>
    rw [fstringFrom, if_pos doubled]
    exact ih h
  | case3 | case4 | case6 => cases h
  | case5 literal parts rest field after found shorter single opens ih =>
    obtain ⟨part, read, h⟩ := Except.of_bind_ok h
    have rest := ih part h
    rw [List.cons_append] at rest
    rw [fstringFrom, if_neg single, if_neg opens, if_pos rfl, found]
    dsimp only
    rw [if_pos shorter]
    refine (Except.bind_of_ok (fieldValue_shift hread read)).trans ?_
    rw [List.cons_append, ← kept]
    exact rest
  | case7 literal parts c rest single closes opens ih =>
    rw [fstringFrom, if_neg single, if_neg closes, if_neg opens]
    exact ih h

theorem fstringParts_shift {body : String} {parts : List FPart}
    (hread : FieldsAgree n read read')
    (h : fstringParts read loc body = .ok parts) :
    fstringParts read' (loc.shift n) body = .ok (move n parts) :=
  fstringFrom_shift hread h

end

theorem Keeps.suffixLink (left : Expr) {next next' : Location → Symbol → Parse Expr}
    (h : ∀ loc s, Follows n (Ahead n b (.symbol s)) (next loc s) (next' (move n loc) s)
      fun _ => OnLine n b) :
    Keeps n (OnLine n b) (suffixLink left next) (suffixLink (move n left) next') := by
  refine .bind .peek fun t => ?_
  obtain ⟨kind, loc⟩ := t
  cases kind with
  | symbol s => cases s with
    | lparen | lbracket | dot => exact h loc _
    | _ => exact .ret rfl And.left
  | _ => exact .ret rfl And.left

/-! ### Lists in brackets -/

theorem starts_follows : Keeps n (OnLine n b) startsExpression startsExpression :=
  .look fun k => by cases k <;> exact ⟨_, rfl⟩

namespace Inner.Agrees

variable {i i' : Inner} (I : i.Agrees n i')
include I

theorem expressionList (room : Nat) :
    Keeps n (OnLine n b) (expressionList i room) (expressionList i' room) := by
  refine .bind .here fun loc => .bind (I.expression room) fun first => ?_
  refine .bindIfNot (.isSymbol .comma) (.keep rfl) ?_
  refine .bind (.commaSeparated ?_ (fun _ => I.expression room) [first]) fun items =>
    .keep (move_tuple ..)
  exact .bind starts_follows fun _ => .keep rfl

theorem parameter (room : Nat) (annotated : Bool) (before : List Param) :
    Keeps n (OnLine n b) (parameters.parameter i room annotated before)
      (parameters.parameter i' room annotated (move n before)) := by
  have names (name : String) :
      (move n before).any (·.name == name) = before.any (·.name == name) := by
    refine (List.any_map ..).trans (congrArg (List.any before) (funext fun p => ?_))
    cases p
    rfl
  have defaults : (move n before).any (·.default.isSome) = before.any (·.default.isSome) := by
    refine (List.any_map ..).trans (congrArg (List.any before) (funext fun p => ?_))
    obtain ⟨name, value⟩ := p
    cases value <;> rfl
  refine .bind (.isSymbol .star) fun _ => .bind (.isSymbol .doubleStar) fun _ => ?_
  refine .guard rfl (fun _ => ⟨_, rfl⟩) (.bind .here fun loc => .bind .identifier fun name => ?_)
  refine .guard (names name) (fun _ => ⟨_, rfl⟩) ?_
  refine .skipIf (.accept .colon) (.discard (I.expression room)) ?_
  refine .bind (.accept .eq) fun _ => .ifSome (I.expression room) fun value => ?_
  refine .guard ?_ (fun _ => ⟨_, rfl⟩) (.keep rfl)
  rw [defaults]
  cases value <;> rfl

theorem parameters (room : Nat) (close : Symbol) (annotated : Bool) :
    Keeps n (OnLine n b) (parameters i room close annotated)
      (StepTrace.parameters i' room close annotated) :=
  .bindIf (.isSymbol close) (.keep rfl) (.bind (I.parameter room annotated []) fun first =>
    .commaSeparated (.isSymbol close) (I.parameter room annotated) [first])

end Inner.Agrees

-- A name and the sign after it.
def Named (n : Nat) (b : Break) : Bool → Cursor → Cursor → Prop
  | true => fun c c' => OnLine n b c c' ∧ ∃ name, c.two = [.ident name, .symbol .eq]
  | false => OnLine n b

theorem startsKeyword_eq (c : Cursor) : startsKeyword c =
    .ok (match c.two with | [.ident _, .symbol .eq] => true | _ => false, c) := by
  obtain ⟨_ | ⟨⟨k, l⟩, _ | ⟨⟨k', l'⟩, ts⟩⟩, loc⟩ := c
  · rfl
  · cases k <;> rfl
  · cases k with
    | ident name =>
      cases k' with
      | symbol s => cases s <;> rfl
      | _ => rfl
    | _ => rfl

theorem startsKeyword_follows : Follows n (OnLine n b) startsKeyword startsKeyword (Named n b) := by
  intro c c' a d line read
  rw [startsKeyword_eq] at read ⊢
  have same : (match c'.two with | [.ident _, .symbol .eq] => true | _ => false) =
      match c.two with | [.ident _, .symbol .eq] => true | _ => false := by
    rcases line.two with ⟨k, ks, ks', layout, two, two'⟩ | ⟨k, k', plain, two, two'⟩
    · rw [two, two']
      cases k <;> first | rfl | cases layout
    · rw [two, two']
  rw [same]
  cases read
  refine ⟨c', rfl, ?_⟩
  split
  · next name two => exact ⟨line, name, two⟩
  · exact line

theorem identifier_of {c : Cursor} {name : String} (h : c.peek.kind = .ident name) :
    identifier c = .ok (name, c.advance) := by
  refine (bind_ok (p := kind) (c := c) rfl).trans ?_
  rw [h]
  rfl

theorem identifier_named : Follows n (Named n b true) identifier identifier
    fun _ => Ahead n b (.symbol .eq) := by
  rintro c c' a d ⟨line, name, two⟩ read
  obtain ⟨ahead, next⟩ := line.ahead two rfl
  rw [identifier_of ahead.2] at read
  cases read
  exact ⟨c'.advance, identifier_of (line.peek ▸ ahead.2), next⟩

namespace Inner.Agrees

variable {i i' : Inner} (I : i.Agrees n i')
include I

theorem argument (room : Nat) (before : List Argument) :
    Keeps n (OnLine n b) (arguments.argument i room before)
      (arguments.argument i' room (move n before)) := by
  have keywords : (move n before).any (·.keyword?.isSome) = before.any (·.keyword?.isSome) := by
    refine (List.any_map ..).trans (congrArg (List.any before) (funext fun a => ?_))
    cases a <;> rfl
  refine .bind (.isSymbol .star) fun _ => .bind (.isSymbol .doubleStar) fun _ => ?_
  refine .guard rfl (fun _ => ⟨_, rfl⟩) (.bindIf startsKeyword_follows ?_ ?_)
  · exact .bind identifier_named fun name => .pass rfl (.bind (I.expression room) fun _ => .keep rfl)
  · refine .guard keywords (fun _ => ⟨_, rfl⟩) (.bind .here fun loc => ?_)
    refine .bind (I.expression room) fun value => .bindIf (.isKeyword .for) ?_ (.keep rfl)
    exact .bind (I.comprehension room) fun cs =>
      .keep (congrArg Argument.positional (move_listComp n loc value cs))

theorem arguments (room : Nat) :
    Keeps n (OnLine n b) (arguments i room) (StepTrace.arguments i' room) :=
  .bindIf (.isSymbol .rparen) (.keep rfl) (.bind (I.argument room []) fun first =>
    .commaSeparated (.isSymbol .rparen) (I.argument room) [first])

theorem bounds (room : Nat) (loc : Location) (lower : Option Expr) :
    Follows n (Ahead n b (.symbol .colon)) (index.bounds i room loc lower)
      (index.bounds i' room (move n loc) (move n lower)) fun _ => OnLine n b := by
  refine .pass rfl (.bind (.isSymbol .colon) fun _ => .bind (.isSymbol .rbracket) fun _ => ?_)
  refine .ifNone (I.expression room) fun upper => .bindIf (.accept .colon) ?_ ?_
  · refine .bind (.isSymbol .rbracket) fun _ => .ifNone (I.expression room) fun step => ?_
    exact .keep (move_slice ..)
  · exact .keep (move_slice n loc lower upper none)

theorem index (room : Nat) : Keeps n (OnLine n b) (index i room) (StepTrace.index i' room) := by
  refine .bind .here fun loc => .bindIf (.seesSymbol .colon) (I.bounds room loc none) ?_
  refine .bind (I.expressionList room) fun first => ?_
  exact .bindIf (.seesSymbol .colon) (I.bounds room loc (some first)) (.keep rfl)

theorem parenthesized (room : Nat) (loc : Location) :
    Keeps n (OnLine n b) (parenthesized i room loc)
      (StepTrace.parenthesized i' room (move n loc)) := by
  refine .bindIf (.accept .rparen) (.keep (move_tuple n loc [])) ?_
  refine .bind (I.expression room) fun first => .bindIf (.isKeyword .for) ?_ ?_
  · exact .bind (I.comprehension room) fun cs => .bind (.expect .rparen) fun _ =>
      .keep (move_listComp ..)
  · refine .bindIfNot (.isSymbol .comma) (.bind (.expect .rparen) fun _ => .keep rfl) ?_
    refine .bind (.commaSeparated (.isSymbol .rparen) (fun _ => I.expression room) [first])
      fun items => ?_
    exact .bind (.expect .rparen) fun _ => .keep (move_tuple ..)

theorem listDisplay (room : Nat) (loc : Location) :
    Keeps n (OnLine n b) (listDisplay i room loc)
      (StepTrace.listDisplay i' room (move n loc)) := by
  refine .bindIf (.accept .rbracket) (.keep (move_list n loc [])) ?_
  refine .bind (I.expression room) fun first => .bindIf (.isKeyword .for) ?_ ?_
  · exact .bind (I.comprehension room) fun cs => .bind (.expect .rbracket) fun _ =>
      .keep (move_listComp ..)
  · refine .bind (.commaSeparated (.isSymbol .rbracket) (fun _ => I.expression room) [first])
      fun items => ?_
    exact .bind (.expect .rbracket) fun _ => .keep (move_list ..)

theorem entry (room : Nat) : Keeps n (OnLine n b) (entry i room) (StepTrace.entry i' room) :=
  .bind (I.expression room) fun _ => .bind (.expect .colon) fun _ =>
    .bind (I.expression room) fun _ => .keep rfl

theorem braceDisplay (room : Nat) (loc : Location) :
    Keeps n (OnLine n b) (braceDisplay i room loc)
      (StepTrace.braceDisplay i' room (move n loc)) := by
  refine .bindIf (.accept .rbrace) (.keep (move_dict n loc [])) ?_
  refine .bind (I.expression room) fun first => .bindIf (.accept .colon) ?_ ?_
  · refine .bind (I.expression room) fun value => .bindIf (.isKeyword .for) ?_ ?_
    · exact .bind (I.comprehension room) fun cs => .bind (.expect .rbrace) fun _ =>
        .keep (move_dictComp ..)
    · refine .bind (.commaSeparated (.isSymbol .rbrace) (fun _ => I.entry room) [(first, value)])
        fun entries => ?_
      exact .bind (.expect .rbrace) fun _ => .keep (move_dict ..)
  · refine .bindIf (.isKeyword .for) ?_ ?_
    · refine .bind (I.comprehension room) fun cs => .bind (.expect .rbrace) fun _ => .keep ?_
      rw [move_call]
      exact congrArg (fun e => Expr.call (move n loc) (.name (move n loc) "set") [e] [])
        (move_listComp n loc first cs)
    · refine .bind (.commaSeparated (.isSymbol .rbrace) (fun _ => I.expression room) [first])
        fun items => ?_
      exact .bind (.expect .rbrace) fun _ => .keep (move_set ..)

theorem stringAtom : Keeps n (OnLine n b) (stringAtom i) (StepTrace.stringAtom i') := by
  refine .bind .here fun loc => .bind (.many (fun _ => .bind .peek fun t => ?_) []) fun pieces => ?_
  · obtain ⟨kind, start⟩ := t
    cases kind with
    | str s => exact .pass rfl (.keep rfl)
    | fstr body =>
      refine .pass rfl ?_
      dsimp only
      cases read : fstringParts i.field start body with
      | error e => exact .never fun _ => ⟨e, rfl⟩
      | ok parts =>
        have read' := fstringParts_shift (n := n) I.field read
        rw [read']
        exact .keep rfl
    | _ => exact .ret rfl And.left
  · have formatted : (move n pieces).any (·.1) = pieces.any (·.1) := List.any_map ..
    have parts : (move n pieces).flatMap (·.2) = move n (pieces.flatMap (·.2)) :=
      (List.flatMap_map ..).trans List.map_flatMap.symm
    have texts {f : FPart → String} (h : ∀ part, f (move n part) = f part) (ps : List FPart) :
        (move n ps).map f = ps.map f :=
      (List.map_map ..).trans (List.map_congr_left fun part _ => h part)
    dsimp only
    rw [formatted, parts]
    refine .ite (.keep (move_fstring ..)) (.keep ?_)
    rw [texts fun part => by cases part <;> rfl]
    rfl

theorem primary (room : Nat) :
    Keeps n (OnLine n b) (primary i room) (StepTrace.primary i' room) := by
  refine .bind .peek fun t => ?_
  obtain ⟨kind, loc⟩ := t
  cases kind with
  | int | float | ident => exact .pass rfl (.keep rfl)
  | str | fstr => exact .pre I.stringAtom And.left
  | keyword k => cases k with
    | true | false | none => exact .pass rfl (.keep rfl)
    | _ => exact .failAt
  | symbol s => cases s with
    | lparen => exact .pass rfl (I.parenthesized room loc)
    | lbracket => exact .pass rfl (I.listDisplay room loc)
    | lbrace => exact .pass rfl (I.braceDisplay room loc)
    | _ => exact .failAt
  | _ => exact .failAt

theorem suffix (room : Nat) (left : Expr) {next next' : Expr → Parse Expr}
    (h : ∀ e, Keeps n (OnLine n b) (next e) (next' (move n e))) (loc : Location) (s : Symbol) :
    Follows n (Ahead n b (.symbol s)) (suffix i room left next loc s)
      (StepTrace.suffix i' room (move n left) next' (move n loc) s) fun _ => OnLine n b := by
  have other : Follows n (Ahead n b (.symbol s))
      (advance >>= fun _ => identifier >>= fun name => next (.attr loc left name))
      (advance >>= fun _ => identifier >>= fun name => next' (.attr (move n loc) (move n left) name))
      fun _ => OnLine n b :=
    .pass rfl (.bind .identifier fun name => h (.attr loc left name))
  cases s with
  | lparen =>
    refine .pass rfl (.bind (I.arguments room) fun args => .bind (.expect .rparen) fun _ => ?_)
    have positional : (move n args).filterMap (·.positional?) =
        move n (args.filterMap (·.positional?)) := by
      refine (List.filterMap_map ..).trans (Eq.trans ?_ List.map_filterMap.symm)
      refine congrArg (List.filterMap · args) (funext fun a => ?_)
      cases a <;> rfl
    have keywords : (move n args).filterMap (·.keyword?) =
        move n (args.filterMap (·.keyword?)) := by
      refine (List.filterMap_map ..).trans (Eq.trans ?_ List.map_filterMap.symm)
      refine congrArg (List.filterMap · args) (funext fun a => ?_)
      cases a <;> rfl
    rw [positional, keywords]
    exact move_call n loc left _ _ ▸ h _
  | lbracket =>
    refine .pass rfl (.bind (I.index room) fun i => .bind (.expect .rbracket) fun _ => ?_)
    exact h (.subscript loc left i)
  | _ => exact other

theorem suffixes (room : Nat) (left : Expr) :
    Keeps n (OnLine n b) (suffixes i room left) (StepTrace.suffixes i' room (move n left)) := by
  induction room generalizing left with
  | zero => exact Keeps.suffixLink left fun _ _ => .fail
  | succ room ih => exact Keeps.suffixLink left (I.suffix room left ih)

theorem postfixExpr (room : Nat) :
    Keeps n (OnLine n b) (postfixExpr i room) (StepTrace.postfixExpr i' room) :=
  .bind (I.primary room) (I.suffixes room)

theorem lambdaExpr (room : Nat) :
    Follows n (Ahead n b (.keyword .lambda)) (lambdaExpr i room) (StepTrace.lambdaExpr i' room)
      fun _ => OnLine n b := by
  refine .bind (.here_of And.left) fun loc => .pass rfl ?_
  refine .bind (I.parameters room .colon false) fun params => ?_
  exact .bind (.demand (.accept .colon)) fun _ => .bind (I.expression room) fun _ =>
    .keep (move_lambda ..)

theorem test {operand operand' : Nat → Parse Expr}
    (h : ∀ room, Keeps n (OnLine n b) (operand room) (operand' room)) (room : Nat) :
    Keeps n (OnLine n b) (test i operand room) (StepTrace.test i' operand' room) := by
  refine .bindIf (.seesKeyword .lambda) (I.lambdaExpr room) ?_
  refine .bind .here fun loc => .bind (Keeps.orTest h room) fun yes => ?_
  refine .bindIf (.acceptWord .if) ?_ (.keep rfl)
  exact .bind (Keeps.orTest h room) fun _ => .bind (.demand (.acceptWord .else)) fun _ =>
    .bind (I.expression room) fun _ => .keep rfl

end Inner.Agrees

theorem Keeps.clauses {orTest orTest' targets targets' : Parse Expr}
    (htest : Keeps n (OnLine n b) orTest orTest')
    (htargets : Keeps n (OnLine n b) targets targets') :
    Keeps n (OnLine n b) (clauses orTest targets) (clauses orTest' targets') := by
  refine .many (fun _ => .bindIfNot (.acceptWord .for) (.keep rfl) ?_) []
  refine .bind htargets fun target => .bind (.demand (.acceptWord .in)) fun _ =>
    .bind htest fun iter => ?_
  refine .bind (.many (fun _ => ?_) []) fun conditions => .keep rfl
  exact .bindIf (.acceptWord .if) (.bind htest fun _ => .keep rfl) (.keep rfl)

/-! ### More levels -/

section

variable {field field' : String → Location → Except SyntaxError Expr}

theorem readers_field (levels : Nat) : (readers field levels).field = field := by
  cases levels <;> rfl

theorem readers_agree
    (hfield : FieldsAgree n field field') {levels levels' : Nat} (more : levels ≤ levels') :
    (readers field levels).Agrees n (readers field' levels') := by
  induction levels generalizing levels' with
  | zero =>
    refine ⟨fun _ => .fail, fun _ => .fail, ?_⟩
    rw [readers_field, readers_field]
    exact hfield
  | succ levels ih =>
    obtain ⟨levels', rfl⟩ : ∃ k, levels' = k + 1 := ⟨levels' - 1, by omega⟩
    have I : (readers field levels).Agrees n (readers field' levels') := ih (by omega)
    have operand {b : Break} (room : Nat) := Keeps.unary (b := b) I.postfixExpr room
    exact {
      expression := Keeps.deeper (I.test operand)
      comprehension := fun room =>
        .clauses (Keeps.orTest operand room) (Keeps.targetList (Keeps.bitwiseOr operand room))
      field := hfield }

theorem Stretch.of_tokens {ts : List Token} (h : ∃ t ∈ ts, t.kind.isLayout = true) :
    ∃ b, Stretch n b ts (ts.map (Token.shift n)) := by
  induction ts with
  | nil => obtain ⟨t, none, -⟩ := h; cases none
  | cons t ts ih =>
    cases layout : t.kind.isLayout with
    | true => exact ⟨⟨t, layout, ts, ts.map (Token.shift n)⟩, .ends⟩
    | false =>
      obtain ⟨t', member, layout'⟩ := h
      have later : t' ∈ ts := by
        rcases List.mem_cons.1 member with rfl | later
        · rw [layout] at layout'
          cases layout'
        · exact later
      obtain ⟨b, line⟩ := ih ⟨t', later, layout'⟩
      exact ⟨b, .token layout line⟩

theorem fieldExpression_agree (hfield : FieldsAgree n field field') :
    FieldsAgree n (fieldExpression field) (fieldExpression field') := by
  intro text loc e h
  obtain ⟨ts, scanned, h⟩ := Except.of_bind_ok h
  obtain ⟨⟨e', left⟩, read, h⟩ := Except.of_bind_ok h
  obtain ⟨b, line⟩ := Stretch.of_tokens (n := n) (tokensAt_layout scanned)
  have levels : Cursor.levels ⟨ts, loc⟩ =
      Cursor.levels ⟨ts.map (Token.shift n), loc.shift n⟩ :=
    congrArg (· + 1) (List.length_map ..).symm
  have I := readers_agree hfield (Nat.le_of_eq levels)
  obtain ⟨left', read', line'⟩ :=
    I.expressionList maxNesting ⟨ts, loc⟩ ⟨ts.map (Token.shift n), loc.shift n⟩ e' left line read
  refine (Except.bind_of_ok (tokensAt_shift scanned n)).trans ?_
  refine (Except.bind_of_ok read').trans ?_
  have same : left'.peek.kind = left.peek.kind := by rw [line'.peek]; rfl
  dsimp only at h ⊢
  rw [same]
  split at h
  · cases h
    rfl
  · cases h
    rfl
  · cases h

theorem fieldAt_agree {depth depth' : Nat} (more : depth ≤ depth') :
    FieldsAgree n (fieldAt depth) (fieldAt depth') := by
  induction depth generalizing depth' with
  | zero => nofun
  | succ depth ih =>
    obtain ⟨depth', rfl⟩ : ∃ k, depth' = k + 1 := ⟨depth' - 1, by omega⟩
    exact fieldExpression_agree (ih (by omega))

end

end StepTrace
