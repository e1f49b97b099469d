import Mathlib.Data.List.Forall2
import StepTrace.Grammar.Statement

/-!
Formulas: expressions over names, as trees, and how they are written. Where an operator stands in
the place of an operand and binds less tightly than the place asks for, it gets parentheses; nothing
else gets any.
-/

set_option autoImplicit false

namespace StepTrace

/-! ### Trees -/

def isName (s : String) : Bool :=
  s.toList.head?.any (fun c => Text.isLetter c || c == '_') &&
    s.toList.all (fun c => Text.isLetterOrDigit c || c == '_') &&
    (Keyword.ofText? s).isNone && !reservedWords.contains s

@[ext]
structure Identifier where
  text : String
  valid : isName text = true

-- The operators that associate to the left.
inductive LeftOp
  | or | and | bitOr | bitXor | bitAnd | shiftLeft | shiftRight | add | sub | mul | div | floorDiv
  | mod

inductive Formula
  | name (n : Identifier)
  | chain (op : LeftOp) (left right : Formula)
  | power (base exponent : Formula)
  | unary (op : UnaryOp) (operand : Formula)
  | compare (first : Formula) (op : CompareOp) (second : Formula)
    (rest : List (CompareOp × Formula))
  | ifElse (condition yes no : Formula)
  | call (callee : Formula) (args : List Formula)
  | attr (object : Formula) (field : Identifier)
  | subscript (object index : Formula)

/-
How loosely operators bind: a name 0, what follows an operand 1, `**` 2, signs 3, `*` 4, `+` 5,
shifts 6, `&` 7, `^` 8, `|` 9, comparisons 10, `not` 11, `and` 12, `or` 13, conditions 14.
-/

def LeftOp.level : LeftOp → Nat
  | mul | div | floorDiv | mod => 4
  | add | sub => 5
  | shiftLeft | shiftRight => 6
  | bitAnd => 7
  | bitXor => 8
  | bitOr => 9
  | and => 12
  | or => 13

def UnaryOp.level : UnaryOp → Nat
  | not => 11
  | _ => 3

/-! ### Texts -/

-- A piece of a text: a blank or a token.
inductive Piece
  | blank
  | name (n : Identifier)
  | word (k : Keyword)
  | mark (s : Symbol)

namespace Piece

def chars : Piece → List Char
  | blank => [' ']
  | name n => n.text.toList
  | word k => k.text.toList
  | mark s => s.text.toList

def kind? : Piece → Option TokenKind
  | blank => none
  | name n => some (.ident n.text)
  | word k => some (.keyword k)
  | mark s => some (.symbol s)

end Piece

def LeftOp.piece : LeftOp → Piece
  | or => .word .or
  | and => .word .and
  | bitOr => .mark .pipe
  | bitXor => .mark .caret
  | bitAnd => .mark .amp
  | shiftLeft => .mark .ltLt
  | shiftRight => .mark .gtGt
  | add => .mark .plus
  | sub => .mark .minus
  | mul => .mark .star
  | div => .mark .slash
  | floorDiv => .mark .doubleSlash
  | mod => .mark .percent

def UnaryOp.pieces : UnaryOp → List Piece
  | neg => [.mark .minus]
  | pos => [.mark .plus]
  | bitNot => [.mark .tilde]
  | not => [.word .not, .blank]

def CompareOp.pieces : CompareOp → List Piece
  | eq => [.mark .eqEq]
  | ne => [.mark .notEq]
  | lt => [.mark .lt]
  | le => [.mark .le]
  | gt => [.mark .gt]
  | ge => [.mark .ge]
  | isIn => [.word .in]
  | notIn => [.word .not, .blank, .word .in]
  | is => [.word .is]
  | isNot => [.word .is, .blank, .word .not]

-- Parentheses, if they are needed.
def enclosed (needed : Bool) (ps : List Piece) : List Piece :=
  if needed then .mark .lparen :: ps ++ [.mark .rparen] else ps

-- Between blanks.
def spaced (ps : List Piece) : List Piece := .blank :: ps ++ [.blank]

namespace Formula

def level : Formula → Nat
  | name _ => 0
  | call .. | attr .. | subscript .. => 1
  | power .. => 2
  | unary op _ => op.level
  | chain op _ _ => op.level
  | compare .. => 10
  | ifElse .. => 14

mutual

def pieces : Formula → List Piece
  | name n => [.name n]
  | chain op l r =>
    enclosed (op.level < l.level) l.pieces ++ spaced [op.piece] ++
      enclosed (op.level ≤ r.level) r.pieces
  | power b e =>
    enclosed (1 < b.level) b.pieces ++ spaced [.mark .doubleStar] ++ enclosed (3 < e.level) e.pieces
  | unary op t => op.pieces ++ enclosed (op.level < t.level) t.pieces
  | compare a op b rest =>
    enclosed (9 < a.level) a.pieces ++ spaced op.pieces ++ enclosed (9 < b.level) b.pieces ++
      linkPieces rest
  | ifElse c y n =>
    enclosed (13 < y.level) y.pieces ++ spaced [.word .if] ++ enclosed (13 < c.level) c.pieces ++
      spaced [.word .else] ++ n.pieces
  | call f args =>
    enclosed (1 < f.level) f.pieces ++ .mark .lparen :: argPieces args ++ [.mark .rparen]
  | attr o n => enclosed (1 < o.level) o.pieces ++ [.mark .dot, .name n]
  | subscript o i =>
    enclosed (1 < o.level) o.pieces ++ .mark .lbracket :: i.pieces ++ [.mark .rbracket]

def linkPieces : List (CompareOp × Formula) → List Piece
  | [] => []
  | (op, t) :: rest => spaced op.pieces ++ enclosed (9 < t.level) t.pieces ++ linkPieces rest

def argPieces : List Formula → List Piece
  | [] => []
  | t :: rest => t.pieces ++ moreArgPieces rest

def moreArgPieces : List Formula → List Piece
  | [] => []
  | t :: rest => .mark .comma :: .blank :: t.pieces ++ moreArgPieces rest

end

def text (t : Formula) : String := String.ofList (t.pieces.flatMap Piece.chars)

def kinds (t : Formula) : List TokenKind := t.pieces.filterMap Piece.kind?

/-! ### Nesting -/

-- How many links of a chain of operators, or of calls, subscripts and attributes, end here.
def links : Formula → Nat
  | chain op l _ => (if l.level = op.level then l.links else 0) + 1
  | call o _ | attr o _ | subscript o _ => (if o.level = 1 then o.links else 0) + 1
  | _ => 0

-- How much room is taken with parentheses, if they are needed.
def roomOf (needed : Bool) (room : Nat) : Nat := if needed then room + 1 else room

mutual

/-
How much room a formula takes: one for each operator in front of an operand, one for each pair of
brackets, and in a chain one for each link on the way.
-/
def room : Formula → Nat
  | name _ => 0
  | chain op l r =>
    max (roomOf (op.level < l.level) l.room)
      (roomOf (op.level ≤ r.level) r.room + (chain op l r).links)
  | power b e => max (roomOf (1 < b.level) b.room) (roomOf (3 < e.level) e.room + 1)
  | unary op t => roomOf (op.level < t.level) t.room + 1
  | compare a _ b rest =>
    max (max (roomOf (9 < a.level) a.room) (roomOf (9 < b.level) b.room)) (linksRoom rest)
  | ifElse c y n =>
    max (max (roomOf (13 < y.level) y.room) (roomOf (13 < c.level) c.room)) (n.room + 1)
  | call f args => max (roomOf (1 < f.level) f.room) (argsRoom args + (call f args).links)
  | attr o n => max (roomOf (1 < o.level) o.room) (attr o n).links
  | subscript o i => max (roomOf (1 < o.level) o.room) (i.room + 1 + (subscript o i).links)

def linksRoom : List (CompareOp × Formula) → Nat
  | [] => 0
  | (_, t) :: rest => max (roomOf (9 < t.level) t.room) (linksRoom rest)

def argsRoom : List Formula → Nat
  | [] => 0
  | t :: rest => max (t.room + 1) (argsRoom rest)

end

-- How much room a statement that is this formula takes.
def nesting (t : Formula) : Nat := t.room + 1

end Formula

/-! ### Trees with places -/

def LeftOp.node (loc : Location) (l r : Expr) : LeftOp → Expr
  | or => .boolOp loc .or l r
  | and => .boolOp loc .and l r
  | bitOr => .binary loc .bitOr l r
  | bitXor => .binary loc .bitXor l r
  | bitAnd => .binary loc .bitAnd l r
  | shiftLeft => .binary loc .shiftLeft l r
  | shiftRight => .binary loc .shiftRight l r
  | add => .binary loc .add l r
  | sub => .binary loc .sub l r
  | mul => .binary loc .mul l r
  | div => .binary loc .div l r
  | floorDiv => .binary loc .floorDiv l r
  | mod => .binary loc .mod l r

-- The expression is the formula, with a place at each node.
inductive Expr.Forms : Expr → Formula → Prop
  | name (loc : Location) (n : Identifier) : Forms (.name loc n.text) (.name n)
  | chain (loc : Location) (op : LeftOp) {a b : Expr} {l r : Formula} (left : Forms a l)
    (right : Forms b r) : Forms (op.node loc a b) (.chain op l r)
  | power (loc : Location) {a b : Expr} {l r : Formula} (base : Forms a l) (exponent : Forms b r) :
    Forms (.binary loc .pow a b) (.power l r)
  | unary (loc : Location) (op : UnaryOp) {a : Expr} {t : Formula} (operand : Forms a t) :
    Forms (.unary loc op a) (.unary op t)
  | compare (loc : Location) (op : CompareOp) {a b : Expr} {l r : Formula}
    {es : List (CompareOp × Expr)} {rest : List (CompareOp × Formula)} (first : Forms a l)
    (second : Forms b r) (ops : es.map Prod.fst = rest.map Prod.fst)
    (others : List.Forall₂ Forms (es.map Prod.snd) (rest.map Prod.snd)) :
    Forms (.compare loc a ((op, b) :: es)) (.compare l op r rest)
  | ifElse (loc : Location) {a b c : Expr} {x y z : Formula} (condition : Forms a x)
    (yes : Forms b y) (no : Forms c z) : Forms (.ifElse loc a b c) (.ifElse x y z)
  | call (loc : Location) {a : Expr} {t : Formula} {es : List Expr} {args : List Formula}
    (callee : Forms a t) (inside : List.Forall₂ Forms es args) :
    Forms (.call loc a es []) (.call t args)
  | attr (loc : Location) (n : Identifier) {a : Expr} {t : Formula} (object : Forms a t) :
    Forms (.attr loc a n.text) (.attr t n)
  | subscript (loc : Location) {a b : Expr} {t i : Formula} (object : Forms a t)
    (index : Forms b i) : Forms (.subscript loc a b) (.subscript t i)

/-! ### Tokens -/

def LeftOp.kind : LeftOp → TokenKind
  | or => .keyword .or
  | and => .keyword .and
  | bitOr => .symbol .pipe
  | bitXor => .symbol .caret
  | bitAnd => .symbol .amp
  | shiftLeft => .symbol .ltLt
  | shiftRight => .symbol .gtGt
  | add => .symbol .plus
  | sub => .symbol .minus
  | mul => .symbol .star
  | div => .symbol .slash
  | floorDiv => .symbol .doubleSlash
  | mod => .symbol .percent

def UnaryOp.kind : UnaryOp → TokenKind
  | neg => .symbol .minus
  | pos => .symbol .plus
  | bitNot => .symbol .tilde
  | not => .keyword .not

def CompareOp.kinds (op : CompareOp) : List TokenKind := op.pieces.filterMap Piece.kind?

namespace Formula

@[induction_eliminator]
theorem induction {P : Formula → Prop} (name : ∀ n, P (.name n))
    (chain : ∀ op l r, P l → P r → P (.chain op l r))
    (power : ∀ b e, P b → P e → P (.power b e)) (unary : ∀ op t, P t → P (.unary op t))
    (compare : ∀ a op b (rest : List (CompareOp × Formula)), P a → P b → (∀ link ∈ rest, P link.2) →
      P (.compare a op b rest))
    (ifElse : ∀ c y n, P c → P y → P n → P (.ifElse c y n))
    (call : ∀ f args, P f → (∀ t ∈ args, P t) → P (.call f args))
    (attr : ∀ o n, P o → P (.attr o n)) (subscript : ∀ o i, P o → P i → P (.subscript o i))
    (t : Formula) : P t :=
  Formula.rec (motive_1 := P) (motive_2 := fun rest => ∀ link ∈ rest, P link.2)
    (motive_3 := fun args => ∀ t ∈ args, P t) (motive_4 := fun link => P link.2)
    name chain power unary compare ifElse call attr subscript (List.forall_mem_nil _)
    (fun _ _ first others => List.forall_mem_cons.2 ⟨first, others⟩) (List.forall_mem_nil _)
    (fun _ _ first others => List.forall_mem_cons.2 ⟨first, others⟩) (fun _ _ => id) t

-- The tokens of an operand in a place that takes operators up to a level.
def kindsAt (t : Formula) (place : Nat) : List TokenKind :=
  if place < t.level then .symbol .lparen :: t.kinds ++ [.symbol .rparen] else t.kinds

def roomAt (t : Formula) (place : Nat) : Nat := roomOf (place < t.level) t.room

theorem kinds_enclosed (t : Formula) (place : Nat) :
    (enclosed (place < t.level) t.pieces).filterMap Piece.kind? = t.kindsAt place := by
  rw [enclosed, kindsAt, kinds]
  by_cases needed : place < t.level
  · simp [needed, Piece.kind?]
  · simp [needed]

end Formula

theorem LeftOp.level_pos (op : LeftOp) : 0 < op.level := by cases op <;> decide

theorem kinds_spaced (ps : List Piece) :
    (spaced ps).filterMap Piece.kind? = ps.filterMap Piece.kind? := by
  simp [spaced, List.filterMap_cons, Piece.kind?]

namespace Formula

attribute [local simp] Piece.kind? pieces linkPieces argPieces moreArgPieces

theorem kinds_name (n : Identifier) : (name n).kinds = [.ident n.text] := by
  simp [kinds]

theorem kinds_chain (op : LeftOp) (l r : Formula) :
    (chain op l r).kinds = l.kindsAt op.level ++ op.kind :: r.kindsAt (op.level - 1) := by
  have tighter : decide (op.level ≤ r.level) = decide (op.level - 1 < r.level) :=
    decide_eq_decide.2 (by have := op.level_pos; omega)
  have operator : [op.piece].filterMap Piece.kind? = [op.kind] := by cases op <;> rfl
  rw [kinds, pieces, tighter]
  simp only [List.filterMap_append, kinds_enclosed, kinds_spaced, operator]
  simp

theorem kinds_power (b e : Formula) :
    (power b e).kinds = b.kindsAt 1 ++ .symbol .doubleStar :: e.kindsAt 3 := by
  rw [kinds, pieces]
  simp only [List.filterMap_append, kinds_enclosed, kinds_spaced]
  simp

theorem kinds_unary (op : UnaryOp) (t : Formula) :
    (unary op t).kinds = op.kind :: t.kindsAt op.level := by
  have operator : op.pieces.filterMap Piece.kind? = [op.kind] := by cases op <;> rfl
  rw [kinds, pieces, List.filterMap_append, kinds_enclosed, operator]
  rfl

-- The tokens of the links of a comparison after the first one.
def linkKinds (rest : List (CompareOp × Formula)) : List TokenKind :=
  rest.flatMap fun link => link.1.kinds ++ link.2.kindsAt 9

theorem linkKinds_eq (rest : List (CompareOp × Formula)) :
    (linkPieces rest).filterMap Piece.kind? = linkKinds rest := by
  induction rest with
  | nil => simp [linkKinds]
  | cons link rest ih =>
    obtain ⟨op, t⟩ := link
    rw [linkPieces, List.filterMap_append, List.filterMap_append, kinds_enclosed, kinds_spaced, ih]
    rfl

theorem kinds_compare (a : Formula) (op : CompareOp) (b : Formula)
    (rest : List (CompareOp × Formula)) :
    (compare a op b rest).kinds = a.kindsAt 9 ++ linkKinds ((op, b) :: rest) := by
  rw [kinds, pieces]
  simp only [List.filterMap_append, kinds_enclosed, kinds_spaced, linkKinds_eq]
  simp [linkKinds, CompareOp.kinds]

theorem kinds_ifElse (c y n : Formula) :
    (ifElse c y n).kinds =
      y.kindsAt 13 ++ .keyword .if :: (c.kindsAt 13 ++ .keyword .else :: n.kinds) := by
  rw [kinds, pieces]
  simp only [List.filterMap_append, kinds_enclosed, kinds_spaced]
  simp [kinds]

-- The tokens of the arguments of a call after the first one.
def moreArgKinds (args : List Formula) : List TokenKind :=
  args.flatMap fun t => .symbol .comma :: t.kinds

def argKinds : List Formula → List TokenKind
  | [] => []
  | t :: rest => t.kinds ++ moreArgKinds rest

theorem moreArgKinds_eq (args : List Formula) :
    (moreArgPieces args).filterMap Piece.kind? = moreArgKinds args := by
  induction args with
  | nil => simp [moreArgKinds]
  | cons t rest ih =>
    rw [moreArgPieces, List.filterMap_append, ih]
    simp [List.filterMap_cons, moreArgKinds, kinds]

theorem argKinds_eq (args : List Formula) :
    (argPieces args).filterMap Piece.kind? = argKinds args := by
  cases args with
  | nil => simp [argKinds]
  | cons t rest =>
    rw [argPieces, List.filterMap_append, moreArgKinds_eq]
    rfl

theorem kinds_call (f : Formula) (args : List Formula) :
    (call f args).kinds =
      f.kindsAt 1 ++ .symbol .lparen :: (argKinds args ++ [.symbol .rparen]) := by
  rw [kinds, pieces]
  simp only [List.filterMap_append, List.filterMap_cons, kinds_enclosed, argKinds_eq]
  simp

theorem kinds_attr (o : Formula) (n : Identifier) :
    (attr o n).kinds = o.kindsAt 1 ++ [.symbol .dot, .ident n.text] := by
  rw [kinds, pieces, List.filterMap_append, kinds_enclosed]
  rfl

theorem kinds_subscript (o i : Formula) :
    (subscript o i).kinds =
      o.kindsAt 1 ++ .symbol .lbracket :: (i.kinds ++ [.symbol .rbracket]) := by
  rw [kinds, pieces]
  simp only [List.filterMap_append, List.filterMap_cons, kinds_enclosed]
  simp [kinds]

end Formula

/-! ### First tokens -/

-- The level of what a token starts; 15 where it starts nothing.
def TokenKind.opens : TokenKind → Nat
  | .ident _ | .symbol .lparen => 0
  | .symbol .minus | .symbol .plus | .symbol .tilde => 3
  | .keyword .not => 11
  | _ => 15

-- The pieces start with a token that starts something of this level.
def Starts (ps : List Piece) (level : Nat) : Prop :=
  ∃ p rest kind, ps = p :: rest ∧ p.kind? = some kind ∧ kind.opens ≤ level

namespace Starts

variable {ps : List Piece} {level level' : Nat}

theorem mono (h : Starts ps level) (le : level ≤ level') : Starts ps level' := by
  obtain ⟨p, rest, kind, same, token, opens⟩ := h
  exact ⟨p, rest, kind, same, token, Nat.le_trans opens le⟩

theorem append (h : Starts ps level) (more : List Piece) : Starts (ps ++ more) level := by
  obtain ⟨p, rest, kind, rfl, token, opens⟩ := h
  exact ⟨p, rest ++ more, kind, rfl, token, opens⟩

theorem enclosed {place own : Nat} (h : Starts ps own) :
    Starts (enclosed (place < own) ps) place := by
  rw [StepTrace.enclosed]
  by_cases needed : place < own
  · rw [if_pos (decide_eq_true needed)]
    exact ⟨_, _, _, rfl, rfl, Nat.zero_le _⟩
  · rw [if_neg (by simpa using needed)]
    exact h.mono (Nat.le_of_not_lt needed)

end Starts

theorem Formula.starts (t : Formula) : Starts t.pieces t.level := by
  induction t with
  | name n => exact ⟨_, _, _, by rw [pieces], rfl, Nat.le_refl _⟩
  | chain op l r left right =>
    rw [pieces, List.append_assoc]
    exact left.enclosed.append _
  | power b e base exponent =>
    rw [pieces, List.append_assoc]
    exact (base.enclosed.append _).mono (Nat.le_succ 1)
  | unary op t operand =>
    rw [pieces]
    cases op <;> exact ⟨_, _, _, rfl, rfl, Nat.le_refl _⟩
  | compare a op b rest first =>
    rw [pieces, List.append_assoc, List.append_assoc]
    exact (first.enclosed.append _).mono (Nat.le_succ 9)
  | ifElse c y n condition yes no =>
    rw [pieces, List.append_assoc, List.append_assoc, List.append_assoc]
    exact (yes.enclosed.append _).mono (Nat.le_succ 13)
  | call f args callee =>
    rw [pieces, List.append_assoc]
    exact callee.enclosed.append _
  | attr o n object =>
    rw [pieces]
    exact object.enclosed.append _
  | subscript o i object =>
    rw [pieces, List.append_assoc]
    exact object.enclosed.append _

/-! ### One formula for an expression -/

theorem LeftOp.node_inj {op op' : LeftOp} {loc loc' : Location} {a b a' b' : Expr}
    (h : op.node loc a b = op'.node loc' a' b') : op = op' ∧ a = a' ∧ b = b' := by
  cases op <;> cases op' <;> first | (cases h; exact ⟨rfl, rfl, rfl⟩) | cases h

namespace Expr.Forms

theorem all_unique {es : List Expr} {ts ts' : List Formula}
    (unique : ∀ t ∈ ts, ∀ (e : Expr) (t' : Formula), e.Forms t → e.Forms t' → t' = t)
    (h : List.Forall₂ Forms es ts) (h' : List.Forall₂ Forms es ts') : ts' = ts := by
  induction h generalizing ts' with
  | nil => exact List.forall₂_nil_left_iff.1 h'
  | @cons e t es ts first others ih =>
    obtain ⟨t', rest, first', others', rfl⟩ := List.forall₂_cons_left_iff.1 h'
    obtain ⟨uniqueFirst, uniqueOthers⟩ := List.forall_mem_cons.1 unique
    rw [uniqueFirst e t' first first', ih uniqueOthers others']

-- An expression is one formula only.
theorem unique {e : Expr} {t t' : Formula} (h : e.Forms t) (h' : e.Forms t') : t' = t := by
  induction t generalizing e t' with
  | name n =>
    cases h
    generalize same : Expr.name _ _ = e at h'
    cases h' with
    | chain loc op => cases op <;> cases same
    | name loc n' =>
      injection same with _ text
      rw [Identifier.ext text]
    | _ => cases same
  | chain op l r left right =>
    cases h with
    | chain loc op ha hb =>
      generalize same : op.node loc _ _ = e at h'
      cases h' with
      | chain loc' op' ha' hb' =>
        obtain ⟨rfl, rfl, rfl⟩ := LeftOp.node_inj same
        rw [left ha ha', right hb hb']
      | _ => cases op <;> cases same
  | power b e base exponent =>
    cases h with
    | power loc ha hb =>
      generalize same : Expr.binary loc .pow _ _ = e at h'
      cases h' with
      | chain loc' op' ha' hb' => cases op' <;> cases same
      | power loc' ha' hb' =>
        cases same
        rw [base ha ha', exponent hb hb']
      | _ => cases same
  | unary op t operand =>
    cases h with
    | unary loc op ha =>
      generalize same : Expr.unary loc op _ = e at h'
      cases h' with
      | chain loc' op' ha' hb' => cases op' <;> cases same
      | unary loc' op' ha' =>
        cases same
        rw [operand ha ha']
      | _ => cases same
  | compare a op b rest first second others =>
    cases h with
    | compare loc op ha hb ops inside =>
      generalize same : Expr.compare loc _ _ = e at h'
      cases h' with
      | chain loc' op' ha' hb' => cases op' <;> cases same
      | compare loc' op' ha' hb' ops' inside' =>
        cases same
        have operands := all_unique (List.forall_mem_map.2 fun link among _ _ => others link among)
          inside inside'
        rw [first ha ha', second hb hb', List.zip_of_prod (ops'.symm.trans ops) operands,
          ← List.zip_of_prod rfl rfl]
      | _ => cases same
  | ifElse c y n condition yes no =>
    cases h with
    | ifElse loc ha hb hc =>
      generalize same : Expr.ifElse loc _ _ _ = e at h'
      cases h' with
      | chain loc' op' ha' hb' => cases op' <;> cases same
      | ifElse loc' ha' hb' hc' =>
        cases same
        rw [condition ha ha', yes hb hb', no hc hc']
      | _ => cases same
  | call f args callee inside =>
    cases h with
    | call loc ha hs =>
      generalize same : Expr.call loc _ _ _ = e at h'
      cases h' with
      | chain loc' op' ha' hb' => cases op' <;> cases same
      | call loc' ha' hs' =>
        cases same
        rw [callee ha ha', all_unique (fun t among _ _ => inside t among) hs hs']
      | _ => cases same
  | attr o n object =>
    cases h with
    | attr loc n ha =>
      generalize same : Expr.attr loc _ n.text = e at h'
      cases h' with
      | chain loc' op' ha' hb' => cases op' <;> cases same
      | attr loc' n' ha' =>
        injection same with _ objects text
        subst objects
        rw [object ha ha', Identifier.ext text]
      | _ => cases same
  | subscript o i object index =>
    cases h with
    | subscript loc ha hb =>
      generalize same : Expr.subscript loc _ _ = e at h'
      cases h' with
      | chain loc' op' ha' hb' => cases op' <;> cases same
      | subscript loc' ha' hb' =>
        cases same
        rw [object ha ha', index hb hb']
      | _ => cases same

end Expr.Forms

end StepTrace
