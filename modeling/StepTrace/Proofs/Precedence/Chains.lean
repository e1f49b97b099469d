import StepTrace.Proofs.Precedence.Operators

/-!
Reading chains: of operators that associate to the left, and of calls, subscripts and attributes.
Every link of a chain takes room, which the links after it no longer have.
-/

set_option autoImplicit false

namespace StepTrace

open Parse

namespace Formula

-- How many links of a chain at this level end with the formula.
def linksAt (t : Formula) (level : Nat) : Nat := if t.level = level then t.links else 0

theorem kindsAt_succ {t : Formula} {place : Nat} (other : t.level ≠ place + 1) :
    t.kindsAt (place + 1) = t.kindsAt place := by
  have same : place + 1 < t.level ↔ place < t.level := by omega
  simp only [kindsAt, same]

theorem roomAt_succ {t : Formula} {place : Nat} (other : t.level ≠ place + 1) :
    t.roomAt (place + 1) = t.roomAt place := by
  have same : place + 1 < t.level ↔ place < t.level := by omega
  simp only [roomAt, same]

theorem kindsAt_level (t : Formula) : t.kindsAt t.level = t.kinds := if_neg (Nat.lt_irrefl _)

theorem roomAt_level (t : Formula) : t.roomAt t.level = t.room := by
  simp [roomAt, roomOf]

end Formula

theorem Formula.linksAt_level (t : Formula) : t.linksAt t.level = t.links := if_pos rfl

/-
At a level whose operators make chains, the formula is read as the start of a chain, and what comes
after it has the room that its links leave.
-/
def Leads (level : Nat) (t : Formula) : Prop :=
  ∀ (field : String → Location → Except SyntaxError Expr) (levels room : Nat) (c : Cursor)
    (f : TokenKind) (more : List TokenKind) (G : Prop) (Q : Expr → Cursor → Prop),
    (t.kindsAt level).length ≤ levels → level ≤ f.continues →
    c.Holds (t.kindsAt level ++ f :: more) →
    (∀ e d, e.Forms t → d.Holds (f :: more) → t.linksAt level ≤ room →
      ((readers field levels).restAt level (room - t.linksAt level) e).Decides d G Q) →
    ((readers field levels).readerAt level room).Decides c (t.roomAt level ≤ room ∧ G) Q

namespace Leads

variable {level : Nat} {t : Formula}

-- An operand of the chain that is no chain of this level itself.
theorem of_takes (known : level + 1 ∈ chainLevels) (other : t.level ≠ level + 1)
    (h : Takes level (t.kindsAt level) (t.roomAt level) (·.Forms t)) : Leads (level + 1) t := by
  intro field levels room c f more G Q enough stops holds after
  have alone : t.linksAt (level + 1) = 0 := if_neg other
  rw [Formula.kindsAt_succ other] at enough holds
  rw [readerAt_of_chain known, Formula.roomAt_succ other]
  refine (h field levels room c f more enough stops holds).bind ?_
  rintro e d ⟨he, hd⟩
  have rest := after e d he hd (by omega)
  rwa [alone, Nat.sub_zero] at rest

theorem takes (h : Leads level t) (known : level ∈ chainLevels) :
    Takes level (t.kindsAt level) (t.roomAt level) (·.Forms t) := by
  intro field levels room c f more enough stops holds
  refine (h field levels room c f more True _ enough (Nat.le_of_lt stops) holds ?_).congr
    (and_iff_left trivial)
  intro e d he hd _
  exact .ok (restAt_stops known stops e hd) ⟨he, hd⟩

end Leads

/-! ### One more link -/

/-
After an expression that is the first formula the tokens are one more link of a chain, which makes
it the second one.
-/
def Links (level : Nat) (ks : List TokenKind) (need : Nat) (o t : Formula) : Prop :=
  ∀ (field : String → Location → Except SyntaxError Expr) (levels room : Nat) (c : Cursor)
    (f : TokenKind) (more : List TokenKind) (G : Prop) (Q : Expr → Cursor → Prop) (a : Expr),
    ks.length ≤ levels → level ≤ f.continues → c.Holds (ks ++ f :: more) → a.Forms o →
    (∀ left e d, room = left + 1 → e.Forms t → d.Holds (f :: more) →
      ((readers field levels).restAt level left e).Decides d G Q) →
    ((readers field levels).restAt level room a).Decides c (need + 1 ≤ room ∧ G) Q

theorem Parse.Decides.deeper_and {α : Type} {inner : Nat → Parse α} {c : Cursor} {need room : Nat}
    {G : Prop} {Q : α → Cursor → Prop}
    (h : ∀ left, room = left + 1 → (inner left).Decides c (need ≤ left ∧ G) Q) :
    (StepTrace.deeper inner room).Decides c (need + 1 ≤ room ∧ G) Q := by
  cases room with
  | zero => exact tooDeep.congr (iff_of_false not_false fun both => absurd both.1 (by omega))
  | succ left => exact (h left rfl).congr (by rw [Nat.succ_le_succ_iff])

theorem Leads.extend {o t : Formula} {k : TokenKind} {ks : List TokenKind} {need : Nat}
    (start : Leads t.level o) (link : Links t.level (k :: ks) need o t)
    (continues : k.continues = t.level) (kinds : t.kinds = o.kindsAt t.level ++ k :: ks)
    (links : t.links = o.linksAt t.level + 1)
    (fits : t.room = max (o.roomAt t.level) (need + t.links)) : Leads t.level t := by
  intro field levels room c f more G Q enough stops holds after
  rw [t.kindsAt_level, kinds] at enough holds
  rw [t.roomAt_level, fits, links, max_le_iff, and_assoc]
  rw [t.linksAt_level, links] at after
  rw [List.length_append] at enough
  rw [List.append_assoc] at holds
  refine start field levels room c k (ks ++ f :: more) _ Q (by omega) continues.ge holds ?_
  intro a d ha hd spent
  refine (link field levels _ d f more G Q a (by omega) stops hd ha ?_).congr ?_
  · intro left e d' room_eq he hd'
    have rest := after e d' he hd' (by omega)
    rwa [← Nat.sub_sub, room_eq, Nat.add_sub_cancel] at rest
  · exact and_congr_left' (by omega)

/-! ### Operators -/

namespace LeftOp

theorem chained (op : LeftOp) : op.level ∈ chainLevels := by cases op <;> decide

theorem continues_kind (op : LeftOp) : op.kind.continues = op.level := by cases op <;> rfl

theorem kind_ne_eof (op : LeftOp) : op.kind ≠ .eof := by cases op <;> exact nofun

end LeftOp

theorem restAt_of_operator {inner : Inner} {room : Nat} {op : LeftOp} {left : Expr} {c : Cursor}
    {ks : List TokenKind} (holds : c.Holds (op.kind :: ks)) :
    inner.restAt op.level room left c = deeper (fun r => do
      let right ← inner.readerAt (op.level - 1) r
      inner.restAt op.level r (op.node c.advance.previous left right)) room c.advance := by
  cases op <;> cases room <;>
    exact (bind_ok (p := kind) (c := c) rfl).trans (by rw [holds.peek]; rfl)

theorem Links.chain {op : LeftOp} {l r : Formula} (right : Takes (op.level - 1)
      (r.kindsAt (op.level - 1)) (r.roomAt (op.level - 1)) (·.Forms r)) :
    Links op.level (op.kind :: r.kindsAt (op.level - 1)) (r.roomAt (op.level - 1)) l
      (.chain op l r) := by
  intro field levels room c f more G Q a enough stops holds ha after
  have stops' : op.level - 1 < f.continues := by
    have := op.level_pos
    omega
  refine .of_eq (restAt_of_operator holds) (.deeper_and fun left fits => ?_)
  refine (right field levels left c.advance f more (Nat.le_of_succ_le enough) stops'
    (holds.advance op.kind_ne_eof)).bind ?_
  rintro b d ⟨hb, hd⟩
  exact after left _ d fits (.chain _ op ha hb) hd

theorem Leads.chain {op : LeftOp} {l r : Formula} (left : Leads op.level l)
    (right : Takes (op.level - 1) (r.kindsAt (op.level - 1)) (r.roomAt (op.level - 1))
      (·.Forms r)) :
    Leads op.level (.chain op l r) := by
  have tighter : op.level ≤ r.level ↔ op.level - 1 < r.level := by
    have := op.level_pos
    omega
  refine Leads.extend (t := .chain op l r) left (.chain right) op.continues_kind
    (Formula.kinds_chain op l r) (by rw [Formula.links]; rfl) ?_
  rw [Formula.room]
  simp only [tighter]
  rfl

/-! ### Attributes -/

theorem restAt_of_suffix {inner : Inner} {room : Nat} {s : Symbol} {left : Expr} {c : Cursor}
    {ks : List TokenKind} (known : s ∈ [.lparen, .lbracket, .dot])
    (holds : c.Holds (.symbol s :: ks)) :
    inner.restAt 1 room left c =
      deeper (fun r => suffix inner r left (inner.restAt 1 r) c.peek.loc s) room c := by
  simp only [List.mem_cons, List.not_mem_nil, or_false] at known
  rcases known with rfl | rfl | rfl <;> cases room <;>
    exact (bind_ok (peek_of holds)).trans rfl

theorem Links.attr (o : Formula) (n : Identifier) :
    Links 1 [.symbol .dot, .ident n.text] 0 o (.attr o n) := by
  intro field levels room c f more G Q a enough stops holds ha after
  refine .of_eq (restAt_of_suffix (by simp) holds) (.deeper_and fun left fits => ?_)
  have named : identifier c.advance = .ok (n.text, c.advance.advance) := by
    refine (bind_ok (p := kind) (c := c.advance) rfl).trans ?_
    rw [(Cursor.Holds.symbol holds).peek]
    rfl
  refine .bind_ok (advance_eq c) (.bind_ok named ?_)
  exact (after left _ _ fits (.attr _ n ha) (holds.symbol.advance nofun)).congr (by simp)

theorem Leads.attr {o : Formula} (object : Leads 1 o) (n : Identifier) : Leads 1 (.attr o n) := by
  refine Leads.extend (t := .attr o n) object (.attr o n) rfl (Formula.kinds_attr o n)
    (by rw [Formula.links]; rfl) ?_
  rw [Formula.room, Nat.zero_add]
  rfl

/-! ### Subscripts -/

theorem Links.subscript (o : Formula) {i : Formula} (index : Takes 14 i.kinds i.room (·.Forms i)) :
    Links 1 (.symbol .lbracket :: (i.kinds ++ [.symbol .rbracket])) (i.room + 1) o
      (.subscript o i) := by
  intro field levels room c f more G Q a enough stops holds ha after
  refine .of_eq (restAt_of_suffix (by simp) holds) (.deeper_and fun left fits => ?_)
  have inside : c.advance.Holds (i.kinds ++ .symbol .rbracket :: f :: more) := by
    simpa using Cursor.Holds.symbol holds
  have noSlice : isSymbol .colon c.advance = .ok (false, c.advance) := by
    obtain ⟨k, rest, same, first⟩ := i.opens
    rw [same] at inside
    have opens := Nat.le_trans first i.level_le
    rw [isSymbol_of inside, TokenKind.isSymbol_of_opens opens (by simp)]
  have shorter : i.kinds.length < levels := by
    simp only [List.length_append, List.length_cons] at enough
    omega
  have read : (StepTrace.index (readers field levels) left).Decides c.advance (i.room + 1 ≤ left)
      fun e d => e.Forms i ∧ d.Holds (.symbol .rbracket :: f :: more) := by
    refine .bind_ok (here_eq _) (.bind_ok noSlice ?_)
    refine (index.expressionList shorter (by decide) rfl inside).finish ?_
    rintro e d ⟨he, hd⟩
    exact ⟨e, d, (bind_ok (isSymbol_of hd)).trans rfl, he, hd⟩
  refine .bind_ok (advance_eq c) (read.bind ?_)
  rintro e d ⟨he, hd⟩
  exact .bind_ok (expect_of hd rfl) (after left _ _ fits (.subscript _ ha he) hd.symbol)

theorem Leads.subscript {o i : Formula} (object : Leads 1 o)
    (index : Takes 14 i.kinds i.room (·.Forms i)) : Leads 1 (.subscript o i) := by
  refine Leads.extend (t := .subscript o i) object (.subscript o index) rfl
    (Formula.kinds_subscript o i) (by rw [Formula.links]; rfl) ?_
  rw [Formula.room]
  rfl

/-! ### Calls -/

namespace Formula

theorem moreArgKinds_cons (t : Formula) (rest : List Formula) :
    moreArgKinds (t :: rest) = .symbol .comma :: (t.kinds ++ moreArgKinds rest) := by
  rw [moreArgKinds, List.flatMap_cons, List.cons_append]
  rfl

theorem moreArgKinds_next (rest : List Formula) (more : List TokenKind) :
    ∃ s ∈ [Symbol.comma, .rparen], ∃ ks,
      moreArgKinds rest ++ .symbol .rparen :: more = .symbol s :: ks := by
  cases rest with
  | nil => exact ⟨.rparen, by simp, more, rfl⟩
  | cons t rest => exact ⟨.comma, by simp, _, by rw [moreArgKinds_cons]; rfl⟩

theorem of_mem_moreArgKinds {k : TokenKind} {args : List Formula} (h : k ∈ moreArgKinds args) :
    k = .symbol .comma ∨ ∃ t ∈ args, k ∈ t.kinds := by
  obtain ⟨t, here, inside⟩ := List.mem_flatMap.1 h
  exact (List.mem_cons.1 inside).imp_right fun inside => ⟨t, here, inside⟩

theorem of_mem_argKinds {k : TokenKind} {args : List Formula} (h : k ∈ argKinds args) :
    k = .symbol .comma ∨ ∃ t ∈ args, k ∈ t.kinds := by
  cases args with
  | nil => cases h
  | cons t rest =>
    rcases List.mem_append.1 h with inside | inside
    · exact .inr ⟨t, List.mem_cons_self, inside⟩
    · refine (of_mem_moreArgKinds inside).imp_right ?_
      rintro ⟨t', here, inside⟩
      exact ⟨t', List.mem_cons_of_mem _ here, inside⟩

-- No formula has the sign that binds an argument to a name.
theorem eq_notMem_kinds (t : Formula) : .symbol .eq ∉ t.kinds := by
  have within : ∀ {t : Formula} {place : Nat}, TokenKind.symbol .eq ∉ t.kinds →
      TokenKind.symbol .eq ∉ t.kindsAt place := by
    intro t place absent
    rw [kindsAt]
    split <;> simp [absent]
  induction t with
  | name n => simp [kinds_name]
  | chain op l r left right =>
    cases op <;> simp [kinds_chain, LeftOp.kind, within left, within right]
  | power b e base exponent => simp [kinds_power, within base, within exponent]
  | unary op t operand => cases op <;> simp [kinds_unary, UnaryOp.kind, within operand]
  | compare a op b rest first second others =>
    rw [kinds_compare, List.mem_append, linkKinds, List.mem_flatMap]
    rintro (here | ⟨link, among, here⟩)
    · exact within first here
    · rcases List.mem_append.1 here with here | here
      · revert here
        cases link.1 <;> simp [CompareOp.kinds, CompareOp.pieces, Piece.kind?]
      · refine within ?_ here
        rcases List.mem_cons.1 among with rfl | among
        · exact second
        · exact others link among
  | ifElse c y n condition yes no => simp [kinds_ifElse, within condition, within yes, no]
  | call f args callee inside =>
    have absent : TokenKind.symbol .eq ∉ argKinds args := by
      intro here
      rcases of_mem_argKinds here with same | ⟨t, among, here⟩
      · cases same
      · exact inside t among here
    simp [kinds_call, within callee, absent]
  | attr o n object => simp [kinds_attr, within object]
  | subscript o i object index => simp [kinds_subscript, within object, index]

end Formula

theorem startsKeyword_of {c : Cursor} {k k' : TokenKind} {ks : List TokenKind}
    (holds : c.Holds (k :: k' :: ks)) (other : k' ≠ .symbol .eq) :
    startsKeyword c = .ok (false, c) := by
  obtain ⟨⟨kind, loc⟩, ts, rest, rfl, after⟩ := List.map_eq_cons_iff.1 holds
  obtain ⟨⟨kind', loc'⟩, ts', rfl, rfl, -⟩ := List.map_eq_cons_iff.1 after
  refine (bind_ok (p := get) (c := c) rfl).trans ?_
  rw [rest]
  dsimp only at other
  cases kind with
  | ident name =>
    cases kind' with
    | symbol s => cases s <;> first | rfl | exact absurd rfl other
    | _ => rfl
  | _ => rfl

section

variable {field : String → Location → Except SyntaxError Expr} {levels room : Nat} {c : Cursor}
  {more : List TokenKind}

theorem argument_of {t : Formula} (takes : Takes 14 t.kinds t.room (·.Forms t)) {s : Symbol}
    (after : s ∈ [.comma, .rparen]) (enough : t.kinds.length < levels)
    (holds : c.Holds (t.kinds ++ .symbol s :: more)) {before : List Argument}
    (positional : before.any (·.keyword?.isSome) = false) :
    (arguments.argument (readers field levels) room before).Decides c (t.room + 1 ≤ room)
      fun a d => (∃ e, a = .positional e ∧ e.Forms t) ∧ d.Holds (.symbol s :: more) := by
  obtain ⟨k, rest, same, first⟩ := t.opens
  have opens := Nat.le_trans first t.level_le
  have stops : 14 < (TokenKind.symbol s).continues := by
    simp only [List.mem_cons, List.not_mem_nil, or_false] at after
    rcases after with rfl | rfl <;> decide
  have here : c.Holds (k :: (rest ++ .symbol s :: more)) := by
    rw [← List.cons_append, ← same]
    exact holds
  have star : isSymbol .star c = .ok (false, c) := by
    rw [isSymbol_of here, TokenKind.isSymbol_of_opens opens (by simp)]
  have doubleStar : isSymbol .doubleStar c = .ok (false, c) := by
    rw [isSymbol_of here, TokenKind.isSymbol_of_opens opens (by simp)]
  have plain : startsKeyword c = .ok (false, c) := by
    have absent := t.eq_notMem_kinds
    rw [same] at absent
    cases rest with
    | nil =>
      refine startsKeyword_of here ?_
      simp only [List.mem_cons, List.not_mem_nil, or_false] at after
      rcases after with rfl | rfl <;> exact nofun
    | cons k' rest =>
      refine startsKeyword_of here ?_
      rintro rfl
      exact absent (by simp)
  refine .bind_ok star (.bind_ok doubleStar (.bind_ok plain ?_))
  simp only [Bool.false_eq_true, if_false, positional]
  refine .bind_ok (here_eq c) ((takes.expression enough stops holds).finish ?_)
  rintro e d ⟨he, hd⟩
  have single : isKeyword .for d = .ok (false, d) := isKeyword_of hd
  exact ⟨_, d, (bind_ok single).trans rfl, ⟨e, rfl, he⟩, hd⟩

theorem moreArguments_of {args : List Formula}
    (inside : ∀ t ∈ args, Takes 14 t.kinds t.room (·.Forms t))
    (enough : (Formula.moreArgKinds args).length < levels)
    (holds : c.Holds (Formula.moreArgKinds args ++ .symbol .rparen :: more)) {done : List Argument}
    (positional : done.any (·.keyword?.isSome) = false) :
    Decides (collect (fun done => do
        if ← accept .comma then
          if ← isSymbol .rparen then return none
          return some (← arguments.argument (readers field levels) room done)
        return none) done) c (Formula.argsRoom args ≤ room)
      fun as d => ∃ es : List Expr, as = done.reverse ++ es.map .positional ∧
        List.Forall₂ Expr.Forms es args ∧ d.Holds (.symbol .rparen :: more) := by
  induction args generalizing c done with
  | nil =>
    refine (Decides.collect_none ((bind_ok (accept_of_other holds rfl)).trans rfl)
      ⟨[], by simp, .nil, holds⟩).congr ?_
    simp [Formula.argsRoom]
  | cons t rest ih =>
    obtain ⟨argument, others⟩ := List.forall_mem_cons.1 inside
    obtain ⟨s, after, ks, next⟩ := Formula.moreArgKinds_next rest more
    rw [Formula.moreArgKinds_cons] at enough holds
    simp only [List.length_cons, List.length_append] at enough
    rw [List.cons_append, List.append_assoc, next] at holds
    have opened : isSymbol .rparen c.advance = .ok (false, c.advance) := by
      obtain ⟨k, rest', same, first⟩ := t.opens
      have opens := Nat.le_trans first t.level_le
      have here := holds.symbol
      rw [same] at here
      rw [isSymbol_of here, TokenKind.isSymbol_of_opens opens (by simp)]
    have shorter : t.kinds.length < levels := by omega
    refine (Decides.collect_some (G := Formula.argsRoom rest ≤ room)
      (.bind_ok (accept_of holds rfl) (.bind_ok opened
        ((argument_of argument after shorter holds.symbol positional).finish fun a d q =>
          ⟨some a, d, rfl, a, rfl, q⟩))) ?_ ?_).congr ?_
    · rintro a d ⟨-, hd⟩
      rw [hd.length, holds.length]
      simp only [List.length_cons, List.length_append]
      omega
    · rintro _ d ⟨⟨e, rfl, he⟩, hd⟩
      rw [← next] at hd
      have positional' : (Argument.positional e :: done).any (·.keyword?.isSome) = false := by
        rw [List.any_cons, positional]
        rfl
      refine (ih others (by omega) hd positional').mono ?_
      rintro as d' ⟨es, rfl, forms, hd'⟩
      exact ⟨e :: es, by simp, .cons he forms, hd'⟩
    · rw [Formula.argsRoom]
      exact max_le_iff.symm

theorem arguments_of {args : List Formula}
    (inside : ∀ t ∈ args, Takes 14 t.kinds t.room (·.Forms t))
    (enough : (Formula.argKinds args).length < levels)
    (holds : c.Holds (Formula.argKinds args ++ .symbol .rparen :: more)) :
    (arguments (readers field levels) room).Decides c (Formula.argsRoom args ≤ room)
      fun as d => ∃ es : List Expr, as = es.map .positional ∧ List.Forall₂ Expr.Forms es args ∧
        d.Holds (.symbol .rparen :: more) := by
  cases args with
  | nil =>
    have empty : isSymbol .rparen c = .ok (true, c) := isSymbol_of holds
    exact (Decides.ok ((bind_ok empty).trans rfl) ⟨[], rfl, .nil, holds⟩).congr
      (by simp [Formula.argsRoom])
  | cons t rest =>
    obtain ⟨argument, others⟩ := List.forall_mem_cons.1 inside
    obtain ⟨s, after, ks, next⟩ := Formula.moreArgKinds_next rest more
    rw [Formula.argKinds] at enough holds
    rw [List.length_append] at enough
    rw [List.append_assoc, next] at holds
    have filled : isSymbol .rparen c = .ok (false, c) := by
      obtain ⟨k, rest', same, first⟩ := t.opens
      have opens := Nat.le_trans first t.level_le
      rw [same] at holds
      rw [isSymbol_of holds, TokenKind.isSymbol_of_opens opens (by simp)]
    have shorter : t.kinds.length < levels := by omega
    refine .bind_ok filled (((argument_of argument after shorter holds rfl).bind
      (G := Formula.argsRoom rest ≤ room) ?_).congr ?_)
    · rintro _ d ⟨⟨e, rfl, he⟩, hd⟩
      rw [← next] at hd
      refine (moreArguments_of others (by omega) hd rfl).mono ?_
      rintro as d' ⟨es, rfl, forms, hd'⟩
      exact ⟨e :: es, rfl, .cons he forms, hd'⟩
    · rw [Formula.argsRoom]
      exact max_le_iff.symm

end

theorem Links.call (o : Formula) {args : List Formula}
    (inside : ∀ t ∈ args, Takes 14 t.kinds t.room (·.Forms t)) :
    Links 1 (.symbol .lparen :: (Formula.argKinds args ++ [.symbol .rparen]))
      (Formula.argsRoom args) o (.call o args) := by
  intro field levels room c f more G Q a enough stops holds ha after
  refine .of_eq (restAt_of_suffix (by simp) holds) (.deeper_and fun left fits => ?_)
  have opened : c.advance.Holds (Formula.argKinds args ++ .symbol .rparen :: f :: more) := by
    simpa using Cursor.Holds.symbol holds
  have shorter : (Formula.argKinds args).length < levels := by
    simp only [List.length_append, List.length_cons] at enough
    omega
  refine .bind_ok (advance_eq c) ((arguments_of inside shorter opened).bind ?_)
  rintro as d ⟨es, rfl, forms, hd⟩
  have positional : (es.map Argument.positional).filterMap (·.positional?) = es := by
    simp [List.filterMap_map, Argument.positional?]
  have keyword : (es.map Argument.positional).filterMap (·.keyword?) = [] := by
    simp [List.filterMap_map, Argument.keyword?]
  refine .bind_ok (expect_of hd rfl) ?_
  rw [positional, keyword]
  exact after left _ _ fits (.call _ ha forms) hd.symbol

theorem Leads.call {o : Formula} {args : List Formula} (callee : Leads 1 o)
    (inside : ∀ t ∈ args, Takes 14 t.kinds t.room (·.Forms t)) : Leads 1 (.call o args) := by
  refine Leads.extend (t := .call o args) callee (.call o inside) rfl (Formula.kinds_call o args)
    (by rw [Formula.links]; rfl) ?_
  rw [Formula.room]
  rfl

end StepTrace
