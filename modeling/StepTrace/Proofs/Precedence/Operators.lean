import StepTrace.Proofs.Precedence.Levels

/-!
Reading what parentheses, `**`, signs, `not`, comparisons and conditions make of their operands.
-/

set_option autoImplicit false

namespace StepTrace

open Parse

/-! ### First tokens -/

theorem Opens.of_starts {ps : List Piece} {level : Nat} (h : Starts ps level) :
    Opens (ps.filterMap Piece.kind?) level := by
  obtain ⟨p, rest, kind, rfl, token, opens⟩ := h
  exact ⟨kind, rest.filterMap Piece.kind?, List.filterMap_cons_some token, opens⟩

theorem Opens.mono {ks : List TokenKind} {level level' : Nat} (h : Opens ks level)
    (le : level ≤ level') : Opens ks level' := by
  obtain ⟨k, rest, same, opens⟩ := h
  exact ⟨k, rest, same, Nat.le_trans opens le⟩

theorem Opens.append {ks : List TokenKind} {level : Nat} (h : Opens ks level)
    (more : List TokenKind) : Opens (ks ++ more) level := by
  obtain ⟨k, rest, rfl, opens⟩ := h
  exact ⟨k, rest ++ more, rfl, opens⟩

namespace Formula

theorem opens (t : Formula) : Opens t.kinds t.level := .of_starts t.starts

theorem opens_at (t : Formula) (place : Nat) : Opens (t.kindsAt place) place := by
  rw [← kinds_enclosed]
  exact .of_starts t.starts.enclosed

theorem level_le (t : Formula) : t.level ≤ 14 := by
  cases t with
  | chain op l r => cases op <;> exact Nat.le_of_ble_eq_true rfl
  | unary op operand => cases op <;> exact Nat.le_of_ble_eq_true rfl
  | _ => exact Nat.le_of_ble_eq_true rfl

end Formula

/-! ### Operands with room of their own -/

theorem unary_eq (postfixAt : Nat → Parse Expr) (room : Nat) :
    unary postfixAt room = unaryWith (postfixAt room) (deeper (unary postfixAt) room) := by
  cases room <;> rfl

theorem notTest_eq (base : Nat → Parse Expr) (room : Nat) :
    notTest base room = notWith (base room) (deeper (notTest base) room) := by
  cases room <;> rfl

theorem acceptWord_of {w : Keyword} {c : Cursor} {k : TokenKind} {ks : List TokenKind}
    (h : c.Holds (k :: ks)) (same : k.isKeyword w = true) :
    acceptWord w c = .ok (true, c.advance) :=
  passIf_of_true (by rw [isKeyword_eq, h.peek, same])

theorem isKeyword_of {w : Keyword} {c : Cursor} {k : TokenKind} {ks : List TokenKind}
    (h : c.Holds (k :: ks)) : isKeyword w c = .ok (k.isKeyword w, c) := by
  rw [isKeyword_eq, h.peek]

theorem isSymbol_of {s : Symbol} {c : Cursor} {k : TokenKind} {ks : List TokenKind}
    (h : c.Holds (k :: ks)) : isSymbol s c = .ok (k.isSymbol s, c) := by
  rw [isSymbol_eq, h.peek]

-- A name, an opening parenthesis, a sign or `not` closes nothing.
theorem TokenKind.isSymbol_of_opens {k : TokenKind} {s : Symbol} (opens : k.opens ≤ 14)
    (other : s ∈ [.rparen, .rbracket, .star, .doubleStar, .colon, .comma, .eq]) :
    k.isSymbol s = false := by
  simp only [List.mem_cons, List.not_mem_nil, or_false] at other
  cases k with
  | symbol s' =>
    cases s' <;> first
      | exact absurd opens (by decide)
      | (rcases other with rfl | rfl | rfl | rfl | rfl | rfl | rfl <;> rfl)
  | _ => rfl

theorem TokenKind.isKeyword_of_opens {k : TokenKind} {w : Keyword} (opens : k.opens ≤ 14)
    (other : w ≠ .not) : k.isKeyword w = false := by
  cases k with
  | keyword w' =>
    cases w' <;> first
      | exact absurd opens (by decide)
      | (cases w <;> first | rfl | exact absurd rfl other)
  | _ => rfl

/-! ### Signs and literals -/

-- No formula is a number, which a sign before it would become a part of.
theorem Expr.Forms.foldSign {e : Expr} {t : Formula} (h : e.Forms t) (loc : Location)
    (op : UnaryOp) : foldSign loc op e = .unary loc op e := by
  cases h with
  | chain loc op' => cases op' <;> cases op <;> rfl
  | _ => cases op <;> rfl

namespace Takes

variable {ks ks' : List TokenKind} {need need' : Nat} {P P' : Expr → Prop}

theorem mono {level : Nat} (h : Takes level ks need P) (le : ∀ e, P e → P' e) :
    Takes level ks need P' := by
  intro field levels room c f more enough stops holds
  refine (h field levels room c f more enough stops holds).mono ?_
  rintro e d ⟨he, hd⟩
  exact ⟨le e he, hd⟩

-- A whole expression inside of something else.
theorem expression (h : Takes 14 ks need P) {field : String → Location → Except SyntaxError Expr}
    {levels room : Nat} {c : Cursor} {f : TokenKind} {more : List TokenKind}
    (enough : ks.length < levels) (stops : 14 < f.continues) (holds : c.Holds (ks ++ f :: more)) :
    ((readers field levels).expression room).Decides c (need + 1 ≤ room)
      fun e d => P e ∧ d.Holds (f :: more) := by
  cases levels with
  | zero => exact absurd enough (Nat.not_lt_zero _)
  | succ levels =>
    exact .deeper fun r => h field levels r c f more (Nat.le_of_lt_succ enough) stops holds

-- Without a comma, an expression list is its only expression.
theorem expressionList (h : Takes 14 ks need P)
    {field : String → Location → Except SyntaxError Expr} {levels room : Nat} {c : Cursor}
    {f : TokenKind} {more : List TokenKind} (enough : ks.length < levels)
    (stops : 14 < f.continues) (single : f.isSymbol .comma = false)
    (holds : c.Holds (ks ++ f :: more)) :
    (StepTrace.expressionList (readers field levels) room).Decides c (need + 1 ≤ room)
      fun e d => P e ∧ d.Holds (f :: more) := by
  refine .bind_ok (here_eq c) ((h.expression enough stops holds).finish ?_)
  rintro e d ⟨he, hd⟩
  have ends : isSymbol .comma d = .ok (false, d) := by rw [isSymbol_of hd, single]
  exact ⟨e, d, (bind_ok ends).trans rfl, he, hd⟩

theorem name (n : Identifier) : Takes 0 [.ident n.text] 0 (·.Forms (.name n)) := by
  intro field levels room c f more enough stops holds
  have read : primary (readers field levels) room c = .ok (.name c.peek.loc n.text, c.advance) :=
    (bind_ok (peek_of holds)).trans rfl
  exact (Decides.ok read ⟨.name _ n, holds.advance nofun⟩).congr (by simp)

theorem parenthesized (h : Takes 14 ks need P) (opens : Opens ks 14) :
    Takes 0 (.symbol .lparen :: ks ++ [.symbol .rparen]) (need + 1) P := by
  obtain ⟨k, rest, same, first⟩ := opens
  intro field levels room c f more enough stops holds
  rw [List.append_assoc] at holds
  have opened : c.advance.Holds (ks ++ .symbol .rparen :: f :: more) := holds.symbol
  have filled : accept .rparen c.advance = .ok (false, c.advance) := by
    rw [same] at opened
    exact accept_of_other opened (TokenKind.isSymbol_of_opens first (by simp))
  have shorter : ks.length < levels := by
    simp only [List.length_append, List.length_cons, List.length_nil] at enough
    omega
  refine .of_eq ((bind_ok (peek_of holds)).trans ((bind_ok (advance_eq c)).trans
    (bind_ok filled))) ((h.expression shorter (by decide) opened).finish ?_)
  rintro e d ⟨he, hd⟩
  have plain : isKeyword .for d = .ok (false, d) := isKeyword_of hd
  have single : isSymbol .comma d = .ok (false, d) := isSymbol_of hd
  exact ⟨e, d.advance, (bind_ok plain).trans ((bind_ok single).trans
    ((bind_ok (expect_of hd rfl)).trans rfl)), he, hd.symbol⟩

-- No operator goes on at the level of signs.
theorem signs_stop {f : TokenKind} (stops : 2 < f.continues) : 3 < f.continues := by
  cases f with
  | symbol s => cases s <;> first | exact absurd stops (by decide) | decide
  | keyword w => cases w <;> decide
  | _ => exact Nat.le_of_ble_eq_true rfl

theorem power (base : Takes 1 ks need P) (opens : Opens ks 1) (exponent : Takes 3 ks' need' P') :
    Takes 2 (ks ++ .symbol .doubleStar :: ks') (max need (need' + 1))
      fun e => ∃ loc a b, P a ∧ P' b ∧ e = .binary loc .pow a b := by
  obtain ⟨k, rest, same, first⟩ := opens
  intro field levels room c f more enough stops holds
  rw [List.append_assoc] at holds
  have unsigned : peek c = .ok (⟨k, c.peek.loc⟩, c) := by
    rw [same] at holds
    exact peek_of holds
  have enough₁ : ks.length ≤ levels := by
    rw [List.length_append] at enough
    omega
  have enough₂ : ks'.length ≤ levels := by
    rw [List.length_append, List.length_cons] at enough
    omega
  change (unary ((readers field levels).readerAt 1) room).Decides _ _ _
  rw [unary_eq]
  refine .bind_ok unsigned ?_
  dsimp only
  rw [unaryOp?_of_opens first]
  refine ((base field levels room c _ _ enough₁ (by decide) holds).bind
    (G := need' + 1 ≤ room) ?_).congr (by omega)
  rintro a d ⟨ha, hd⟩
  refine .bind_ok (accept_of hd rfl) (.bind_ok (p := previous) (c := d.advance) rfl ?_)
  refine (Decides.deeper fun r =>
    exponent field levels r d.advance f more enough₂ (signs_stop stops) hd.symbol).finish ?_
  rintro b d' ⟨hb, hd'⟩
  exact ⟨_, d', rfl, ⟨_, a, b, ha, hb, rfl⟩, hd'⟩

theorem sign {op : UnaryOp} (signed : op.level = 3) (operand : Takes 3 ks need P)
    (plain : ∀ loc e, P e → foldSign loc op e = .unary loc op e) :
    Takes 3 (op.kind :: ks) (need + 1) fun e => ∃ loc a, P a ∧ e = .unary loc op a := by
  have known : unaryOp? op.kind = some op ∧ op.kind ≠ .eof := by
    cases op <;> first | exact absurd signed (by decide) | exact ⟨rfl, nofun⟩
  intro field levels room c f more enough stops holds
  change (unary ((readers field levels).readerAt 1) room).Decides _ _ _
  rw [unary_eq]
  refine .bind_ok (peek_of holds) ?_
  dsimp only
  rw [known.1]
  refine .bind_ok (advance_eq c) ((Decides.deeper fun r => operand field levels r c.advance f more
    (Nat.le_of_succ_le enough) stops (holds.advance known.2)).finish ?_)
  rintro a d ⟨ha, hd⟩
  exact ⟨_, d, rfl, ⟨_, a, ha, plain _ a ha⟩, hd⟩

theorem not (operand : Takes 11 ks need P) :
    Takes 11 (.keyword .not :: ks) (need + 1) fun e => ∃ loc a, P a ∧ e = .unary loc .not a := by
  intro field levels room c f more enough stops holds
  change (notTest ((readers field levels).readerAt 10) room).Decides _ _ _
  rw [notTest_eq]
  refine .bind_ok (acceptWord_of holds rfl) (.bind_ok (p := previous) (c := c.advance) rfl
    ((Decides.deeper fun r => operand field levels r c.advance f more (Nat.le_of_succ_le enough)
      stops (holds.advance nofun)).finish ?_))
  rintro a d ⟨ha, hd⟩
  exact ⟨_, d, rfl, ⟨_, a, ha, rfl⟩, hd⟩

theorem ifElse {ks'' : List TokenKind} {need'' : Nat} {P'' : Expr → Prop} (yes : Takes 13 ks need P)
    (opens : Opens ks 13) (condition : Takes 13 ks' need' P') (no : Takes 14 ks'' need'' P'') :
    Takes 14 (ks ++ .keyword .if :: (ks' ++ .keyword .else :: ks''))
      (max (max need need') (need'' + 1))
      fun e => ∃ loc a b x, P' a ∧ P b ∧ P'' x ∧ e = .ifElse loc a b x := by
  obtain ⟨k, rest, same, first⟩ := opens
  intro field levels room c f more enough stops holds
  rw [List.append_assoc, List.cons_append, List.append_assoc] at holds
  simp only [List.length_append, List.length_cons] at enough
  have plain : isKeyword .lambda c = .ok (false, c) := by
    rw [same] at holds
    have other := TokenKind.isKeyword_of_opens (w := .lambda) (Nat.le_succ_of_le first) (by decide)
    rw [isKeyword_of (List.cons_append ▸ holds), other]
  refine .bind_ok plain (.bind_ok (here_eq c) ?_)
  refine ((yes field levels room c _ _ (by omega) (by decide) holds).bind
    (G := need' ≤ room ∧ need'' + 1 ≤ room) ?_).congr (by omega)
  rintro b d ⟨hb, hd⟩
  refine .bind_ok (acceptWord_of hd rfl) ?_
  refine (condition field levels room d.advance _ _ (by omega) (by decide)
    (hd.advance nofun)).bind ?_
  rintro a d' ⟨ha, hd'⟩
  refine .bind_ok ((bind_ok (acceptWord_of hd' rfl)).trans rfl) ?_
  refine (no.expression (by omega) stops (hd'.advance nofun)).finish ?_
  rintro x d'' ⟨hx, hd''⟩
  exact ⟨_, d'', rfl, ⟨_, a, b, x, ha, hb, hx, rfl⟩, hd''⟩

end Takes

/-! ### Comparisons -/

theorem Parse.Decides.collect_none {α : Type} {step : List α → Parse (Option α)} {done : List α}
    {c d : Cursor} {Q : List α → Cursor → Prop} (h : step done c = .ok (none, d))
    (q : Q done.reverse d) : Decides (collect step done) c True Q :=
  .ok (collect_of_none h) q

theorem Parse.Decides.collect_some {α : Type} {step : List α → Parse (Option α)} {done : List α}
    {c : Cursor} {F G : Prop} {P : α → Cursor → Prop} {Q : List α → Cursor → Prop}
    (h : (step done).Decides c F fun o d => ∃ a, o = some a ∧ P a d)
    (shorter : ∀ a d, P a d → d.rest.length < c.rest.length)
    (others : ∀ a d, P a d → Decides (collect step (a :: done)) d G Q) :
    Decides (collect step done) c (F ∧ G) Q := by
  by_cases fits : F
  · obtain ⟨_, d, read, a, rfl, p⟩ := h.1 fits
    exact ((others a d p).of_eq (collect_of_some read (shorter a d p))).congr (by simp [fits])
  · obtain ⟨loc, refused⟩ := h.2 fits
    refine ⟨fun both => absurd both.1 fits, fun _ => ⟨loc, ?_⟩⟩
    rw [collect, refused]

theorem comparison?_of {op : CompareOp} {ks : List TokenKind} {c : Cursor} (opens : Opens ks 9)
    (holds : c.Holds (op.kinds ++ ks)) : ∃ d, comparison? c = .ok (some op, d) ∧ d.Holds ks := by
  obtain ⟨k, rest, rfl, first⟩ := opens
  have kinds : (c.rest.take 2).map Token.kind = (op.kinds ++ k :: rest).take 2 := by
    rw [List.map_take, holds]
  cases op with
  | notIn | isNot =>
    refine ⟨c.advance.advance, (bind_ok (p := get) (c := c) rfl).trans ?_,
      Cursor.Holds.advance (Cursor.Holds.advance holds nofun) nofun⟩
    rw [kinds]
    rfl
  | is =>
    refine ⟨c.advance, (bind_ok (p := get) (c := c) rfl).trans ?_,
      Cursor.Holds.advance holds nofun⟩
    rw [kinds]
    cases k with
    | keyword w => cases w <;> first | rfl | exact absurd first (by decide)
    | _ => rfl
  | _ =>
    refine ⟨c.advance, (bind_ok (p := get) (c := c) rfl).trans ?_,
      Cursor.Holds.advance holds nofun⟩
    rw [kinds]
    rfl

theorem Cursor.Holds.length {c : Cursor} {ks : List TokenKind} (h : c.Holds ks) :
    c.rest.length = ks.length := by
  rw [← h, List.length_map]

theorem CompareOp.length_kinds_pos (op : CompareOp) : 0 < op.kinds.length := by
  cases op <;> decide

-- One more link of a comparison.
def comparisonLink (operand : Parse Expr) : Parse (Option (CompareOp × Expr)) := do
  match ← comparison? with
  | some op => return some (op, ← operand)
  | none => return none

namespace Formula

theorem linkKinds_cons (op : CompareOp) (t : Formula) (rest : List (CompareOp × Formula)) :
    linkKinds ((op, t) :: rest) = op.kinds ++ (t.kindsAt 9 ++ linkKinds rest) := by
  rw [linkKinds, List.flatMap_cons, List.append_assoc]
  rfl

theorem linkKinds_next (rest : List (CompareOp × Formula)) {f : TokenKind} (more : List TokenKind)
    (stops : 9 < f.continues) :
    ∃ k ks, linkKinds rest ++ f :: more = k :: ks ∧ 9 < k.continues := by
  cases rest with
  | nil => exact ⟨f, more, rfl, stops⟩
  | cons link rest =>
    obtain ⟨op, t⟩ := link
    rw [linkKinds_cons]
    cases op <;> exact ⟨_, _, rfl, by decide⟩

end Formula

section

variable {field : String → Location → Except SyntaxError Expr} {levels room : Nat} {c : Cursor}
  {f : TokenKind} {more : List TokenKind}

theorem comparisonLinks {rest : List (CompareOp × Formula)}
    (links : ∀ link ∈ rest, Takes 9 (link.2.kindsAt 9) (link.2.roomAt 9) (·.Forms link.2))
    (enough : (Formula.linkKinds rest).length ≤ levels) (stops : 10 < f.continues)
    (holds : c.Holds (Formula.linkKinds rest ++ f :: more)) (done : List (CompareOp × Expr)) :
    Decides (collect (fun _ => comparisonLink ((readers field levels).readerAt 9 room)) done) c
      (Formula.linksRoom rest ≤ room) fun es d => ∃ es', es = done.reverse ++ es' ∧
        es'.map Prod.fst = rest.map Prod.fst ∧
        List.Forall₂ Expr.Forms (es'.map Prod.snd) (rest.map Prod.snd) ∧ d.Holds (f :: more) := by
  induction rest generalizing c done with
  | nil =>
    refine (Decides.collect_none ((bind_ok (comparison?_stops stops holds)).trans rfl)
      ⟨[], by simp, rfl, .nil, holds⟩).congr ?_
    simp [Formula.linksRoom]
  | cons link rest ih =>
    obtain ⟨op, t⟩ := link
    obtain ⟨operand, others⟩ := List.forall_mem_cons.1 links
    rw [Formula.linkKinds_cons] at enough holds
    simp only [List.length_append] at enough
    simp only [List.append_assoc] at holds
    obtain ⟨k, ks, next, stops'⟩ := Formula.linkKinds_next rest more (Nat.lt_of_succ_lt stops)
    rw [next] at holds
    have opens : Opens (t.kindsAt 9 ++ k :: ks) 9 := (t.opens_at 9).append _
    obtain ⟨d, compared, hd⟩ := comparison?_of opens holds
    have read : Decides (comparisonLink ((readers field levels).readerAt 9 room)) c
        (t.roomAt 9 ≤ room) fun o d => ∃ a, o = some a ∧
          (a.1 = op ∧ a.2.Forms t) ∧ d.Holds (k :: ks) := by
      refine .bind_ok compared ?_
      refine (operand field levels room d k ks ?_ stops' hd).finish ?_
      · dsimp only
        omega
      · rintro e d' ⟨he, hd'⟩
        exact ⟨_, d', rfl, (op, e), rfl, ⟨rfl, he⟩, hd'⟩
    refine (Decides.collect_some (G := Formula.linksRoom rest ≤ room) read ?_ ?_).congr ?_
    · rintro a d' ⟨-, hd'⟩
      have := op.length_kinds_pos
      rw [hd'.length, holds.length, List.length_append, List.length_append]
      omega
    · rintro a d' ⟨⟨rfl, ha⟩, hd'⟩
      rw [← next] at hd'
      refine (ih others (by omega) hd' (a :: done)).mono ?_
      rintro es d'' ⟨es', same, ops, forms, hd''⟩
      exact ⟨a :: es', by simp [same], by simp [ops], .cons ha forms, hd''⟩
    · rw [Formula.linksRoom]
      exact max_le_iff.symm

end

theorem Takes.compare {a : Formula} {op : CompareOp} {b : Formula}
    {rest : List (CompareOp × Formula)} (first : Takes 9 (a.kindsAt 9) (a.roomAt 9) (·.Forms a))
    (links : ∀ link ∈ (op, b) :: rest,
      Takes 9 (link.2.kindsAt 9) (link.2.roomAt 9) (·.Forms link.2)) :
    Takes 10 (Formula.compare a op b rest).kinds (Formula.compare a op b rest).room
      (·.Forms (.compare a op b rest)) := by
  intro field levels room c f more enough stops holds
  rw [Formula.kinds_compare] at enough holds
  rw [List.length_append] at enough
  rw [List.append_assoc] at holds
  obtain ⟨k, ks, next, stops'⟩ :=
    Formula.linkKinds_next ((op, b) :: rest) more (Nat.lt_of_succ_lt stops)
  rw [next] at holds
  refine .bind_ok (here_eq c) ?_
  refine ((first field levels room c k ks (by omega) stops' holds).bind
    (G := Formula.linksRoom ((op, b) :: rest) ≤ room) ?_).congr ?_
  · rintro e d ⟨he, hd⟩
    rw [← next] at hd
    refine (comparisonLinks links (by omega) stops hd []).finish ?_
    rintro es d' ⟨es', rfl, ops, forms, hd'⟩
    obtain ⟨⟨op', x⟩, es', rfl, rfl, same⟩ := List.map_eq_cons_iff.1 ops
    obtain ⟨second, others⟩ := List.forall₂_cons.1 forms
    exact ⟨_, d', rfl, .compare _ _ he second same others, hd'⟩
  · simp only [Formula.room, Formula.linksRoom, Formula.roomAt, max_le_iff, and_assoc]

end StepTrace
