import StepTrace.Proofs.Precedence.Chains
import StepTrace.Proofs.Precedence.Scanning

/-!
Reading what is written: the text of a formula is a program of one statement, which is the formula
again, exactly where the limit of nesting allows for the room that it takes.
-/

set_option autoImplicit false

namespace StepTrace

open Parse

/-! ### Expressions -/

theorem chainLevels_bounds : ∀ level ∈ chainLevels, 0 < level ∧ level ≤ 14 := by decide

-- The readers of all levels take the formula.
structure Formula.Read (t : Formula) : Prop where
  takes : ∀ place ≤ 14, Takes place (t.kindsAt place) (t.roomAt place) (·.Forms t)
  leads : ∀ level ∈ chainLevels, Leads level t

namespace Formula.Read

variable {t : Formula}

-- Where the place asks for tighter operators the formula stands in parentheses.
theorem takes_of (own : Takes t.level t.kinds t.room (·.Forms t)) {place : Nat}
    (most : place ≤ 14) : Takes place (t.kindsAt place) (t.roomAt place) (·.Forms t) := by
  by_cases needed : place < t.level
  · have whole := own.climb_to t.opens t.level_le (Nat.le_refl 14)
    have enclosed := whole.parenthesized (t.opens.mono t.level_le)
    rw [kindsAt, if_pos needed, roomAt, roomOf, if_pos (decide_eq_true needed)]
    exact enclosed.climb_to ⟨_, _, rfl, Nat.le_refl 0⟩ (Nat.zero_le place) most
  · rw [kindsAt, if_neg needed, roomAt, roomOf, if_neg (by simpa using needed)]
    exact own.climb_to t.opens (Nat.le_of_not_lt needed) most

theorem of_own (own : Takes t.level t.kinds t.room (·.Forms t))
    (leads : t.level ∈ chainLevels → Leads t.level t) : t.Read where
  takes _ most := takes_of own most
  leads level known := by
    by_cases same : t.level = level
    · subst same
      exact leads known
    · have bounds := chainLevels_bounds level known
      obtain ⟨below, rfl⟩ := Nat.exists_eq_succ_of_ne_zero bounds.1.ne'
      exact .of_takes known same (takes_of own (Nat.le_of_succ_le bounds.2))

theorem of_leads (known : t.level ∈ chainLevels) (own : Leads t.level t) : t.Read := by
  have takes := own.takes known
  rw [t.kindsAt_level, t.roomAt_level] at takes
  exact .of_own takes fun _ => own

theorem of_takes (single : t.level ∉ chainLevels) (own : Takes t.level t.kinds t.room (·.Forms t)) :
    t.Read :=
  .of_own own fun known => absurd known single

theorem whole (h : t.Read) : Takes 14 t.kinds t.room (·.Forms t) := by
  have inside : ¬ 14 < t.level := Nat.not_lt.2 t.level_le
  have takes := h.takes 14 (Nat.le_refl 14)
  rwa [kindsAt, if_neg inside, roomAt, roomOf, if_neg (by simpa using inside)] at takes

end Formula.Read

theorem Formula.read (t : Formula) : t.Read := by
  induction t with
  | name n =>
    refine .of_takes (by decide : 0 ∉ chainLevels) ?_
    rw [kinds_name, room]
    exact .name n
  | chain op l r left right =>
    have tighter : op.level - 1 ≤ 14 := by cases op <;> decide
    exact .of_leads op.chained (.chain (left.leads _ op.chained) (right.takes _ tighter))
  | power b e base exponent =>
    refine .of_takes (by decide : 2 ∉ chainLevels) ?_
    rw [kinds_power, room]
    refine Takes.mono (.power (base.takes 1 (by decide)) (b.opens_at 1)
      (exponent.takes 3 (by decide))) ?_
    rintro _ ⟨loc, x, y, hx, hy, rfl⟩
    exact .power loc hx hy
  | unary op t operand =>
    have level : op.level ∉ chainLevels := by cases op <;> decide
    refine .of_takes level ?_
    rw [kinds_unary, room]
    refine Takes.mono (P := fun e => ∃ loc a, a.Forms t ∧ e = .unary loc op a) ?_ ?_
    · cases op with
      | not => exact .not (operand.takes 11 (by decide))
      | _ => exact .sign rfl (operand.takes 3 (by decide)) fun loc e he => he.foldSign loc _
    · rintro _ ⟨loc, x, hx, rfl⟩
      exact .unary loc op hx
  | compare a op b rest first second others =>
    refine .of_takes (by decide : 10 ∉ chainLevels) (.compare (first.takes 9 (by decide)) ?_)
    intro link among
    rcases List.mem_cons.1 among with rfl | among
    · exact second.takes 9 (by decide)
    · exact (others link among).takes 9 (by decide)
  | ifElse c y n condition yes no =>
    refine .of_takes (by decide : 14 ∉ chainLevels) ?_
    rw [kinds_ifElse, room]
    refine Takes.mono (.ifElse (yes.takes 13 (by decide)) (y.opens_at 13)
      (condition.takes 13 (by decide)) no.whole) ?_
    rintro _ ⟨loc, x, y, z, hx, hy, hz, rfl⟩
    exact .ifElse loc hx hy hz
  | call f args callee inside =>
    have leads := callee.leads 1 (by decide)
    exact .of_leads (by decide : 1 ∈ chainLevels) (.call leads fun t here => (inside t here).whole)
  | attr o n object =>
    exact .of_leads (by decide : 1 ∈ chainLevels) (.attr (object.leads 1 (by decide)) n)
  | subscript o i object index =>
    have leads := object.leads 1 (by decide)
    exact .of_leads (by decide : 1 ∈ chainLevels) (.subscript leads index.whole)

/-! ### Statements -/

-- The statement is the formula.
def Stmt.Forms (s : Stmt) (t : Formula) : Prop := ∃ loc e, s = .expr loc e ∧ e.Forms t

section

variable {t : Formula} {field : String → Location → Except SyntaxError Expr} {levels room : Nat}
  {c : Cursor}

theorem expressionStatement_of (enough : t.kinds.length < levels)
    (holds : c.Holds (t.kinds ++ [.newline, .eof])) :
    (expressionStatement (.of (readers field levels)) room).Decides c (t.nesting ≤ room)
      fun s d => s.Forms t ∧ d.Holds [.newline, .eof] := by
  refine .bind_ok (here_eq c) ?_
  refine (t.read.whole.expressionList enough (by decide) rfl holds).finish ?_
  rintro e d ⟨he, hd⟩
  have noValue : isSymbol .eq d = .ok (false, d) := isSymbol_of hd
  have noOperator : kind d = .ok (.newline, d) := by
    rw [← hd.peek]
    rfl
  have noAnnotation : accept .colon d = .ok (false, d) := accept_of_other hd rfl
  exact ⟨_, d, (bind_ok noValue).trans ((bind_ok noOperator).trans
    ((bind_ok noAnnotation).trans rfl)), ⟨_, e, rfl, he⟩, hd⟩

theorem simpleStatement_of (enough : t.kinds.length < levels)
    (holds : c.Holds (t.kinds ++ [.newline, .eof])) :
    (simpleStatement (.of (readers field levels)) room).Decides c (t.nesting ≤ room)
      fun s d => s.Forms t ∧ d.Holds [.newline, .eof] := by
  obtain ⟨k, rest, same, first⟩ := t.opens
  have opens := Nat.le_trans first t.level_le
  have here := holds
  rw [same] at here
  refine .bind_ok (peek_of here) ?_
  cases k with
  | keyword w =>
    cases w <;> first | exact absurd opens (by decide) | exact expressionStatement_of enough holds
  | reserved word => exact absurd opens (Nat.not_succ_le_self 14)
  | _ => exact expressionStatement_of enough holds

theorem simpleLine_of (enough : t.kinds.length < levels)
    (holds : c.Holds (t.kinds ++ [.newline, .eof])) :
    (simpleLine (.of (readers field levels)) room).Decides c (t.nesting ≤ room)
      fun stmts d => (∃ s, stmts = [s] ∧ s.Forms t) ∧ d.Holds [.eof] := by
  refine (simpleStatement_of enough holds).finish ?_
  rintro s d ⟨hs, hd⟩
  have single : accept .semicolon d = .ok (false, d) := accept_of_other hd rfl
  have line : passIf isNewline d = .ok (true, d.advance) := passIf_of_true (isNewline_of hd)
  exact ⟨[s], d.advance, (bind_ok (many_of_none ((bind_ok single).trans rfl))).trans
    ((bind_ok (isEnd_of hd)).trans ((bind_ok ((bind_ok line).trans rfl)).trans rfl)),
    ⟨s, rfl, hs⟩, hd.advance nofun⟩

theorem statement_of {block : Nat → Parse (List Stmt)} (enough : t.kinds.length < levels)
    (holds : c.Holds (t.kinds ++ [.newline, .eof])) :
    (statement (.of (readers field levels)) block room).Decides c (t.nesting ≤ room)
      fun stmts d => (∃ s, stmts = [s] ∧ s.Forms t) ∧ d.Holds [.eof] := by
  obtain ⟨k, rest, same, first⟩ := t.opens
  have opens := Nat.le_trans first t.level_le
  have here := holds
  rw [same] at here
  refine .bind_ok (peek_of here) ?_
  cases k with
  | keyword w =>
    cases w <;> first | exact absurd opens (by decide) | exact simpleLine_of enough holds
  | _ => exact simpleLine_of enough holds

theorem program_of (enough : t.kinds.length < levels)
    (holds : c.Holds (t.kinds ++ [.newline, .eof])) :
    (program (.of (readers field levels))).Decides c (t.nesting ≤ maxNesting)
      fun p _ => ∃ s, p = [s] ∧ s.Forms t := by
  obtain ⟨k, rest, same, first⟩ := t.opens
  have opens := Nat.le_trans first t.level_le
  have here := holds
  rw [same] at here
  have filled : isEnd c = .ok (false, c) := by
    rw [isEnd_of here]
    cases k <;> first | rfl | exact absurd opens (Nat.not_succ_le_self 14)
  have line : passIf isNewline c = .ok (false, c) := by
    refine passIf_of_false ((isNewline_of here).trans ?_)
    cases k <;> first | rfl | exact absurd opens (Nat.not_succ_le_self 14)
  have margin : isIndent c = .ok (false, c) := by
    rw [isIndent_of here]
    cases k <;> first | rfl | exact absurd opens (Nat.not_succ_le_self 14)
  refine Decides.finish (P := fun done _ => ∃ s, done = [[s]] ∧ s.Forms t)
    ((Decides.collect_some (G := True) (.bind_ok filled (.bind_ok line (.bind_ok margin
      ((statement_of enough holds).finish fun stmts d q =>
        ⟨some stmts, d, rfl, stmts, rfl, q⟩)))) ?_ ?_).congr (and_iff_left trivial)) ?_
  · rintro stmts d ⟨-, hd⟩
    rw [hd.length, holds.length, List.length_append]
    simp
  · rintro _ d ⟨⟨s, rfl, hs⟩, hd⟩
    exact .collect_none ((bind_ok (isEnd_of hd)).trans rfl) ⟨s, rfl, hs⟩
  · rintro _ d ⟨s, rfl, hs⟩
    exact ⟨_, d, rfl, s, rfl, hs⟩

end

/-! ### Texts -/

-- Parsing a formula's text gives the formula and no other one, unless it is nested too deeply.
theorem Formula.parseProgram_text (t : Formula) :
    (t.nesting ≤ maxNesting →
      ∃ loc e, parseProgram t.text = .ok [.expr loc e] ∧ ∀ t', e.Forms t' ↔ t' = t) ∧
    (maxNesting < t.nesting → ∃ loc, parseProgram t.text = .error ⟨.tooDeep, loc⟩) := by
  obtain ⟨ts, scanned, kinds⟩ := t.tokens_text
  have enough : t.kinds.length < ts.length + 1 := by
    have := congrArg List.length kinds
    simp only [List.length_map, List.length_append] at this
    omega
  have read : (program (.of (readers (fieldAt t.text.length) (ts.length + 1)))).Decides
      ⟨ts, ⟨1, 1⟩⟩ (t.nesting ≤ maxNesting) fun p _ => ∃ s, p = [s] ∧ s.Forms t :=
    program_of enough kinds
  rw [parseProgram_eq scanned]
  constructor
  · intro fits
    obtain ⟨p, d, parsed, _, rfl, loc, e, rfl, forms⟩ := read.1 fits
    refine ⟨loc, e, by rw [parsed]; rfl, fun t' => ⟨forms.unique, ?_⟩⟩
    rintro rfl
    exact forms
  · intro deep
    obtain ⟨loc, refused⟩ := read.2 (Nat.not_le_of_lt deep)
    exact ⟨loc, by rw [refused]; rfl⟩

-- A sign before a power is the power's; conditions nest to the right.
theorem Formula.parseProgram_text_unary :
    let a : Formula := .name ⟨"a", by decide⟩
    let b : Formula := .name ⟨"b", by decide⟩
    let t : Formula := .ifElse a (.unary .neg (.power a (.unary .neg b))) (.ifElse b a b)
    t.text = "-a ** -b if a else a if b else b" ∧ t.nesting ≤ maxNesting ∧
      ∃ loc e, parseProgram t.text = .ok [.expr loc e] ∧ ∀ t', e.Forms t' ↔ t' = t := by
  intro a b t
  have fits : t.nesting ≤ maxNesting := by decide
  exact ⟨by decide, fits, (Formula.parseProgram_text t).1 fits⟩

end StepTrace
