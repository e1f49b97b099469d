import StepTrace.Proofs.Literals.Parsing

/-!
A program that assigns a literal to a name.
-/

set_option autoImplicit false

namespace StepTrace

open Parse

namespace Parse

variable {c : Cursor} {k : TokenKind} {ks : List TokenKind}

theorem isEnd_of (h : c.Holds (k :: ks)) :
    isEnd c = .ok (k matches .eof, c) := by
  refine (bind_ok (p := kind) (c := c) rfl).trans ?_
  rw [h.peek]
  cases k <;> rfl

theorem isNewline_of (h : c.Holds (k :: ks)) :
    isNewline c = .ok (k matches .newline, c) := by
  refine (bind_ok (p := kind) (c := c) rfl).trans ?_
  rw [h.peek]
  cases k <;> rfl

end Parse

theorem isIndent_of {c : Cursor} {k : TokenKind} {ks : List TokenKind} (h : c.Holds (k :: ks)) :
    isIndent c = .ok (k matches .indent, c) := by
  refine (bind_ok (p := kind) (c := c) rfl).trans ?_
  rw [h.peek]
  cases k <;> rfl

namespace Parse.Yields

variable {inner : Inner} {room : Nat} {ks : List TokenKind} {P : Expr → Prop}

theorem name (x : String) :
    (primary inner room).Yields [.ident x] fun e => ∃ loc, e = .name loc x := by
  intro c k more closes holds
  exact ⟨.name c.peek.loc x, c.advance, (bind_ok (peek_of holds)).trans rfl, ⟨_, rfl⟩,
    holds.advance nofun⟩

-- Without a comma, an expression list is its only expression.
theorem expressionList (h : (inner.expression room).Yields ks P) {c : Cursor} {k : TokenKind}
    {more : List TokenKind} (closes : k.Closes) (single : k ≠ .symbol .comma)
    (holds : c.Holds (ks ++ k :: more)) :
    ∃ e c', StepTrace.expressionList inner room c = .ok (e, c') ∧ P e ∧ c'.Holds (k :: more) := by
  obtain ⟨e, c', read, he, holds'⟩ := h c k more closes holds
  have ends : Parse.isSymbol .comma c' = .ok (false, c') := by
    rw [isSymbol_eq, holds'.peek]
    cases closes with
    | comma => exact absurd rfl single
    | _ => rfl
  exact ⟨e, c', (bind_ok (here_eq c)).trans ((bind_ok read).trans ((bind_ok ends).trans rfl)), he,
    holds'⟩

end Parse.Yields

/-! ### The statement and its program -/

-- The program assigns the literal to the name and does nothing else.
inductive Program.Assigns (x : String) (l : Literal) : Program → Prop
  | intro (loc loc' : Location) {e : Expr} (value : e.Writes l) :
    Assigns x l [.assign loc [.name loc' x] e]

section

variable {field : String → Location → Except SyntaxError Expr} {levels room : Nat} {x : String}
  {l : Literal} {c : Cursor}

theorem expressionStatement_assign
    (value : ((readers field (levels + 1)).expression (room + 1)).Yields l.kinds (·.Writes l))
    (holds : c.Holds (.ident x :: .symbol .eq :: (l.kinds ++ [.newline, .eof]))) :
    ∃ loc loc' e c', expressionStatement (.of (readers field (levels + 1))) (room + 1) c =
      .ok (.assign loc [.name loc' x] e, c') ∧ e.Writes l ∧ c'.Holds [.newline, .eof] := by
  have target : ((readers field (levels + 1)).expression (room + 1)).Yields [.ident x]
      fun e => ∃ loc, e = .name loc x := Yields.expression (.ident x) rfl (.name x)
  obtain ⟨_, c₁, read₁, ⟨loc', rfl⟩, holds₁⟩ :=
    target.expressionList (c := c) .eq (by simp) holds
  obtain ⟨e, c₂, read₂, he, holds₂⟩ :=
    value.expressionList (c := c₁.advance) .newline (by simp) (holds₁.advance nofun)
  have assigned : Parse.isSymbol .eq c₁ = .ok (true, c₁) := by
    rw [isSymbol_eq, holds₁.peek]
    rfl
  have shorter : c₂.rest.length < c₁.rest.length := by
    have before := congrArg List.length holds₁
    have after := congrArg List.length holds₂
    simp only [List.length_map, List.length_append, List.length_cons] at before after
    omega
  refine ⟨c.peek.loc, loc', e, c₂, (bind_ok (here_eq c)).trans ((bind_ok read₁).trans
    ((bind_ok assigned).trans ((bind_ok (many_of_some ((bind_ok (accept_of holds₁ rfl)).trans
      ((bind_ok read₂).trans rfl)) shorter ?_)).trans rfl))), he, holds₂⟩
  exact (bind_ok (accept_of_other holds₂ rfl)).trans rfl

theorem simpleLine_assign
    (value : ((readers field (levels + 1)).expression (room + 1)).Yields l.kinds (·.Writes l))
    (holds : c.Holds (.ident x :: .symbol .eq :: (l.kinds ++ [.newline, .eof]))) :
    ∃ loc loc' e c', simpleLine (.of (readers field (levels + 1))) (room + 1) c =
      .ok ([.assign loc [.name loc' x] e], c') ∧ e.Writes l ∧ c'.Holds [.eof] := by
  obtain ⟨loc, loc', e, c₁, read, he, holds₁⟩ := expressionStatement_assign value holds
  have simple : simpleStatement (.of (readers field (levels + 1))) (room + 1) c =
      .ok (.assign loc [.name loc' x] e, c₁) := (bind_ok (peek_of holds)).trans read
  have single : accept .semicolon c₁ = .ok (false, c₁) := accept_of_other holds₁ rfl
  have line : passIf Parse.isNewline c₁ = .ok (true, c₁.advance) :=
    passIf_of_true (isNewline_of holds₁)
  exact ⟨loc, loc', e, c₁.advance, (bind_ok simple).trans ((bind_ok (many_of_none
    ((bind_ok single).trans rfl))).trans ((bind_ok (isEnd_of holds₁)).trans
      ((bind_ok ((bind_ok line).trans rfl)).trans rfl))), he, holds₁.advance nofun⟩

theorem program_assign
    (value : ((readers field (levels + 1)).expression maxNesting).Yields l.kinds (·.Writes l))
    (holds : c.Holds (.ident x :: .symbol .eq :: (l.kinds ++ [.newline, .eof]))) :
    ∃ p c', program (.of (readers field (levels + 1))) c = .ok (p, c') ∧ p.Assigns x l := by
  obtain ⟨loc, loc', e, c₁, read, he, holds₁⟩ := simpleLine_assign value holds
  have start : passIf Parse.isNewline c = .ok (false, c) := passIf_of_false (isNewline_of holds)
  have shorter : c₁.rest.length < c.rest.length := by
    have before := congrArg List.length holds
    have after := congrArg List.length holds₁
    simp only [List.length_map, List.length_append, List.length_cons] at before after
    omega
  refine ⟨_, c₁, (bind_ok (many_of_some ((bind_ok (isEnd_of holds)).trans
    ((bind_ok start).trans ((bind_ok (isIndent_of holds)).trans
      ((bind_ok ((bind_ok (peek_of holds)).trans read)).trans rfl)))) shorter
        ((bind_ok (isEnd_of holds₁)).trans rfl))).trans rfl, .intro loc loc' he⟩

end

/-! ### Texts -/

namespace Literal

theorem length_le_intercalate {α : Type} (kinds : α → List TokenKind) {as : List α} {a : α}
    (h : a ∈ as) :
    (kinds a).length ≤ ([TokenKind.symbol .comma].intercalate (as.map kinds)).length := by
  cases as with
  | nil => cases h
  | cons first rest =>
    rw [intercalate_kinds, List.length_append]
    rcases List.mem_cons.1 h with rfl | h
    · exact Nat.le_add_right ..
    · have inside : (.symbol .comma :: kinds a).Sublist (commaKinds kinds rest) :=
        List.sublist_flatten_of_mem (List.mem_map.2 ⟨a, h, rfl⟩)
      have := inside.length_le
      rw [List.length_cons] at this
      omega

theorem length_kinds_lt {l part : Literal} (h : part ∈ l.parts) :
    part.kinds.length < l.kinds.length := by
  cases l with
  | list items | set items =>
    have := length_le_intercalate kinds h
    rw [← kindsAll_eq_map, parts] at this
    simp only [kinds, List.length_append, List.length_cons, List.length_nil]
    omega
  | tuple items =>
    have := length_le_intercalate kinds h
    rw [← kindsAll_eq_map, parts] at this
    cases items with
    | nil => cases h
    | cons first rest =>
      cases rest with
      | nil =>
        rw [List.mem_singleton.1 h]
        simp only [kinds, List.length_append, List.length_cons]
        omega
      | cons second rest =>
        simp only [kinds, List.length_append, List.length_cons, List.length_nil]
        omega
  | dict entries =>
    obtain ⟨e, he, here⟩ := List.mem_flatMap.1 h
    have := length_le_intercalate
      (fun e : Literal × Literal => e.1.kinds ++ .symbol .colon :: e.2.kinds) he
    rw [← kindsEntries_eq_map] at this
    simp only [kinds, List.length_append, List.length_cons, List.length_nil] at this ⊢
    rcases List.mem_pair.1 here with rfl | rfl <;> omega
  | _ => cases h

-- Every container has brackets of its own.
theorem depth_le_length_kinds (l : Literal) : l.depth ≤ l.kinds.length := by
  obtain ⟨n, bound⟩ : ∃ n, l.depth ≤ n := ⟨_, Nat.le_refl _⟩
  induction n generalizing l with
  | zero => omega
  | succ n ih =>
    rcases l.deepest with shallow | ⟨part, here, same⟩
    · obtain ⟨k, ks, head, -⟩ := l.starts_kinds
      rw [head, List.length_cons]
      omega
    · have := length_kinds_lt here
      have := ih part (by omega)
      omega

end Literal

theorem parseProgram_eq {source : String} {ts : List Token} (scanned : tokens source = .ok ts) :
    parseProgram source =
      (program (.of (readers (fieldAt source.length) (ts.length + 1))) ⟨ts, ⟨1, 1⟩⟩).map Prod.fst := by
  simp only [parseProgram, scanned, bind, Except.bind, StateT.run, Cursor.levels, Except.map, pure,
    Except.pure]

theorem parseProgram_of {source : String} {ts : List Token} {p : Program} {c : Cursor}
    (scanned : tokens source = .ok ts)
    (read : program (.of (readers (fieldAt source.length) (ts.length + 1))) ⟨ts, ⟨1, 1⟩⟩ =
      .ok (p, c)) : parseProgram source = .ok p := by
  rw [parseProgram_eq scanned, read]
  rfl

theorem Heap.Spells.parses {h : Heap} {v : Value} {l : Literal} (spells : h.Spells v l)
    (shallow : l.depth ≤ 150) :
    ∃ p, parseProgram ("x = " ++ l.text) = .ok p ∧ p.Assigns "x" l := by
  obtain ⟨ts, scanned, kinds⟩ := spells.tokens_assignment
  have enough := congrArg List.length kinds
  have deep := l.depth_le_length_kinds
  simp only [List.length_map, List.length_append, List.length_cons] at enough
  have value : ((readers (fieldAt ("x = " ++ l.text).length) (ts.length + 1)).expression
      maxNesting).Yields l.kinds (·.Writes l) :=
    spells.yields _ (by omega) (by rw [maxNesting]; omega)
  obtain ⟨p, c, read, assigns⟩ := program_assign (c := ⟨ts, ⟨1, 1⟩⟩) value kinds
  exact ⟨p, parseProgram_of scanned read, assigns⟩

end StepTrace
