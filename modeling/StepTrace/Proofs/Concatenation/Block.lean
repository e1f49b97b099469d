import StepTrace.Proofs.Concatenation.Expression
import StepTrace.Grammar.Statement

/-!
The grammar of statements and of blocks at two texts. Where the first text ends, the second one may
go on with further lines; where it closes its blocks too, the second one closes them and goes on.
-/

set_option autoImplicit false

namespace StepTrace

section

open Parse

variable {n : Nat} {b : Break} {α β : Type} [Moves α] [Moves β]

/-! ### Simple statements -/

structure Parts.Agrees (n : Nat) (p p' : Parts) : Prop where
  inner : p.inner.Agrees n p'.inner
  postfixAt : ∀ {b : Break} (room : Nat),
    Keeps n (OnLine n b) (p.postfixAt room) (p'.postfixAt room)
  targets : ∀ {b : Break} (room : Nat),
    Keeps n (OnLine n b) (p.targets room) (p'.targets room)

theorem Inner.Agrees.parts {i i' : Inner} (I : i.Agrees n i') :
    (Parts.of i).Agrees n (Parts.of i') where
  inner := I
  postfixAt := I.postfixExpr
  targets := fun room => Keeps.targetList (Keeps.bitwiseOr (Keeps.unary I.postfixExpr) room)

namespace Keeps

theorem atStatementEnd : Keeps n (OnLine n b) atStatementEnd atStatementEnd :=
  .look fun k => by
    cases k with
    | symbol s => cases s <;> exact ⟨_, rfl⟩
    | _ => exact ⟨_, rfl⟩

theorem dottedName : Keeps n (OnLine n b) dottedName dottedName := by
  refine .bind .identifier fun first => .bind (.many (fun _ => ?_) []) fun more => .keep ?_
  · exact .bindIf (.accept .dot) (.bind .identifier fun _ => .keep rfl) (.keep rfl)
  · rw [move_id n (fun _ => rfl) more]
    rfl

theorem alias? : Keeps n (OnLine n b) alias? alias? :=
  .bindIf (.acceptWord .as) (.bind .identifier fun _ => .keep rfl) (.keep rfl)

theorem move_alias (name : Option String) : move n name = name := by
  cases name <;> rfl

theorem importedName : Keeps n (OnLine n b) importedName importedName :=
  .bind .identifier fun name => .bind alias? fun as => .keep (by rw [move_alias]; rfl)

theorem fromImport (loc : Location) :
    Keeps n (OnLine n b) (fromImport loc) (fromImport (move n loc)) := by
  refine .bind dottedName fun module => .bind (.demand (.acceptWord .imports)) fun _ => ?_
  refine .bind (.accept .lparen) fun bracketed => .bind importedName fun first => ?_
  refine .bind (.commaSeparated (.ite (.isSymbol .rparen) (.keep rfl)) (fun _ => importedName)
    [first]) fun names => ?_
  refine .skip (.expect .rparen) (.keep ?_)
  rw [move_id n (fun _ => rfl) names]
  rfl

theorem isPlace_shift (e : Expr) : (move n e).isPlace = e.isPlace := by
  cases e <;> rfl

theorem augmented_plain : Plain augmented? := .of rfl rfl rfl rfl

theorem allAssignable {R : Cursor → Cursor → Prop} (targets : List Expr) :
    Keeps n R (targets.forM StepTrace.ensureAssignable)
      ((move n targets).forM StepTrace.ensureAssignable) := by
  induction targets with
  | nil => exact .keep rfl
  | cons target rest ih => exact .bind (ensureAssignable target) fun _ => ih

end Keeps

namespace Parts.Agrees

variable {p p' : Parts} (P : p.Agrees n p')
include P

theorem expressionStatement (room : Nat) :
    Keeps n (OnLine n b) (expressionStatement p room) (StepTrace.expressionStatement p' room) := by
  have list {b : Break} := P.inner.expressionList (b := b) room
  refine .bind .here fun loc => .bind list fun first => .bindIf (.isSymbol .eq) ?_ ?_
  · refine .bind (.many (fun _ => ?_) []) fun rest => ?_
    · exact .bindIf (.accept .eq) (.bind list fun _ => .keep rfl) (.keep rfl)
    · have targets : (move n (first :: rest)).dropLast = move n (first :: rest).dropLast :=
        List.map_dropLast.symm
      have value : (move n (first :: rest)).getLastD (move n first) =
          move n ((first :: rest).getLastD first) := List.getLastD_map
      change Keeps n _ _ ((move n (first :: rest)).dropLast.forM ensureAssignable >>= fun _ =>
        pure (Stmt.assign (move n loc) (move n (first :: rest)).dropLast
          ((move n (first :: rest)).getLastD (move n first))))
      rw [targets, value]
      exact .bind (Keeps.allAssignable _) fun _ => .keep (move_assign ..)
  · refine .bind .kind fun k => ?_
    rw [show move n k = k from rfl]
    cases found : augmented? k with
    | some op =>
      refine .pass (Keeps.augmented_plain.isLayout found) ?_
      refine .guardNot (Keeps.isPlace_shift first) (fun _ => ⟨_, rfl⟩) ?_
      exact .bind list fun _ => .keep rfl
    | none =>
      refine .pre (.bindIf (.accept .colon) ?_ (.keep rfl)) And.left
      refine .bind (Keeps.ensureAssignable first) fun _ => .bind (.discard (P.inner.expression room))
        fun _ => .bindIf (.accept .eq) ?_ (.keep rfl)
      exact .bind list fun value => .keep (move_assign n loc [first] value)

theorem simpleStatement (room : Nat) :
    Keeps n (OnLine n b) (simpleStatement p room) (StepTrace.simpleStatement p' room) := by
  have list {b : Break} := P.inner.expressionList (b := b) room
  have one {b : Break} := P.inner.expression (b := b) room
  refine .bind .peek fun t => ?_
  obtain ⟨kind, loc⟩ := t
  cases kind with
  | keyword k => cases k with
    | pass | «break» | «continue» => exact .pass rfl (.keep rfl)
    | «return» =>
      exact .pass rfl (.bindIf Keeps.atStatementEnd (.keep rfl) (.bind list fun _ => .keep rfl))
    | global =>
      refine .pass rfl (.bind .identifier fun first => ?_)
      refine .bind (.commaSeparated (.keep rfl) (fun _ => .identifier) [first]) fun names => ?_
      exact .keep (by rw [move_id n (fun _ => rfl) names]; rfl)
    | raise =>
      exact .pass rfl (.bindIf Keeps.atStatementEnd (.keep rfl) (.bind one fun _ => .keep rfl))
    | assert =>
      refine .pass rfl (.bind one fun condition => .bindIf (.accept .comma) ?_ (.keep rfl))
      exact .bind one fun _ => .keep rfl
    | del =>
      refine .pass rfl (.bind (P.postfixAt room) fun first => ?_)
      refine .bind (.commaSeparated (.keep rfl) (fun _ => P.postfixAt room) [first])
        fun targets => ?_
      have bad : (move n targets).find? (!·.isAssignable) =
          (targets.find? (!·.isAssignable)).map (move n) := by
        refine (List.find?_map ..).trans (congrArg (Option.map _) ?_)
        exact congrArg (List.find? · targets) (funext fun e => congrArg _ (e.isAssignable_shift n))
      dsimp only
      rw [bad]
      cases targets.find? (!·.isAssignable) with
      | some e => exact .failAt
      | none => exact .keep (move_delete ..)
    | imports =>
      refine .pass rfl (.bind Keeps.dottedName fun module => .bind Keeps.alias? fun as => ?_)
      exact .keep (by rw [Keeps.move_alias]; rfl)
    | «from» => exact .pass rfl (Keeps.fromImport loc)
    | elif | «else» => exact .fail
    | _ => exact .pre (P.expressionStatement room) And.left
  | reserved word => exact .failAt
  | _ => exact .pre (P.expressionStatement room) And.left

end Parts.Agrees

end

section

open Parse

variable {n : Nat} {next : List Token} {j L : Nat}

/-! ### What is left inside blocks -/

-- What is left of the texts inside a number of blocks. The second text goes on with `next`, and
-- closes its last blocks elsewhere.
inductive Remaining (n : Nat) (next : List Token) : Nat → List Token → List Token → Prop
  | done (loc : Location) : Remaining n next 0 [⟨.eof, loc⟩] next
  | dedent {j : Nat} {ts ts' : List Token} (loc loc' : Location) (rest : Remaining n next j ts ts') :
    Remaining n next (j + 1) (⟨.dedent, loc⟩ :: ts) (⟨.dedent, loc'⟩ :: ts')
  | indent {j : Nat} {ts ts' : List Token} (loc : Location) (rest : Remaining n next (j + 1) ts ts') :
    Remaining n next j (⟨.indent, loc⟩ :: ts) (⟨.indent, loc.shift n⟩ :: ts')
  | line {j : Nat} {ts ts' vs : List Token} (plain : ∀ v ∈ vs, v.kind.isLayout = false)
      (loc : Location) (rest : Remaining n next j ts ts') :
    Remaining n next j (vs ++ ⟨.newline, loc⟩ :: ts)
      (vs.map (Token.shift n) ++ ⟨.newline, loc.shift n⟩ :: ts')

theorem Remaining.rows {k : Nat} {us ts ts' : List Token} (rows : Rows k us)
    (rest : Remaining n next k ts ts') :
    Remaining n next 0 (us ++ ts) (us.map (Token.shift n) ++ ts') := by
  induction rows generalizing ts ts' with
  | nil => exact rest
  | indent loc rows ih => simpa [Token.shift] using ih (.indent loc rest)
  | dedent loc rows ih => simpa [Token.shift] using ih (.dedent loc (loc.shift n) rest)
  | line plain loc rows ih => simpa [Token.shift] using ih (.line plain loc rest)

theorem Remaining.dedents (k : Nat) (loc loc' : Location) :
    Remaining n next k (List.replicate k ⟨.dedent, loc⟩ ++ [⟨.eof, loc⟩])
      (List.replicate k ⟨.dedent, loc'⟩ ++ next) := by
  induction k with
  | zero => exact .done loc
  | succ k ih => exact .dedent loc loc' ih

theorem Remaining.length {ts ts' : List Token} (h : Remaining n next j ts ts') :
    ts.length + next.length = ts'.length + 1 := by
  induction h with
  | done => simp; omega
  | dedent _ _ _ ih | indent _ _ ih => simp only [List.length_cons]; omega
  | line _ _ _ ih => simp only [List.length_append, List.length_map, List.length_cons]; omega

-- A line of a block: the cursors stand at its end or, in relation `Q`, before it.
def InRow (n : Nat) (next : List Token) (j L : Nat) (Q : Break → Cursor → Cursor → Prop)
    (c c' : Cursor) : Prop :=
  ∃ b : Break, b.mark.kind ≠ .eof ∧
    (b.mark.kind = .newline → Remaining n next j b.rest b.rest' ∧ b.rest.length ≤ L) ∧ Q b c c'

-- Between the statements of a block.
def InBlock (n : Nat) (next : List Token) (j L : Nat) (c c' : Cursor) : Prop :=
  Remaining n next j c.rest c'.rest ∧ c.rest.length ≤ L

theorem Follows.row {α : Type} [Moves α] {x y : Parse α} {Q : Break → Cursor → Cursor → Prop}
    {S : Break → α → Cursor → Cursor → Prop} (h : ∀ b, Follows n (Q b) x y (S b)) :
    Follows n (InRow n next j L Q) x y fun a => InRow n next j L fun b => S b a := by
  rintro c c' a d ⟨b, more, rest, related⟩ read
  obtain ⟨d', read', related'⟩ := h b c c' a d related read
  exact ⟨d', read', b, more, rest, related'⟩

section

variable {c c' : Cursor}

theorem InRow.imp {Q Q' : Break → Cursor → Cursor → Prop} {L' : Nat} (h : InRow n next j L Q c c')
    (le : L ≤ L') (imp : ∀ b, Q b c c' → Q' b c c') : InRow n next j L' Q' c c' := by
  obtain ⟨b, more, rest, related⟩ := h
  exact ⟨b, more, fun line => ⟨(rest line).1, Nat.le_trans (rest line).2 le⟩, imp b related⟩

theorem Stretch.of_plain {b : Break} {vs : List Token} (plain : ∀ v ∈ vs, v.kind.isLayout = false) :
    Stretch n b (vs ++ b.mark :: b.rest) (vs.map (Token.shift n) ++ b.mark.shift n :: b.rest') := by
  induction vs with
  | nil => exact .ends
  | cons v vs ih =>
    obtain ⟨plain, others⟩ := List.forall_mem_cons.1 plain
    exact .token plain (ih others)

-- What comes next in a block, and what follows it.
theorem InBlock.row (h : InBlock n next j L c c') (inside : c.peek.kind ≠ .dedent)
    (more : c.peek.kind ≠ .eof) : 0 < L ∧ InRow n next j (L - 1) (OnLine n) c c' := by
  obtain ⟨ts, loc⟩ := c
  obtain ⟨ts', loc'⟩ := c'
  obtain ⟨rest, short⟩ := h
  dsimp only at rest short
  cases rest with
  | done => exact (more rfl).elim
  | dedent => exact (inside rfl).elim
  | indent loc rest =>
    refine ⟨by simp only [List.length_cons] at short; omega, ⟨⟨.indent, loc⟩, rfl, _, _⟩, nofun,
      nofun, .ends⟩
  | line plain loc rest =>
    simp only [List.length_append, List.length_cons] at short
    exact ⟨by omega, ⟨⟨.newline, loc⟩, rfl, _, _⟩, nofun, fun _ => ⟨rest, by dsimp only; omega⟩,
      .of_plain plain⟩

theorem head_plain {v : Token} {vs : List Token} {k : TokenKind}
    (plain : ∀ v' ∈ v :: vs, v'.kind.isLayout = false) (same : v.kind = k) : k.isLayout = false :=
  same ▸ plain v (List.mem_cons_self ..)

theorem InBlock.kind (h : InBlock n next j L c c') (more : c.peek.kind ≠ .eof) :
    c'.peek.kind = c.peek.kind := by
  obtain ⟨ts, loc⟩ := c
  obtain ⟨ts', loc'⟩ := c'
  obtain ⟨rest, -⟩ := h
  dsimp only at rest
  cases rest with
  | done => exact (more rfl).elim
  | dedent | indent => rfl
  | @line _ _ _ vs plain => cases vs <;> rfl

theorem InBlock.more (h : InBlock n next (j + 1) L c c') : c.peek.kind ≠ .eof := by
  obtain ⟨ts, loc⟩ := c
  obtain ⟨ts', loc'⟩ := c'
  obtain ⟨rest, -⟩ := h
  dsimp only at rest
  intro last
  cases rest with
  | dedent | indent => cases last
  | @line _ _ _ vs plain =>
    cases vs with
    | nil => cases last
    | cons v vs => cases head_plain plain last

theorem InBlock.done (h : InBlock n next j L c c') (last : c.peek.kind = .eof) :
    c'.rest = next := by
  obtain ⟨ts, loc⟩ := c
  obtain ⟨ts', loc'⟩ := c'
  obtain ⟨rest, -⟩ := h
  dsimp only at rest
  cases rest with
  | done => rfl
  | dedent | indent => cases last
  | @line _ _ _ vs plain =>
    cases vs with
    | nil => cases last
    | cons v vs => cases head_plain plain last

theorem InBlock.top (h : InBlock n next 0 L c c') : c.peek.kind ≠ .dedent := by
  obtain ⟨ts, loc⟩ := c
  obtain ⟨ts', loc'⟩ := c'
  obtain ⟨rest, -⟩ := h
  dsimp only at rest
  intro closes
  cases rest with
  | done | indent => cases closes
  | @line _ _ _ vs plain =>
    cases vs with
    | nil => cases closes
    | cons v vs => cases head_plain plain closes

theorem InBlock.dedent (h : InBlock n next (j + 1) L c c') (closes : c.peek.kind = .dedent) :
    InBlock n next j L c.advance c'.advance := by
  obtain ⟨ts, loc⟩ := c
  obtain ⟨ts', loc'⟩ := c'
  obtain ⟨rest, short⟩ := h
  dsimp only at rest short
  cases rest with
  | dedent _ _ rest => exact ⟨rest, Nat.le_of_succ_le short⟩
  | indent => cases closes
  | @line _ _ _ vs plain =>
    cases vs with
    | nil => cases closes
    | cons v vs => cases head_plain plain closes

theorem InBlock.indent (h : InBlock n next j L c c') (opens : c.peek.kind = .indent) :
    InBlock n next (j + 1) L c.advance c'.advance := by
  obtain ⟨ts, loc⟩ := c
  obtain ⟨ts', loc'⟩ := c'
  obtain ⟨rest, short⟩ := h
  dsimp only at rest short
  cases rest with
  | done | dedent => cases opens
  | indent _ rest => exact ⟨rest, Nat.le_of_succ_le short⟩
  | @line _ _ _ vs plain =>
    cases vs with
    | nil => cases opens
    | cons v vs => cases head_plain plain opens

theorem InBlock.mono {L' : Nat} (h : InBlock n next j L c c') (le : L ≤ L') :
    InBlock n next j L' c c' :=
  ⟨h.1, Nat.le_trans h.2 le⟩

theorem InRow.newline (h : InRow n next j L (OnLine n) c c') (ends : c.peek.kind = .newline) :
    InBlock n next j L c.advance c'.advance := by
  obtain ⟨b, more, rest, line⟩ := h
  obtain ⟨ts, loc⟩ := c
  obtain ⟨ts', loc'⟩ := c'
  change Stretch n b ts ts' at line
  cases line with
  | ends =>
    rw [Cursor.advance_cons more, Cursor.advance_cons (t := b.mark.shift n) more]
    exact rest ends
  | @token t _ _ plain =>
    rw [show t.kind = .newline from ends] at plain
    cases plain

theorem InRow.more (h : InRow n next j L (OnLine n) c c') : c.peek.kind ≠ .eof := by
  obtain ⟨b, more, -, line⟩ := h
  obtain ⟨ts, loc⟩ := c
  obtain ⟨ts', loc'⟩ := c'
  change Stretch n b ts ts' at line
  cases line with
  | ends => exact more
  | @token t _ _ plain =>
    intro last
    rw [show t.kind = .eof from last] at plain
    cases plain

theorem InRow.kind (h : InRow n next j L (OnLine n) c c') : c'.peek.kind = c.peek.kind := by
  obtain ⟨b, -, -, line⟩ := h
  rw [line.peek]
  rfl

end

/-! ### Questions about the next token -/

def TokenKind.isNewline : TokenKind → Bool
  | .newline => true
  | _ => false

def TokenKind.isEnd : TokenKind → Bool
  | .eof => true
  | _ => false

def TokenKind.isIndent : TokenKind → Bool
  | .indent => true
  | _ => false

def TokenKind.isDedent : TokenKind → Bool
  | .dedent => true
  | _ => false

namespace TokenKind

variable {k : TokenKind}

theorem isNewline_iff : k.isNewline = true ↔ k = .newline := by cases k <;> simp [isNewline]

theorem isEnd_iff : k.isEnd = true ↔ k = .eof := by cases k <;> simp [isEnd]

theorem isIndent_iff : k.isIndent = true ↔ k = .indent := by cases k <;> simp [isIndent]

theorem isDedent_iff : k.isDedent = true ↔ k = .dedent := by cases k <;> simp [isDedent]

theorem isKeyword_iff {w : Keyword} : k.isKeyword w = true ↔ k = .keyword w := by
  cases k <;> simp [isKeyword]

end TokenKind

-- The reader looks at the next token only.
def Asks (test : Parse Bool) (f : TokenKind → Bool) : Prop :=
  ∀ c, test c = .ok (f c.peek.kind, c)

theorem Asks.of {g : TokenKind → Parse Bool} {f : TokenKind → Bool} (h : ∀ k, g k = pure (f k)) :
    Asks (kind >>= g) f := by
  intro c
  refine (bind_ok (p := kind) (c := c) rfl).trans ?_
  rw [h]
  rfl

theorem asks_isNewline : Asks isNewline TokenKind.isNewline := .of fun k => by cases k <;> rfl

theorem asks_isEnd : Asks isEnd TokenKind.isEnd := .of fun k => by cases k <;> rfl

theorem asks_isIndent : Asks isIndent TokenKind.isIndent := .of fun k => by cases k <;> rfl

theorem asks_isDedent : Asks isDedent TokenKind.isDedent := .of fun k => by cases k <;> rfl

theorem asks_isKeyword (w : Keyword) : Asks (isKeyword w) (TokenKind.isKeyword w) :=
  isKeyword_eq w

namespace Follows

variable {R : Cursor → Cursor → Prop} {test : Parse Bool} {f : TokenKind → Bool}

theorem ask (asks : Asks test f)
    (same : ∀ {c c'}, R c c' → f c'.peek.kind = f c.peek.kind) :
    Follows n R test test fun r c c' => R c c' ∧ f c.peek.kind = r := by
  intro c c' r d related read
  rw [asks] at read
  cases read
  exact ⟨c', by rw [asks, same related]; rfl, related, rfl⟩

theorem passes {S : Bool → Cursor → Cursor → Prop} (asks : Asks test f)
    (same : ∀ {c c'}, R c c' → f c'.peek.kind = f c.peek.kind)
    (yes : ∀ {c c'}, R c c' → f c.peek.kind = true → S true c.advance c'.advance)
    (no : ∀ {c c'}, R c c' → f c.peek.kind = false → S false c c') :
    Follows n R (Parse.passIf test) (Parse.passIf test) S := by
  intro c c' r d related read
  have ask' := asks c'
  rw [same related] at ask'
  cases answer : f c.peek.kind with
  | true =>
    rw [passIf_of_true (by rw [asks, answer])] at read
    cases read
    exact ⟨_, passIf_of_true (by rw [ask', answer]), yes related answer⟩
  | false =>
    rw [passIf_of_false (by rw [asks, answer])] at read
    cases read
    exact ⟨_, passIf_of_false (by rw [ask', answer]), no related answer⟩

end Follows

end

end StepTrace
