import StepTrace.Proofs.Concatenation.Block

/-!
Statements with blocks at two texts. The second text may go on after the last block of the first one,
but not with another branch of its last statement.
-/

set_option autoImplicit false

namespace StepTrace

open Parse

variable {n : Nat} {next : List Token} {j L : Nat}

-- After the end of a line, if it comes next.
def Ended (n : Nat) (next : List Token) (j L : Nat) : Bool → Cursor → Cursor → Prop
  | true => InBlock n next j L
  | false => InRow n next j L (OnLine n)

-- What goes on is no other branch of a statement before it.
def NoBranch (next : List Token) : Prop :=
  ∀ t ∈ next.head?, t.kind ≠ .keyword .elif ∧ t.kind ≠ .keyword .else

theorem NoBranch.peek (h : NoBranch next) {w : Keyword} (branch : w = .elif ∨ w = .else)
    {c : Cursor} (rest : c.rest = next) : c.peek.kind.isKeyword w = false := by
  rw [Bool.eq_false_iff, Ne, TokenKind.isKeyword_iff, Cursor.peek, rest]
  cases next with
  | nil => exact TokenKind.noConfusion
  | cons t ts =>
    obtain ⟨noElif, noElse⟩ := h t rfl
    rcases branch with rfl | rfl
    · exact noElif
    · exact noElse

theorem InBlock.branch {c c' : Cursor} (h : InBlock n next j L c c') (free : NoBranch next)
    {w : Keyword} (branch : w = .elif ∨ w = .else) :
    c'.peek.kind.isKeyword w = c.peek.kind.isKeyword w := by
  by_cases last : c.peek.kind = .eof
  · rw [free.peek branch (h.done last), last]
    rfl
  · rw [h.kind last]

theorem newline_follows : Follows n (InRow n next j L (OnLine n)) (passIf isNewline) (passIf isNewline)
    (Ended n next j L) :=
  .passes asks_isNewline (fun row => congrArg _ row.kind)
    (fun row ends => row.newline (TokenKind.isNewline_iff.1 ends)) fun row _ => row

theorem branch_follows (free : NoBranch next) {w : Keyword} (branch : w = .elif ∨ w = .else) :
    Follows n (InBlock n next j L) (isKeyword w) (isKeyword w) fun _ => InBlock n next j L :=
  (Follows.ask (asks_isKeyword w) fun block => block.branch free branch).post And.left

-- After passing the word of a branch, if it comes next.
def Branched (n : Nat) (next : List Token) (j L : Nat) : Bool → Cursor → Cursor → Prop
  | true => InRow n next j L (Passed n)
  | false => InBlock n next j L

theorem acceptBranch_follows (free : NoBranch next) {w : Keyword} (branch : w = .elif ∨ w = .else) :
    Follows n (InBlock n next j L) (acceptWord w) (acceptWord w) (Branched n next j L) := by
  refine .passes (asks_isKeyword w) (fun block => block.branch free branch) (fun block found => ?_)
    fun block _ => block
  have kind := TokenKind.isKeyword_iff.1 found
  obtain ⟨-, row⟩ := block.row (by rw [kind]; nofun) (by rw [kind]; nofun)
  obtain ⟨b, more, rest, line⟩ := row
  refine ⟨b, more, fun ends => ?_, Ahead.advance ⟨line, kind⟩ rfl⟩
  exact ⟨(rest ends).1, Nat.le_trans (rest ends).2 (Nat.sub_le ..)⟩

theorem InRow.ahead {c c' : Cursor} {k : TokenKind}
    (row : InRow n next j L (fun b => Ahead n b k) c c') : InRow n next j L (OnLine n) c c' :=
  row.imp (Nat.le_refl L) fun _ => And.left

theorem InRow.passed {c c' : Cursor} (row : InRow n next j L (Passed n) c c') :
    InRow n next j L (OnLine n) c c' :=
  row.imp (Nat.le_refl L) fun _ => And.left

theorem passed_of_true {test : Parse Bool} {f : TokenKind → Bool} (asks : Asks test f)
    {c d : Cursor} (h : passIf test c = .ok (true, d)) :
    f c.peek.kind = true ∧ d = c.advance := by
  cases answer : f c.peek.kind with
  | true =>
    rw [passIf_of_true (by rw [asks, answer])] at h
    cases h
    exact ⟨rfl, rfl⟩
  | false =>
    rw [passIf_of_false (by rw [asks, answer])] at h
    cases h

namespace Follows

-- A line of a block is shorter than what is left of the block.
theorem ofRow {α : Type} [Moves α] {x y : Parse α} {Q : α → Prop}
    (h : ∀ m, Follows n (InRow n next j m (OnLine n)) x y
      fun a d d' => Q a ∧ InBlock n next j m d d') (m : Nat) :
    Follows n (fun c c' => (InBlock n next j L c c' ∧ c.rest.length = m) ∧
      c.peek.kind ≠ .dedent ∧ c.peek.kind ≠ .eof) x y
      fun a d d' => Q a ∧ InBlock n next j L d d' ∧ d.rest.length < m := by
  rintro c c' a d ⟨⟨block, rfl⟩, inside, more⟩ read
  have here : InBlock n next j c.rest.length c c' := ⟨block.1, Nat.le_refl _⟩
  obtain ⟨some, row⟩ := here.row inside more
  obtain ⟨d', read', good, after⟩ := h _ c c' a d row read
  exact ⟨d', read', good, after.mono (Nat.le_trans (Nat.sub_le ..) block.2),
    Nat.lt_of_le_of_lt after.2 (Nat.sub_one_lt_of_lt some)⟩

-- A question that has only one good answer.
theorem insist {α : Type} [Moves α] {R W : Cursor → Cursor → Prop} {S : α → Cursor → Cursor → Prop}
    {t t' : Parse Bool} {f g : Bool → Parse α}
    (yes : ∀ {c c' d}, R c c' → t c = .ok (true, d) → ∃ d', t' c' = .ok (true, d') ∧ W d d')
    (no : ∀ c, ∃ e, f false c = .error e) (rest : Follows n W (f true) (g true) S) :
    Follows n R (t >>= f) (t' >>= g) S := by
  intro c c' a e related read
  obtain ⟨r, d, answer, read⟩ := of_bind_ok read
  cases r with
  | false =>
    obtain ⟨e, failed⟩ := no d
    cases failed.symm.trans read
  | true =>
    obtain ⟨d', answer', related'⟩ := yes related answer
    obtain ⟨e', read', related''⟩ := rest d d' a e related' read
    exact ⟨e', (bind_ok answer').trans read', related''⟩

theorem given {α : Type} [Moves α] {R : Cursor → Cursor → Prop} {S : α → Cursor → Cursor → Prop}
    {x y : Parse α} {Q : Prop} (h : ∀ {c c'}, R c c' → Q) (follows : Q → Follows n R x y S) :
    Follows n R x y S :=
  fun c c' a d related => follows (h related) c c' a d related

end Follows

namespace Parts.Agrees

variable {p p' : Parts} (P : p.Agrees n p')
include P

theorem simpleLine (room : Nat) : Follows n (InRow n next j L (OnLine n))
    (simpleLine p room) (StepTrace.simpleLine p' room) fun _ => InBlock n next j L := by
  refine .bind (.row fun _ => P.simpleStatement room) fun first => ?_
  refine .bind (.row fun _ => .many (fun _ => ?_) [first]) fun stmts => ?_
  · refine .bindIf (.accept .semicolon) (.bind .isNewline fun _ => .bind .isEnd fun _ => ?_)
      (.keep rfl)
    exact .ite (.keep rfl) (.bind (P.simpleStatement room) fun _ => .keep rfl)
  · refine .bind (.ask asks_isEnd fun row => congrArg _ row.kind) fun ended => ?_
    cases ended with
    | true => exact .given (fun row => (row.1.more (TokenKind.isEnd_iff.1 row.2)).elim) False.elim
    | false =>
      refine .bind (.pre ?_ And.left) fun _ => .ret rfl id
      exact .bindIf newline_follows (.ret rfl id) (.never fun _ => ⟨_, rfl⟩)

end Parts.Agrees

-- At the end of a block.
def Closing (n : Nat) (next : List Token) (j L : Nat) (c c' : Cursor) : Prop :=
  InBlock n next (j + 1) L c c' ∧ c.peek.kind = .dedent

-- The reader of blocks at two texts.
def BlocksFollow (n : Nat) (next : List Token) (block block' : Nat → Parse (List Stmt)) : Prop :=
  ∀ (j L room : Nat), Follows n (InRow n next j L (OnLine n)) (block room) (block' room)
    fun _ => InBlock n next j L

namespace Parts.Agrees

variable {p p' : Parts} (P : p.Agrees n p') {block block' : Nat → Parse (List Stmt)}
  (B : BlocksFollow n next block block') (free : NoBranch next)
include P B free

theorem ifWith {elseIf elseIf' : Parse Stmt}
    (h : Follows n (InRow n next j L (Passed n)) elseIf elseIf' fun _ => InBlock n next j L)
    (room : Nat) : Follows n (InRow n next j L (Passed n)) (ifWith p block elseIf room)
      (StepTrace.ifWith p' block' elseIf' room) fun _ => InBlock n next j L := by
  refine .bind (.row fun _ => .previous) fun loc => ?_
  refine .bind (.row fun _ => P.inner.expression room) fun condition => ?_
  refine .bind (B j L room) fun body => ?_
  refine .bindIf (acceptBranch_follows free (.inl rfl)) ?_ ?_
  · exact .bind h fun other => .keep (move_ifElse n loc condition body [other])
  · refine .bindIf (acceptBranch_follows free (.inr rfl)) ?_ (.keep (move_ifElse ..))
    exact .bind (.pre (B j L room) InRow.passed) fun orelse => .keep (move_ifElse ..)

theorem ifStatement (room : Nat) : Follows n (InRow n next j L (Passed n))
    (ifStatement p block room) (StepTrace.ifStatement p' block' room)
    fun _ => InBlock n next j L := by
  induction room with
  | zero => exact P.ifWith B free .fail 0
  | succ room ih => exact P.ifWith B free ih (room + 1)

theorem compound (room : Nat) (loc : Location) (k : Keyword) :
    Follows n (InRow n next j L (OnLine n)) (compound p block room loc k)
      (StepTrace.compound p' block' room (move n loc) k) fun _ => InBlock n next j L := by
  have one : Keeps n (InRow n next j L (OnLine n)) (p.inner.expression room)
      (p'.inner.expression room) := .row fun _ => P.inner.expression room
  have noElse : Follows n (InBlock n next j L) (isKeyword .else) (isKeyword .else)
      fun _ => InBlock n next j L := branch_follows free (.inr rfl)
  cases k with
  | «while» =>
    refine .bind one fun condition => .bind (B j L room) fun body => .bind noElse fun _ => ?_
    exact .guard rfl (fun _ => ⟨_, rfl⟩) (.keep (move_while ..))
  | «for» =>
    refine .bind (.row fun _ => P.targets room) fun target => ?_
    refine .bind (.row fun _ => .demand (.acceptWord .in)) fun _ => ?_
    refine .bind (.row fun _ => P.inner.expressionList room) fun iter => ?_
    refine .bind (B j L room) fun body => .bind noElse fun _ => ?_
    exact .guard rfl (fun _ => ⟨_, rfl⟩) (.keep (move_for ..))
  | define =>
    refine .bind (.row fun _ => .identifier) fun name => ?_
    refine .bind (.row fun _ => .expect .lparen) fun _ => ?_
    refine .bind (.row fun _ => P.inner.parameters room .rparen true) fun params => ?_
    refine .bind (.row fun _ => .expect .rparen) fun _ => ?_
    refine .bind (.row fun _ => .accept .arrow) fun _ => .skip (.discard one) ?_
    exact .bind (B j L room) fun body => .keep (move_function ..)
  | _ =>
    refine .bind (.row fun _ => .identifier) fun name => ?_
    have rest (base : Option Expr) : Follows n (InRow n next j L (OnLine n))
        (block room >>= fun body => pure (Stmt.class loc name base body))
        (block' room >>= fun body => pure (Stmt.class (move n loc) name (move n base) body))
        fun _ => InBlock n next j L :=
      .bind (B j L room) fun body => .keep (move_class ..)
    refine .bindIf (.row fun _ => .accept .lparen) ?_ (rest none)
    refine .bind (.row fun _ => .isSymbol .rparen) fun _ => .ifNone one fun base => ?_
    exact .bind (.row fun _ => .expect .rparen) fun _ => rest base

theorem statement (room : Nat) : Follows n (InRow n next j L (OnLine n)) (statement p block room)
    (StepTrace.statement p' block' room) fun _ => InBlock n next j L := by
  refine .bind (.row fun _ => .peek) fun t => ?_
  obtain ⟨kind, loc⟩ := t
  have line : Follows n (InRow n next j L fun b => Ahead n b kind) (StepTrace.simpleLine p room)
      (StepTrace.simpleLine p' room) fun _ => InBlock n next j L :=
    .pre (P.simpleLine room) InRow.ahead
  cases kind with
  | keyword k =>
    have other : Follows n (InRow n next j L fun b => Ahead n b (.keyword k))
        (if [Keyword.while, .for, .define, .cls].contains k then
          advance >>= fun _ => StepTrace.compound p block room loc k >>= fun s => pure [s]
        else StepTrace.simpleLine p room)
        (if [Keyword.while, .for, .define, .cls].contains k then
          advance >>= fun _ => StepTrace.compound p' block' room (move n loc) k >>= fun s => pure [s]
        else StepTrace.simpleLine p' room) fun _ => InBlock n next j L :=
      .ite (.bind (.row fun _ => .advance rfl) fun _ =>
        .bind (.pre (P.compound B free room loc k) InRow.passed) fun _ => .keep rfl) line
    cases k with
    | «if» =>
      exact .bind (.row fun _ => .advance rfl) fun _ => .bind (P.ifStatement B free room) fun _ =>
        .keep rfl
    | _ => exact other
  | _ => exact line

-- A line of a block, blank or not.
theorem line (room : Nat) : Follows n (InRow n next j L (OnLine n))
    (passIf isNewline >>= fun r =>
      if r then pure (some []) else StepTrace.statement p block room >>= fun s => pure (some s))
    (passIf isNewline >>= fun r =>
      if r then pure (some []) else StepTrace.statement p' block' room >>= fun s => pure (some s))
    fun r d d' => r ≠ none ∧ InBlock n next j L d d' :=
  .bindIf newline_follows (.ret rfl fun block => ⟨nofun, block⟩)
    (.bind (P.statement B free room) fun _ => .ret rfl fun block => ⟨nofun, block⟩)

-- A step through the lines of a block.
theorem blockLine (room m : Nat) :
    Follows n (fun c c' => InBlock n next (j + 1) L c c' ∧ c.rest.length = m)
      (isDedent >>= fun closes => isEnd >>= fun ended =>
        if closes || ended then pure none
        else passIf isNewline >>= fun r =>
          if r then pure (some [])
          else StepTrace.statement p block room >>= fun s => pure (some s))
      (isDedent >>= fun closes => isEnd >>= fun ended =>
        if closes || ended then pure none
        else passIf isNewline >>= fun r =>
          if r then pure (some [])
          else StepTrace.statement p' block' room >>= fun s => pure (some s))
      (Follows.Repeated (InBlock n next (j + 1) L) (Closing n next j L) m) := by
  refine .bind (.ask asks_isDedent fun h => congrArg _ (h.1.kind h.1.more)) fun closes => ?_
  refine .bind (.ask asks_isEnd fun h => congrArg _ (h.1.1.kind h.1.1.more)) fun ended => ?_
  cases ended with
  | true => exact .given (fun h => h.1.1.1.more (TokenKind.isEnd_iff.1 h.2)) False.elim
  | false => cases closes with
    | true => exact .ret rfl fun h => ⟨h.1.1.1, TokenKind.isDedent_iff.1 h.1.2⟩
    | false =>
      refine .weaken (.ofRow (fun m => P.line B free room) m) (fun h => ⟨h.1.1, ?_, ?_⟩)
        fun {r _ _} h => ?_
      · exact fun inside => Bool.false_ne_true (h.1.2.symm.trans (TokenKind.isDedent_iff.2 inside))
      · exact h.1.1.1.more
      · cases r with
        | none => exact (h.1 rfl).elim
        | some _ => exact ⟨h.2.1, .inl h.2.2⟩


theorem suite (room : Nat) : Follows n (InRow n next j L (OnLine n)) (suite p block room)
    (StepTrace.suite p' block' room) fun _ => InBlock n next j L := by
  refine .bind (.row fun _ => .expect .colon) fun _ => ?_
  refine .bindIfNot newline_follows (P.simpleLine room) ?_
  refine .insist (W := InBlock n next (j + 1) L) ?_ (fun _ => ⟨_, rfl⟩) ?_
  · intro c c' d block read
    obtain ⟨opens, rfl⟩ := passed_of_true asks_isIndent read
    have indent := TokenKind.isIndent_iff.1 opens
    have same := block.kind (by rw [indent]; nofun)
    refine ⟨c'.advance, passIf_of_true ?_, block.indent indent⟩
    rw [asks_isIndent, same, opens]
  · refine .bind (S := fun _ => Closing n next j L) ?_ fun body => ?_
    · exact .manyUntil (fun block => block.1.length) (fun _ m => P.blockLine B free room m) []
    · refine .bind (.discard (.passes asks_isDedent (fun h => congrArg _ (h.1.kind h.1.more))
        (fun h _ => h.1.dedent h.2) fun h other => ?_)) fun _ => .keep List.map_flatten
      rw [TokenKind.isDedent_iff.2 h.2] at other
      cases other

end Parts.Agrees

theorem Parts.Agrees.blocks {p p' : Parts} (P : p.Agrees n p') (free : NoBranch next)
    (levels : Nat) : BlocksFollow n next (blockAt p levels) (blockAt p' levels) := by
  induction levels with
  | zero => exact fun _ _ _ => .fail
  | succ levels ih =>
    intro j L room
    cases room with
    | zero => exact .fail
    | succ room => exact P.suite ih free room

end StepTrace
