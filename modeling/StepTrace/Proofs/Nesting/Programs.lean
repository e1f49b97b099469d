import StepTrace.Proofs.Nesting.Expressions

/-!
The grammar of statements with less room and with more, and how deep the programs are that it
accepts. Blocks take room; what stands in the header of a statement takes none for it.
-/

set_option autoImplicit false

namespace StepTrace

open Parse

/-! ### Statements -/

-- A block is read in more than no room, and is no deeper than what is left of it.
def BlockNested (room : Nat) (p : Program) : Prop := ∃ n, room = n + 1 ∧ p.Nested n

-- Readers of blocks, for any two amounts of room.
def BlocksCap (block block' : Nat → Parse (List Stmt)) : Prop :=
  ∀ ⦃room room' : Nat⦄, room ≤ room' → Caps (BlockNested room) (block room) (block' room')

structure Parts.Within (p p' : Parts) : Prop where
  inner : p.inner.Within p'.inner
  postfixAt : RoomsCap 1 p.postfixAt p'.postfixAt
  targets : RoomsCap 2 p.targets p'.targets

theorem Inner.Within.parts {i i' : Inner} (I : i.Within i') :
    (Parts.of i).Within (Parts.of i') where
  inner := I
  postfixAt := I.postfixExpr
  targets := fun _ _ le => .targetList (.bitwiseOr (.unary I.postfixExpr) le)

namespace Parts.Within

open Caps

variable {p p' : Parts} (P : p.Within p') {room room' : Nat} (le : room ≤ room')
include P le

theorem expressionStatement : Caps (fun s => Program.Nested room [s])
    (expressionStatement p room) (expressionStatement p' room') := by
  have list := P.inner.expressionList le
  have one := P.inner.expression le
  refine after fun loc => list.bind fun first hfirst => after fun eq => ite ?_ (after fun k => ?_)
  · refine (many (fun _ => after fun _ => ?_) (List.forall_mem_nil _)).bind
      fun rest (hrest : ∀ e ∈ rest, e.Nested (room + e.listed)) => ?_
    · exact ite list.yes no
    · have chain : ∀ e ∈ first :: rest, e.Nested (room + e.listed) :=
        List.forall_mem_cons.2 ⟨hfirst, hrest⟩
      refine after fun _ => ret (.simple rfl rfl (List.forall_mem_cons.2 ⟨chain _ ?_, ?_⟩))
      · rw [List.getLastD_cons]
        exact List.getLastD_mem_cons
      · exact List.forall_mem_map.2 fun e here => chain e (List.mem_of_mem_dropLast here)
  · cases augmented? k with
    | some op =>
      refine after fun _ => ?_
      have rest : Caps (fun s => Program.Nested room [s])
          (expressionList p.inner room >>= fun e => pure (Stmt.augAssign loc op first e))
          (expressionList p'.inner room' >>= fun e => pure (Stmt.augAssign loc op first e)) :=
        list.bind fun value hvalue => ret (.simple rfl rfl
          (List.forall_mem_cons.2 ⟨hfirst, List.forall_mem_singleton.2 hvalue⟩))
      exact ite rest (after fun _ => rest)
    | none =>
      refine after fun annotated => ite ?_ ?_
      · refine after fun _ => dropped one (after fun given => ite ?_ ?_)
        · refine list.bind fun value hvalue => ret (.simple rfl rfl ?_)
          exact List.forall_mem_cons.2 ⟨hvalue, List.forall_mem_singleton.2 hfirst⟩
        · exact ret (.simple rfl rfl (List.forall_mem_nil _))
      · exact ret (.simple rfl rfl (List.forall_mem_singleton.2 hfirst))

theorem simpleStatement : Caps (fun s => Program.Nested room [s]) (simpleStatement p room)
    (simpleStatement p' room') := by
  have list := P.inner.expressionList le
  have one := P.inner.expression le
  have target := P.postfixAt le
  have leaf {s : Stmt} (light : s.weight = 0) (simple : s.inner = []) (none : s.ways = []) :
      Program.Nested room [s] := .simple light simple (none ▸ List.forall_mem_nil _)
  refine after fun ⟨kind, loc⟩ => ?_
  cases kind with
  | keyword k => cases k with
    | pass | «break» | «continue» => exact after fun _ => ret (leaf rfl rfl rfl)
    | «return» =>
      refine after fun _ => after fun _ => ite (ret (leaf rfl rfl rfl)) ?_
      exact list.bind fun e he => ret (.simple rfl rfl (List.forall_mem_singleton.2 he))
    | global => exact after fun _ => after fun _ => after fun _ => ret (leaf rfl rfl rfl)
    | raise =>
      refine after fun _ => after fun _ => ite (ret (leaf rfl rfl rfl)) ?_
      exact one.bind fun e he => ret (.simple rfl rfl (List.forall_mem_singleton.2 he))
    | assert =>
      refine after fun _ => one.bind fun condition hc => after fun _ => ite ?_ ?_
      · exact one.bind fun e he => ret (.simple rfl rfl
          (List.forall_mem_cons.2 ⟨hc, List.forall_mem_singleton.2 he⟩))
      · exact ret (.simple rfl rfl (List.forall_mem_singleton.2 hc))
    | del =>
      refine after fun _ => target.bind fun first hfirst => ?_
      refine (commaSeparated (fun _ => target) (List.forall_mem_singleton.2 hfirst)).bind
        fun targets htargets => ?_
      split
      · exact failAt
      · exact ret (.simple rfl rfl (List.forall_mem_map.2 htargets))
    | imports => exact after fun _ => after fun _ => after fun _ => ret (leaf rfl rfl rfl)
    | «from» =>
      refine after fun _ => after fun _ => after fun _ => after fun _ => after fun _ => ?_
      exact after fun _ => guard (ret (leaf rfl rfl rfl))
    | elif | «else» => exact fail
    | _ => exact P.expressionStatement le
  | reserved word => exact failAt
  | _ => exact P.expressionStatement le

theorem simpleLine : Caps (Program.Nested room) (simpleLine p room) (simpleLine p' room') := by
  have one := P.simpleStatement le
  refine one.bind fun first hfirst => ?_
  have hfirst : ∀ s ∈ [first], Program.Nested room [s] := List.forall_mem_singleton.2 hfirst
  refine (many (fun _ => after fun _ => ?_) hfirst).bind fun stmts hstmts => after fun _ => ?_
  · exact ite (after fun _ => after fun _ => ite no one.yes) no
  · exact ite (ret (.of_mem hstmts)) (after fun _ => ret (.of_mem hstmts))

variable {block block' : Nat → Parse (List Stmt)} (B : BlocksCap block block')
include B

-- One more branch takes room, as its blocks do.
theorem ifWith {elseIf elseIf' : Parse Stmt}
    (h : Caps (fun s => ∀ n, room = n + 1 → Program.Nested n [s]) elseIf elseIf') :
    Caps (fun s => Program.Nested room [s]) (ifWith p block elseIf room)
      (ifWith p' block' elseIf' room') := by
  refine after fun loc => (P.inner.expression le).bind fun condition hcondition => ?_
  refine (B le).bind fun body hbody => ?_
  obtain ⟨n, rfl, hbody⟩ := hbody
  have node {orelse : Program} (horelse : orelse.Nested n) :
      Program.Nested (n + 1) [.ifElse loc condition body orelse] :=
    .compound (Nat.le_refl 1) (hbody.append horelse) (List.forall_mem_singleton.2 hcondition)
  refine after fun elif => ite ?_ (after fun els => ite ?_ (ret (node .nil)))
  · exact h.bind fun other hother => ret (node (hother n rfl))
  · refine (B le).bind fun orelse horelse => ret ?_
    obtain ⟨m, same, horelse⟩ := horelse
    cases same
    exact node horelse

theorem ifStatement : Caps (fun s => Program.Nested room [s]) (ifStatement p block room)
    (ifStatement p' block' room') := by
  induction room generalizing room' with
  | zero =>
    cases room' with
    | zero => exact P.ifWith le B (tooDeep _)
    | succ room' => exact P.ifWith le B (tooDeep _)
  | succ room ih =>
    obtain ⟨room', rfl⟩ := Nat.exists_eq_add_of_lt le
    refine P.ifWith le B ((ih (Nat.le_add_right ..)).mono ?_)
    rintro s nested _ ⟨⟩
    exact nested

theorem compound (loc : Location) (k : Keyword) : Caps (fun s => Program.Nested room [s])
    (compound p block room loc k) (compound p' block' room' loc k) := by
  have one := P.inner.expression le
  cases k with
  | «while» =>
    refine one.bind fun condition hcondition => (B le).bind fun body hbody => after fun _ => ?_
    obtain ⟨n, rfl, hbody⟩ := hbody
    exact guard (ret (.compound (Nat.le_refl 1) hbody (List.forall_mem_singleton.2 hcondition)))
  | «for» =>
    refine (P.targets le).bind fun target htarget => after fun _ => ?_
    refine (P.inner.expressionList le).bind fun iter hiter => ?_
    refine (B le).bind fun body hbody => after fun _ => guard (ret ?_)
    obtain ⟨n, rfl, hbody⟩ := hbody
    refine .compound (Nat.le_refl 1) hbody (List.forall_mem_cons.2 ⟨htarget, ?_⟩)
    exact List.forall_mem_singleton.2 (hiter.mono (by dsimp only; omega))
  | define =>
    refine after fun name => after fun _ => ?_
    refine (P.inner.parameters le .rparen true).bind fun ps hps => after fun _ => ?_
    have rest : Caps (fun s => Program.Nested room [s])
        (block room >>= fun body => pure (Stmt.function loc name ps body))
        (block' room' >>= fun body => pure (Stmt.function loc name ps body)) := by
      refine (B le).bind fun body hbody => ret ?_
      obtain ⟨n, rfl, hbody⟩ := hbody
      exact .compound (Nat.le_refl 1) hbody (PartsNested.ways (.flatMap hps))
    exact after fun _ => ite (dropped one rest) rest
  | _ =>
    refine after fun name => ?_
    have rest (base : Option Expr) (hbase : ∀ e ∈ base, e.Nested room) :
        Caps (fun s => Program.Nested room [s])
          (block room >>= fun body => pure (Stmt.class loc name base body))
          (block' room' >>= fun body => pure (Stmt.class loc name base body)) := by
      refine (B le).bind fun body hbody => ret ?_
      obtain ⟨n, rfl, hbody⟩ := hbody
      refine .compound (Nat.le_refl 1) hbody (List.forall_mem_map.2 fun e here => ?_)
      exact hbase e (Option.mem_toList.1 here)
    refine after fun _ => ite (after fun _ => ?_) (rest none nofun)
    exact ifNone one fun base hbase => after fun _ => rest base hbase

theorem statement : Caps (Program.Nested room) (statement p block room)
    (statement p' block' room') := by
  have one {x y : Parse Stmt} (h : Caps (fun s => Program.Nested room [s]) x y) :
      Caps (Program.Nested room) (x >>= fun s => pure [s]) (y >>= fun s => pure [s]) :=
    h.bind fun _ hs => ret hs
  refine after fun ⟨kind, loc⟩ => ?_
  cases kind with
  | keyword k =>
    have other : Caps (Program.Nested room)
        (if [Keyword.while, .for, .define, .cls].contains k then
          advance >>= fun _ => StepTrace.compound p block room loc k >>= fun s => pure [s]
          else StepTrace.simpleLine p room)
        (if [Keyword.while, .for, .define, .cls].contains k then
          advance >>= fun _ => StepTrace.compound p' block' room' loc k >>= fun s => pure [s]
          else StepTrace.simpleLine p' room') :=
      ite (after fun _ => one (P.compound le B loc k)) (P.simpleLine le)
    cases k with
    | «if» => exact after fun _ => one (P.ifStatement le B)
    | _ => exact other
  | _ => exact P.simpleLine le

-- Statements in the lines of a block or of a program.
theorem line : Caps (fun line => ∀ s ∈ line, Program.Nested room s)
    (passIf isNewline >>= fun blank => if blank then pure (some []) else
      StepTrace.statement p block room >>= fun s => pure (some s))
    (passIf isNewline >>= fun blank => if blank then pure (some []) else
      StepTrace.statement p' block' room' >>= fun s => pure (some s)) := by
  refine after fun blank => ite (ret ?_) (P.statement le B).yes
  rintro _ ⟨⟩
  exact .nil

theorem suite : Caps (Program.Nested room) (suite p block room) (suite p' block' room') := by
  refine after fun _ => after fun line => ite (P.simpleLine le) (after fun indent => guard ?_)
  refine (many (fun _ => after fun _ => after fun _ => ?_) (List.forall_mem_nil _)).bind
    fun body hbody => after fun _ => ret (.flatten hbody)
  exact ite no (P.line le B)

end Parts.Within

/-! ### Programs -/

theorem blockAt_capped {p p' : Parts} (P : p.Within p') {levels levels' : Nat}
    (enough : levels ≤ levels') : BlocksCap (blockAt p levels) (blockAt p' levels') := by
  induction levels generalizing levels' with
  | zero => exact fun _ _ _ => .tooDeep _
  | succ levels ih =>
    obtain ⟨levels', rfl⟩ := Nat.exists_eq_add_of_lt enough
    refine fun _ _ le => .deeper (fun room room' le => ?_) le
    exact (P.suite le (ih (Nat.le_add_right ..))).mono fun body hbody => ⟨room, rfl, hbody⟩

-- The grammar with another room in place of the deepest tree that is accepted.
def fieldExpressionWithin (room : Nat) (field : String → Location → Except SyntaxError Expr)
    (text : String) (loc : Location) : Except SyntaxError Expr := do
  let c : Cursor := ⟨← tokensAt text loc, loc⟩
  let (e, left) ← (expressionList (readers field c.levels) room).run c
  match left.peek.kind with
  | .newline | .eof => return e
  | _ => throw ⟨.fieldExpression, loc⟩

def fieldWithin (room : Nat) : Nat → String → Location → Except SyntaxError Expr
  | 0 => fun _ loc => .error ⟨.fieldExpression, loc⟩
  | depth + 1 => fieldExpressionWithin room (fieldWithin room depth)

def programWithin (room : Nat) (p : Parts) : Parse Program := do
  let stmts ← many (fun _ => do
    if ← isEnd then return none
    if ← passIf isNewline then return some []
    if ← isIndent then fail .indent
    return some (← statement p (blockAt p (room + 1)) room)) []
  return stmts.flatten

def parseWithin (room : Nat) (source : String) : Except SyntaxError Program := do
  let c : Cursor := ⟨← tokens source, ⟨1, 1⟩⟩
  let (stmts, _) ← (programWithin room (.of (readers (fieldWithin room source.length) c.levels))).run c
  return stmts

theorem fieldWithin_maxNesting (depth : Nat) : fieldWithin maxNesting depth = fieldAt depth := by
  induction depth with
  | zero => rfl
  | succ depth ih => exact congrArg fieldExpression ih

theorem parseWithin_maxNesting (source : String) :
    parseWithin maxNesting source = parseProgram source := by
  unfold parseWithin
  rw [fieldWithin_maxNesting]
  rfl

variable {room room' : Nat}

theorem fieldWithin_capped (more : maxNesting ≤ room) (depth : Nat) :
    FieldsCap (fieldWithin maxNesting depth) (fieldWithin room depth) := by
  induction depth with
  | zero => exact fun _ _ => .failed _
  | succ depth ih =>
    intro text loc
    refine (Capped.same fun _ _ => trivial).bind fun ts (_ : True) => ?_
    refine ((readers_capped ih _).expressionList more ⟨ts, loc⟩).bind fun ⟨e, left⟩ he => ?_
    dsimp only
    split
    · exact .given (he.mono (Nat.add_le_add_left e.listed_le _))
    · exact .given (he.mono (Nat.add_le_add_left e.listed_le _))
    · exact .failed _

theorem programWithin_capped {p p' : Parts} (P : p.Within p') (le : room ≤ room') :
    Caps (Program.Nested room) (programWithin room p) (programWithin room' p') := by
  have statement := P.statement le (blockAt_capped P (Nat.add_le_add_right le 1))
  refine (Caps.many (fun _ => .after fun ends => ?_) (List.forall_mem_nil _)).bind
    fun lines hlines => .ret (.flatten hlines)
  refine .ite .no (.after fun blank => .ite (.ret ?_) (.after fun indent => .guard statement.yes))
  rintro _ ⟨⟩
  exact .nil

theorem parseWithin_capped (more : maxNesting ≤ room) (source : String) :
    Capped (Program.Nested maxNesting) (parseProgram source) (parseWithin room source) := by
  rw [← parseWithin_maxNesting]
  refine (Capped.same fun _ _ => trivial).bind fun ts (_ : True) => ?_
  have inner := readers_capped (fieldWithin_capped more source.length) (Cursor.levels ⟨ts, ⟨1, 1⟩⟩)
  exact (programWithin_capped inner.parts more ⟨ts, ⟨1, 1⟩⟩).bind fun _ nested => .given nested

/--
Trees have at most 200 displays, comprehensions, unary operators and compound statements on any
path, and as many more as room is not taken for: a replacement field has a room of its own, and
the clauses of a comprehension, the header of a compound statement, a list of expressions without
brackets and a target have a little more. If a text makes a deeper tree in more room, it is
refused for its depth.
-/
theorem nesting_is_capped (source : String) (p : Program) {k allowed : Nat}
    (path : p.Path k allowed) :
    (parseProgram source = .ok p → k ≤ 200 + allowed) ∧
      ∀ room, 200 ≤ room → parseWithin room source = .ok p → 200 + allowed < k →
        ∃ e, parseProgram source = .error e ∧ e.cause.message = "too many nested expressions" := by
  refine ⟨fun parsed => ?_, fun room more parsed deep => ?_⟩
  · have capped := parseWithin_capped (Nat.le_refl maxNesting) source
    rw [parsed] at capped
    generalize parseWithin maxNesting source = result at capped
    cases capped with
    | given nested => exact nested k allowed path
  · have capped := parseWithin_capped more source
    rw [parsed] at capped
    generalize parseProgram source = result at capped ⊢
    cases capped with
    | given nested => exact absurd (nested k allowed path) (Nat.not_le.2 deep)
    | tooDeep loc => exact ⟨_, rfl, rfl⟩

-- How many prefix operators stand before an operand, and the operand if it is a display.
def Expr.signs : Expr → Nat
  | .unary _ _ e => 1 + e.signs
  | e => e.weight

theorem Expr.path_signs (e : Expr) : e.Path e.signs 0 := by
  fun_induction Expr.signs e with
  | case1 l op e ih => exact .part List.mem_cons_self ih
  | case2 e => exact .here e

-- The text with `n` prefix operators before something.
def signed (n : Nat) (before after : String) : String :=
  before ++ String.ofList (List.replicate n '~') ++ after

theorem signed_ofList (n : Nat) (before after : List Char) :
    signed n (String.ofList before) (String.ofList after) =
      String.ofList (before ++ List.replicate n '~' ++ after) := by
  rw [signed, String.ofList_append, String.ofList_append]

-- Whether a program assigns a value with `n` prefix operators.
def Program.isSigned (n : Nat) : Program → Bool
  | [.assign _ _ e] => e.listed = 0 ∧ e.signs = n
  | _ => false

theorem Program.path_of_isSigned {n : Nat} {p : Program} (h : p.isSigned n = true) :
    p.Path n 0 := by
  unfold isSigned at h
  split at h
  · next l targets e =>
    obtain ⟨plain, signs⟩ := of_decide_eq_true h
    have way : (0, e) ∈ (Stmt.assign l targets e).ways := plain ▸ List.mem_cons_self
    have path := Program.Path.part (List.mem_singleton_self _) way e.path_signs
    rwa [signs, show (Stmt.assign l targets e).weight = 0 from rfl, Nat.zero_add] at path
  · cases h

theorem nesting_is_capped_signs :
    (∃ p, parseProgram (signed 9 "x = " "y\n") = .ok p ∧ p.Path 9 0 ∧ 9 ≤ 200 + 0) ∧
      ∃ p, parseWithin 202 (signed 201 "x = " "y\n") = .ok p ∧ p.Path 201 0 ∧
        ∃ e, parseProgram (signed 201 "x = " "y\n") = .error e ∧
          e.cause.message = "too many nested expressions" := by
  constructor
  · have shape : (parseProgram (signed 9 "x = " "y\n")).toOption.any
        (Program.isSigned 9) = true := by
      rw [signed_ofList, parseProgram_ofList]
      decide +kernel
    obtain ⟨p, parsed, signs⟩ := Except.of_any shape
    have path := Program.path_of_isSigned signs
    exact ⟨p, parsed, path, (nesting_is_capped _ _ path).1 parsed⟩
  · have shape : (parseWithin 202 (signed 201 "x = " "y\n")).toOption.any
        (Program.isSigned 201) = true := by
      rw [signed_ofList, parseWithin, tokens_ofList, String.length_ofList]
      decide +kernel
    obtain ⟨p, parsed, signs⟩ := Except.of_any shape
    have path := Program.path_of_isSigned signs
    exact ⟨p, parsed, path, (nesting_is_capped _ _ path).2 202 (by omega) parsed (by omega)⟩

-- Whether a program assigns a comprehension over a value with `n` prefix operators.
def Program.isSignedClause (n : Nat) : Program → Bool
  | [.assign _ _ (.listComp _ _ [.mk _ iter _])] => iter.signs = n
  | _ => false

theorem Program.path_of_isSignedClause {n : Nat} {p : Program} (h : p.isSignedClause n = true) :
    p.Path (1 + n) 1 := by
  unfold isSignedClause at h
  split at h
  · next l targets l' element target iter conditions =>
    obtain rfl := of_decide_eq_true h
    have inside : (1, iter) ∈ (Expr.listComp l' element [.mk target iter conditions]).ways :=
      .tail _ (.tail _ List.mem_cons_self)
    have path : Program.Path [.assign l targets (.listComp l' element [.mk target iter conditions])]
        (0 + (1 + iter.signs)) (0 + (1 + 0)) :=
      .part (List.mem_singleton_self _) List.mem_cons_self (.part inside iter.path_signs)
    rwa [Nat.zero_add] at path
  · cases h

-- The clauses of a comprehension take no room for it.
theorem deep_clauses_are_accepted :
    ∃ p k allowed, parseProgram (signed 199 "x = [y for y in " "[]]\n") = .ok p ∧
      p.Path k allowed ∧ 200 < k := by
  have shape : (parseProgram (signed 199 "x = [y for y in " "[]]\n")).toOption.any
      (Program.isSignedClause 200) = true := by
    rw [signed_ofList, parseProgram_ofList]
    decide +kernel
  obtain ⟨p, parsed, signs⟩ := Except.of_any shape
  exact ⟨p, _, _, parsed, Program.path_of_isSignedClause signs, by omega⟩

end StepTrace
