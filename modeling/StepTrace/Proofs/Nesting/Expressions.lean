import StepTrace.Proofs.Nesting.Paths

/-!
The grammar of expressions with less room and with more. An expression is no deeper than the room it
is read in; operands and whole tests are at most one deeper, as they may be displays without items.
-/

set_option autoImplicit false

namespace StepTrace

open Parse

variable {α β : Type}

/-! ### Operators -/

-- Readers that give trees at most `n` deeper than the room, for any two amounts of room.
def RoomsCap (n : Nat) (x x' : Nat → Parse Expr) : Prop :=
  ∀ ⦃room room' : Nat⦄, room ≤ room' → Caps (Expr.Nested (room + n)) (x room) (x' room')

def FieldsCap (field field' : String → Location → Except SyntaxError Expr) : Prop :=
  ∀ text loc, Capped (Expr.Nested (maxNesting + 1)) (field text loc) (field' text loc)

-- What is read inside expressions.
structure Inner.Within (i i' : Inner) : Prop where
  expression : RoomsCap 0 i.expression i'.expression
  comprehension : ∀ ⦃room room' : Nat⦄, room ≤ room' →
    Caps (fun cs => ∀ c ∈ cs, WaysNested room c.ways) (i.comprehension room)
      (i'.comprehension room')
  field : FieldsCap i.field i'.field

namespace Expr.Nested

variable {n : Nat}

-- A leaf, and a node with parts that are no deeper than it is.
theorem leaf {e : Expr} (light : e.weight = 0) (none : e.ways = []) : e.Nested n := by
  have nested : e.Nested (n + e.weight) := of_ways (none ▸ List.forall_mem_nil _)
  rwa [light] at nested

end Expr.Nested

namespace Caps

variable {room room' : Nat} {ops : TokenKind → Option α}

theorem deeper {x x' : Nat → Parse β} {P : Nat → β → Prop}
    (h : ∀ ⦃room room' : Nat⦄, room ≤ room' → Caps (P (room + 1)) (x room) (x' room'))
    (le : room ≤ room') : Caps (P room) (deeper x room) (deeper x' room') := by
  cases room with
  | zero => exact tooDeep _
  | succ room =>
    obtain ⟨room', rfl⟩ := Nat.exists_eq_add_of_lt le
    exact h (by omega)

theorem chainLink {P : Expr → Prop} {left : Expr} {next next' : Location → α → Parse Expr}
    (hleft : P left) (hnext : ∀ loc op, Caps P (next loc op) (next' loc op)) :
    Caps P (chainLink ops left next) (chainLink ops left next') := by
  refine after fun kind => ?_
  cases ops kind with
  | none => exact ret hleft
  | some op => exact after fun _ => after fun loc => hnext loc op

theorem chain {node : Location → α → Expr → Expr → Expr} {operand operand' : Nat → Parse Expr}
    {n : Nat} (hnode : ∀ loc op l r, l.Nested n → r.Nested n → (node loc op l r).Nested n)
    (h : RoomsCap 1 operand operand') (le : room ≤ room') (within : room ≤ n) {left : Expr}
    (hleft : left.Nested n) :
    Caps (Expr.Nested n) (chain ops node operand room left)
      (chain ops node operand' room' left) := by
  induction room generalizing room' left with
  | zero =>
    cases room' with
    | zero => exact chainLink hleft fun _ _ => fail
    | succ room' => exact chainLink hleft fun _ _ => tooDeep _
  | succ room ih =>
    obtain ⟨room', rfl⟩ := Nat.exists_eq_add_of_lt le
    refine chainLink hleft fun loc op => (h (by omega)).bind fun right hright => ?_
    exact ih (by omega) (by omega) (hnode loc op left right hleft (hright.mono within))

theorem chained {node : Location → α → Expr → Expr → Expr} {operand operand' : Nat → Parse Expr}
    (hnode : ∀ n loc op l r, l.Nested n → r.Nested n → (node loc op l r).Nested n)
    (h : RoomsCap 1 operand operand') :
    RoomsCap 1 (chained ops node operand) (chained ops node operand') :=
  fun _ _ le => (h le).bind fun _ hleft => chain (hnode _) h le (Nat.le_succ _) hleft

theorem bitwiseOr {operand operand' : Nat → Parse Expr} (h : RoomsCap 1 operand operand') :
    RoomsCap 1 (bitwiseOr operand) (bitwiseOr operand') := by
  have node (n : Nat) (loc : Location) (op : BinaryOp) (l r : Expr) (hl : l.Nested n)
      (hr : r.Nested n) : (Expr.binary loc op l r).Nested n :=
    .node rfl (.cons hl (.cons hr .nil))
  exact chained node (chained node (chained node (chained node (chained node (chained node h)))))

theorem unaryWith {n : Nat} {base base' operand operand' : Parse Expr}
    (hbase : Caps (Expr.Nested (n + 1)) base base')
    (hoperand : Caps (Expr.Nested n) operand operand') :
    Caps (Expr.Nested (n + 1)) (unaryWith base operand) (unaryWith base' operand') := by
  refine after fun ⟨kind, loc⟩ => ?_
  dsimp only
  split
  · next op found =>
    refine after fun _ => hoperand.bind fun e he => ret ?_
    unfold foldSign
    split
    · exact .leaf rfl rfl
    · exact .leaf rfl rfl
    · exact .node rfl (.cons he .nil)
  · refine hbase.bind fun left hleft => after fun power => ite ?_ (ret hleft)
    exact after fun _ => hoperand.bind fun right hright =>
      ret (.node rfl (.cons hleft (.cons (hright.mono (Nat.le_succ n)) .nil)))

theorem unary {base base' : Nat → Parse Expr} (h : RoomsCap 1 base base') :
    RoomsCap 1 (unary base) (unary base') := by
  intro room room' le
  induction room generalizing room' with
  | zero =>
    cases room' with
    | zero => exact unaryWith (h le) (tooDeep _)
    | succ room' => exact unaryWith (h le) (tooDeep _)
  | succ room ih =>
    obtain ⟨room', rfl⟩ := Nat.exists_eq_add_of_lt le
    exact unaryWith (h le) (ih (by omega))

theorem notWith {n : Nat} {base base' operand operand' : Parse Expr}
    (hbase : Caps (Expr.Nested (n + 1)) base base')
    (hoperand : Caps (Expr.Nested n) operand operand') :
    Caps (Expr.Nested (n + 1)) (notWith base operand) (notWith base' operand') := by
  refine after fun negated => ite ?_ hbase
  exact after fun _ => hoperand.bind fun e he => ret (.node rfl (.cons he .nil))

theorem notTest {base base' : Nat → Parse Expr} (h : RoomsCap 1 base base') :
    RoomsCap 1 (notTest base) (notTest base') := by
  intro room room' le
  induction room generalizing room' with
  | zero =>
    cases room' with
    | zero => exact notWith (h le) (tooDeep _)
    | succ room' => exact notWith (h le) (tooDeep _)
  | succ room ih =>
    obtain ⟨room', rfl⟩ := Nat.exists_eq_add_of_lt le
    exact notWith (h le) (ih (by omega))

theorem comparison {n : Nat} {operand operand' : Parse Expr}
    (h : Caps (Expr.Nested n) operand operand') :
    Caps (Expr.Nested n) (comparison operand) (comparison operand') := by
  have linked (op : CompareOp) : Caps (fun a => ∀ b ∈ a, b.2.Nested n)
      (operand >>= fun e => pure (some (op, e))) (operand' >>= fun e => pure (some (op, e))) := by
    refine h.bind fun e he => ret ?_
    rintro _ ⟨⟩
    exact he
  refine after fun loc => h.bind fun left hleft => ?_
  refine bind (P := fun links => ∀ b ∈ links, b.2.Nested n) ?_ fun rest hrest =>
    ite (ret hleft) (ret (.node rfl (.cons hleft (.map hrest))))
  refine many (fun _ => after fun op => ?_) (List.forall_mem_nil _)
  cases op with
  | none => exact no
  | some op => exact linked op

theorem orTest {operand operand' : Nat → Parse Expr} (h : RoomsCap 1 operand operand') :
    RoomsCap 1 (orTest operand) (orTest operand') := by
  have node (n : Nat) (loc : Location) (op : BoolOp) (l r : Expr) (hl : l.Nested n)
      (hr : r.Nested n) : (Expr.boolOp loc op l r).Nested n :=
    .node rfl (.cons hl (.cons hr .nil))
  exact chained node (chained node (notTest fun _ _ le => comparison (bitwiseOr h le)))

-- The commas of a target make one tuple around the targets.
theorem targetList {n : Nat} {item item' : Parse Expr} (h : Caps (Expr.Nested n) item item') :
    Caps (Expr.Nested (n + 1)) (targetList item) (targetList item') := by
  have rest {target : Expr} (nested : target.Nested (n + 1)) : Caps (Expr.Nested (n + 1))
      (ensureAssignable target >>= fun _ => pure target)
      (ensureAssignable target >>= fun _ => pure target) :=
    after fun _ => ret nested
  refine after fun loc => h.bind fun first hfirst => after fun comma => ?_
  split
  · refine (commaSeparated (fun _ => h) (List.forall_mem_singleton.2 hfirst)).bind
      fun items hitems => ?_
    exact rest (.node rfl (.map hitems))
  · exact rest (hfirst.mono (Nat.le_succ n))

theorem suffixLink {P : Expr → Prop} {left : Expr} (hleft : P left)
    {next next' : Location → Symbol → Parse Expr}
    (hnext : ∀ loc s, Caps P (next loc s) (next' loc s)) :
    Caps P (suffixLink left next) (suffixLink left next') := by
  refine after fun ⟨kind, loc⟩ => ?_
  cases kind with
  | symbol s => cases s with
    | lparen | lbracket | dot => exact hnext _ _
    | _ => exact ret hleft
  | _ => exact ret hleft

-- A clause is read in the room of its comprehension, which it takes nothing of.
theorem clauses {n : Nat} {orTest orTest' targets targets' : Parse Expr}
    (htest : Caps (Expr.Nested (n + 1)) orTest orTest')
    (htargets : Caps (Expr.Nested (n + 2)) targets targets') :
    Caps (fun cs => ∀ c ∈ cs, WaysNested n c.ways) (clauses orTest targets)
      (clauses orTest' targets') := by
  refine many (fun _ => after fun more => ite no ?_) (List.forall_mem_nil _)
  refine htargets.bind fun target htarget => after fun _ => htest.bind fun iter hiter => ?_
  refine (many (fun _ => after fun more => ?_) (List.forall_mem_nil _)).bind
    fun conditions (hconditions : ∀ e ∈ conditions, e.Nested (n + 1)) => ret ?_
  · exact ite htest.yes no
  · rintro _ ⟨⟩
    refine List.forall_mem_cons.2 ⟨htarget, List.forall_mem_cons.2 ⟨hiter, ?_⟩⟩
    exact List.forall_mem_map.2 hconditions

end Caps

/-! ### Formatted strings -/

section

variable {read read' : String → Location → Except SyntaxError Expr} {loc : Location} {n : Nat}

theorem fieldValue_capped (h : FieldsCap read read') (field : FieldText) :
    Capped (fun part : FPart => PartsNested (n + (maxNesting + 1)) part.parts)
      (fieldValue read loc field) (fieldValue read' loc field) := by
  unfold fieldValue
  dsimp only
  split
  · exact .failed _
  · refine (h _ _).bind fun value hvalue => ?_
    have hvalue : value.Nested (n + (maxNesting + 1)) := hvalue.mono (Nat.le_add_left ..)
    have called (name : String) : (Expr.call value.location (.name value.location name)
        [value] []).Nested (n + (maxNesting + 1)) :=
      .node rfl (.cons (.leaf rfl rfl) (.cons hvalue .nil))
    split
    · exact .given (.cons hvalue .nil)
    · exact .given (.cons (called _) .nil)
    · exact .given (.cons (called _) .nil)
    · exact .given (.cons (called _) .nil)
    · exact .failed _

theorem fstringFrom_capped (h : FieldsCap read read') {literal body : List Char}
    {parts : List FPart} (hparts : ∀ part ∈ parts, PartsNested (n + (maxNesting + 1)) part.parts) :
    Capped (fun all => ∀ part ∈ all, PartsNested (n + (maxNesting + 1)) part.parts)
      (fstringFrom read loc literal parts body) (fstringFrom read' loc literal parts body) := by
  have texts (literal : List Char) :
      ∀ part ∈ literalPart literal, PartsNested (n + (maxNesting + 1)) part.parts := by
    unfold literalPart
    split
    · nofun
    · exact List.forall_mem_singleton.2 .nil
  fun_induction fstringFrom read loc literal parts body with
  | case1 literal parts =>
    rw [fstringFrom]
    refine .given fun part here => ?_
    rw [List.mem_reverse, List.mem_append] at here
    exact here.elim (texts literal part) (hparts part)
  | case2 literal parts c rest doubled ih =>
    rw [fstringFrom, if_pos doubled]
    exact ih hparts
  | case3 literal parts rest single =>
    rw [fstringFrom, if_neg single, if_pos rfl]
    exact .failed _
  | case4 literal parts rest ends single opens =>
    rw [fstringFrom, if_neg single, if_neg opens, if_pos rfl, ends]
    exact .failed _
  | case5 literal parts rest field after found shorter single opens ih =>
    rw [fstringFrom, if_neg single, if_neg opens, if_pos rfl, found]
    simp only [if_pos shorter]
    refine (fieldValue_capped (n := n) h field).bind fun part hpart => ih part ?_
    exact List.forall_mem_cons.2 ⟨hpart, List.forall_mem_append.2 ⟨texts literal, hparts⟩⟩
  | case6 literal parts rest field after found longer single opens =>
    rw [fstringFrom, if_neg single, if_neg opens, if_pos rfl, found]
    simp only [if_neg longer]
    exact .failed _
  | case7 literal parts c rest single closes opens ih =>
    rw [fstringFrom, if_neg single, if_neg closes, if_neg opens]
    exact ih hparts

end

/-! ### Displays, calls and subscripts -/

namespace Inner.Within

open Caps

variable {i i' : Inner} (I : i.Within i') {room room' : Nat} (le : room ≤ room')
include I le

theorem expressionList : Caps (fun e => e.Nested (room + e.listed))
    (expressionList i room) (expressionList i' room') := by
  have one := I.expression le
  refine after fun loc => one.bind fun first hfirst => after fun comma => ?_
  refine ite (ret (hfirst.mono (Nat.le_add_right ..))) ?_
  refine (commaSeparated (fun _ => one) (List.forall_mem_singleton.2 hfirst)).bind
    fun items hitems => ret ?_
  exact Expr.Nested.node (n := room) rfl (.map hitems)

theorem parameter (annotated : Bool) (before : List Param) :
    Caps (fun p => PartsNested room p.parts)
      (parameters.parameter i room annotated before)
      (parameters.parameter i' room' annotated before) := by
  have one := I.expression le
  have named {name : String} {value : Option Expr} (h : ∀ e ∈ value, e.Nested room) :
      PartsNested room (Param.mk name value).parts :=
    .map fun e here => h e (Option.mem_toList.1 here)
  refine after fun _ => after fun _ => guard (after fun loc => after fun name => guard ?_)
  refine ite (after fun _ => ite (dropped one (after fun given => ?_)) (after fun given => ?_))
    (after fun given => ?_)
  all_goals exact ifSome one fun value hvalue => guard (ret (named hvalue))

theorem parameters (close : Symbol) (annotated : Bool) :
    Caps (fun ps => ∀ p ∈ ps, PartsNested room p.parts)
      (parameters i room close annotated) (parameters i' room' close annotated) := by
  refine after fun empty => ite (ret (List.forall_mem_nil _)) ?_
  refine (I.parameter le annotated []).bind fun first hfirst => ?_
  exact commaSeparated (I.parameter le annotated) (List.forall_mem_singleton.2 hfirst)

theorem argument (before : List Argument) :
    Caps (fun a => (∀ e ∈ a.positional?, e.Nested (room + 1)) ∧
        ∀ kw ∈ a.keyword?, kw.2.Nested (room + 1))
      (arguments.argument i room before) (arguments.argument i' room' before) := by
  have positional {e : Expr} (h : e.Nested (room + 1)) :
      (∀ e' ∈ (Argument.positional e).positional?, e'.Nested (room + 1)) ∧
        ∀ kw ∈ (Argument.positional e).keyword?, kw.2.Nested (room + 1) := by
    refine ⟨?_, nofun⟩
    rintro _ ⟨⟩
    exact h
  refine after fun _ => after fun _ => guard (after fun named => ite ?_ ?_)
  · refine after fun name => after fun _ => (I.expression le).bind fun e he => ret ⟨nofun, ?_⟩
    rintro _ ⟨⟩
    exact he.mono (Nat.le_succ _)
  · refine guard (after fun loc => (I.expression le).bind fun e he => after fun comp => ?_)
    refine ite ((I.comprehension le).bind fun cs hcs => ret (positional (.listComp he hcs))) ?_
    exact ret (positional (he.mono (Nat.le_succ _)))

theorem arguments :
    Caps (fun as => ∀ a ∈ as, (∀ e ∈ a.positional?, e.Nested (room + 1)) ∧
        ∀ kw ∈ a.keyword?, kw.2.Nested (room + 1))
      (arguments i room) (arguments i' room') := by
  refine after fun empty => ite (ret (List.forall_mem_nil _)) ?_
  refine (I.argument le []).bind fun first hfirst => ?_
  exact commaSeparated (I.argument le) (List.forall_mem_singleton.2 hfirst)

theorem bounds {n : Nat} (within : room ≤ n) (loc : Location) {lower : Option Expr}
    (hlower : ∀ e ∈ lower, e.Nested n) :
    Caps (Expr.Nested n) (index.bounds i room loc lower)
      (index.bounds i' room' loc lower) := by
  have one := (I.expression le).mono fun e he => he.mono within
  have node {upper step : Option Expr} (hupper : ∀ e ∈ upper, e.Nested n)
      (hstep : ∀ e ∈ step, e.Nested n) : (Expr.slice loc lower upper step).Nested n := by
    have all {o : Option Expr} (h : ∀ e ∈ o, e.Nested n) : ∀ e ∈ o.toList, e.Nested n :=
      fun e here => h e (Option.mem_toList.1 here)
    exact .node rfl (.map (List.forall_mem_append.2 ⟨all hlower,
      List.forall_mem_append.2 ⟨all hupper, all hstep⟩⟩))
  refine after fun _ => after fun _ => after fun _ => ifNone one fun upper hupper => ?_
  refine after fun _ => ite (after fun _ => ?_) (ret (node hupper nofun))
  exact ifNone one fun step hstep => ret (node hupper hstep)

-- An index without brackets of its own may be a tuple, for which the subscript has room.
theorem index : Caps (Expr.Nested (room + 1)) (index i room) (index i' room') := by
  have within : room ≤ room + 1 := Nat.le_succ room
  refine after fun loc => after fun _ => ite (I.bounds le within loc nofun) ?_
  refine (I.expressionList le).bind fun first hfirst => ?_
  have hfirst : first.Nested (room + 1) := hfirst.mono (Nat.add_le_add_left first.listed_le room)
  refine after fun _ => ite (I.bounds le within loc ?_) (ret hfirst)
  rintro _ ⟨⟩
  exact hfirst

omit le in
theorem stringAtom {n : Nat} :
    Caps (Expr.Nested n) (stringAtom i) (stringAtom i') := by
  refine after fun loc => (many (fun _ => after fun t => ?_) (List.forall_mem_nil _)).bind
    fun pieces (hpieces : ∀ piece ∈ pieces, ∀ part ∈ piece.2,
      PartsNested (n + (maxNesting + 1)) part.parts) => ?_
  · obtain ⟨kind, start⟩ := t
    cases kind with
    | str s =>
      refine after fun _ => ret ?_
      rintro _ ⟨⟩
      exact List.forall_mem_singleton.2 .nil
    | fstr body =>
      have parts : Capped _ (fstringParts i.field start body) (fstringParts i'.field start body) :=
        fstringFrom_capped (n := n) I.field (List.forall_mem_nil _)
      refine after fun _ => ?_
      generalize fstringParts i.field start body = first at parts ⊢
      generalize fstringParts i'.field start body = second at parts ⊢
      cases parts with
      | given h =>
        refine ret ?_
        rintro _ ⟨⟩
        exact h
      | failed e => exact fun _ => .failed e
      | tooDeep loc => exact fun _ => .tooDeep loc _
    | _ => exact no
  · refine ite (ret (.fstring fun part here => ?_)) (ret (.leaf rfl rfl))
    obtain ⟨piece, inside, here⟩ := List.mem_flatMap.1 here
    exact hpieces piece inside part here

theorem items {stop : Parse Bool} {first : Expr} (hfirst : first.Nested room) :
    Caps (fun items => ∀ e ∈ items, e.Nested room)
      (commaSeparated stop (fun _ => i.expression room) [first])
      (commaSeparated stop (fun _ => i'.expression room') [first]) :=
  commaSeparated (fun _ => I.expression le) (List.forall_mem_singleton.2 hfirst)

theorem parenthesized (loc : Location) : Caps (Expr.Nested (room + 1))
    (parenthesized i room loc) (parenthesized i' room' loc) := by
  refine after fun empty => ite (ret (Expr.Nested.node (n := room) rfl .nil)) ?_
  refine (I.expression le).bind fun first hfirst => after fun comp => ite ?_ ?_
  · exact (I.comprehension le).bind fun cs hcs => after fun _ => ret (.listComp hfirst hcs)
  · refine after fun comma => ite (after fun _ => ret (hfirst.mono (Nat.le_succ room))) ?_
    exact (I.items le hfirst).bind fun items hitems => after fun _ =>
      ret (Expr.Nested.node (n := room) rfl (.map hitems))

theorem listDisplay (loc : Location) : Caps (Expr.Nested (room + 1))
    (listDisplay i room loc) (listDisplay i' room' loc) := by
  refine after fun empty => ite (ret (Expr.Nested.node (n := room) rfl .nil)) ?_
  refine (I.expression le).bind fun first hfirst => after fun comp => ite ?_ ?_
  · exact (I.comprehension le).bind fun cs hcs => after fun _ => ret (.listComp hfirst hcs)
  · exact (I.items le hfirst).bind fun items hitems => after fun _ =>
      ret (Expr.Nested.node (n := room) rfl (.map hitems))

theorem entry : Caps (fun e => e.1.Nested room ∧ e.2.Nested room)
    (entry i room) (entry i' room') :=
  (I.expression le).bind fun _ key => after fun _ =>
    (I.expression le).bind fun _ value => ret ⟨key, value⟩

theorem braceDisplay (loc : Location) : Caps (Expr.Nested (room + 1))
    (braceDisplay i room loc) (braceDisplay i' room' loc) := by
  refine after fun empty => ite (ret (Expr.Nested.node (n := room) rfl .nil)) ?_
  refine (I.expression le).bind fun first hfirst => after fun colon => ite ?_ ?_
  · refine (I.expression le).bind fun value hvalue => after fun comp => ite ?_ ?_
    · exact (I.comprehension le).bind fun cs hcs => after fun _ =>
        ret (.dictComp hfirst hvalue hcs)
    · have pair : (first, value).1.Nested room ∧ (first, value).2.Nested room := ⟨hfirst, hvalue⟩
      refine (commaSeparated (fun _ => I.entry le) (List.forall_mem_singleton.2 pair)).bind
        fun entries hentries => after fun _ => ret ?_
      exact Expr.Nested.node (n := room) rfl (.flatMap fun e here =>
        .cons (hentries e here).1 (.cons (hentries e here).2 .nil))
  · refine after fun comp => ite ?_ ?_
    · refine (I.comprehension le).bind fun cs hcs => after fun _ => ret ?_
      exact .node rfl (.cons (.leaf rfl rfl) (.cons (.listComp hfirst hcs) .nil))
    · exact (I.items le hfirst).bind fun items hitems => after fun _ =>
        ret (Expr.Nested.node (n := room) rfl (.map hitems))

theorem primary : Caps (Expr.Nested (room + 1)) (primary i room) (primary i' room') := by
  refine after fun ⟨kind, loc⟩ => ?_
  have literal {e : Expr} (h : e.Nested (room + 1)) : Caps (Expr.Nested (room + 1))
      (advance >>= fun _ => pure e) (advance >>= fun _ => pure e) := after fun _ => ret h
  cases kind with
  | int | float | ident => exact literal (.leaf rfl rfl)
  | str | fstr => exact I.stringAtom
  | keyword k => cases k with
    | true | false | none => exact literal (.leaf rfl rfl)
    | _ => exact failAt
  | symbol s => cases s with
    | lparen => exact after fun _ => I.parenthesized le loc
    | lbracket => exact after fun _ => I.listDisplay le loc
    | lbrace => exact after fun _ => I.braceDisplay le loc
    | _ => exact failAt
  | _ => exact failAt

theorem suffix {n : Nat} (within : room + 1 ≤ n) {left : Expr} (hleft : left.Nested n)
    {next next' : Expr → Parse Expr}
    (hnext : ∀ e, e.Nested n → Caps (Expr.Nested n) (next e) (next' e)) (loc : Location)
    (s : Symbol) : Caps (Expr.Nested n) (suffix i room left next loc s)
      (suffix i' room' left next' loc s) := by
  have field : Caps (Expr.Nested n)
      (advance >>= fun _ => identifier >>= fun name => next (.attr loc left name))
      (advance >>= fun _ => identifier >>= fun name => next' (.attr loc left name)) :=
    after fun _ => after fun name => hnext _ (.node rfl (.cons hleft .nil))
  cases s with
  | lparen =>
    refine after fun _ => (I.arguments le).bind fun args hargs => after fun _ => hnext _ ?_
    refine .node rfl (.cons hleft (.append (.map fun e here => ?_) (.map fun kw here => ?_)))
    · obtain ⟨a, inside, found⟩ := List.mem_filterMap.1 here
      exact ((hargs a inside).1 e found).mono within
    · obtain ⟨a, inside, found⟩ := List.mem_filterMap.1 here
      exact ((hargs a inside).2 kw found).mono within
  | lbracket =>
    refine after fun _ => (I.index le).bind fun at_ hat => after fun _ => hnext _ ?_
    exact .node rfl (.cons hleft (.cons (hat.mono within) .nil))
  | _ => exact field

theorem suffixes {n : Nat} (within : room ≤ n) {left : Expr} (hleft : left.Nested n) :
    Caps (Expr.Nested n) (suffixes i room left) (suffixes i' room' left) := by
  induction room generalizing room' left with
  | zero =>
    cases room' with
    | zero => exact Caps.suffixLink hleft fun _ _ => tooDeep _
    | succ room' => exact Caps.suffixLink hleft fun _ _ => tooDeep _
  | succ room ih =>
    obtain ⟨room', rfl⟩ := Nat.exists_eq_add_of_lt le
    have le : room ≤ room + room' := Nat.le_add_right ..
    refine Caps.suffixLink hleft (I.suffix le within hleft fun _ hleft => ?_)
    exact ih le (Nat.le_of_succ_le within) hleft

omit le in
theorem postfixExpr : RoomsCap 1 (postfixExpr i) (postfixExpr i') :=
  fun room _ le => (I.primary le).bind fun _ => I.suffixes le (Nat.le_succ room)

theorem lambdaExpr : Caps (Expr.Nested room) (lambdaExpr i room)
    (lambdaExpr i' room') := by
  refine after fun loc => after fun _ => (I.parameters le .colon false).bind fun ps hps => ?_
  refine after fun _ => (I.expression le).bind fun body hbody => ret ?_
  exact .node rfl (.cons hbody (.flatMap hps))

omit le in
theorem test {operand operand' : Nat → Parse Expr} (h : RoomsCap 1 operand operand') :
    RoomsCap 1 (test i operand) (test i' operand') := by
  intro room room' le
  have deeper {e : Expr} (h : e.Nested room) : e.Nested (room + 1) := h.mono (Nat.le_succ room)
  refine after fun isLambda => ite ((I.lambdaExpr le).mono fun _ => deeper) ?_
  refine after fun loc => (Caps.orTest h le).bind fun yes hyes => after fun cond =>
    ite ?_ (ret hyes)
  refine (Caps.orTest h le).bind fun condition hcondition => after fun _ => ?_
  refine (I.expression le).bind fun no hno => ret ?_
  exact .node rfl (.cons hcondition (.cons hyes (.cons (deeper hno) .nil)))

end Inner.Within

theorem readers_capped {field field' : String → Location → Except SyntaxError Expr}
    (hfield : FieldsCap field field') (levels : Nat) :
    (readers field levels).Within (readers field' levels) := by
  induction levels with
  | zero => exact ⟨fun _ _ _ => .tooDeep _, fun _ _ _ => .tooDeep _, hfield⟩
  | succ levels ih =>
    have operand := Caps.unary ih.postfixExpr
    exact {
      expression := fun _ _ le => .deeper (P := Expr.Nested) (ih.test operand) le
      comprehension := fun _ _ le =>
        .clauses (.orTest operand le) (.targetList (.bitwiseOr operand le))
      field := hfield }

end StepTrace
