import StepTrace.Grammar.Statement
import StepTrace.Proofs.Literals.Parsing
import StepTrace.Proofs.Tracking.Places

/-!
Programs as they are read from texts. A reader that succeeds gives trees without marks, with
targets that can be assigned to.
-/

set_option autoImplicit false

namespace StepTrace

open Parse

variable {α β : Type}

/-! ### What readers give -/

/-- What holds of the result of a reader, wherever it succeeds. -/
def Gives (x : Parse α) (P : α → Prop) : Prop :=
  ∀ (c : Cursor) (a : α) (d : Cursor), x c = .ok (a, d) → P a

namespace Gives

variable {x y : Parse α} {P : α → Prop} {Q : β → Prop} {f : α → Parse β}

theorem any : Gives x fun _ => True := fun _ _ _ _ => trivial

theorem ret {a : α} (h : P a) : Gives (pure a) P := by
  rintro c _ _ ⟨⟩
  exact h

theorem failAt {loc : Location} {cause : SyntaxCause} : Gives (Parse.failAt loc cause) P :=
  fun _ _ _ read => nomatch read

theorem fail {cause : SyntaxCause} : Gives (Parse.fail cause) P := fun _ _ _ read => nomatch read

theorem bind (hx : Gives x P) (hf : ∀ a, P a → Gives (f a) Q) : Gives (x >>= f) Q := by
  intro c b e read
  obtain ⟨⟨a, d⟩, first, rest⟩ := Except.of_bind_ok (x := x c) read
  exact hf a (hx c a d first) d b e rest

-- Whatever the first reader gives.
theorem after (hf : ∀ a, Gives (f a) Q) : Gives (x >>= f) Q := any.bind fun a _ => hf a

theorem ite {p : Prop} [Decidable p] (yes : Gives x P) (no : Gives y P) :
    Gives (if p then x else y) P := by
  split
  · exact yes
  · exact no

theorem yes (hx : Gives x P) : Gives (x >>= fun a => pure (some a)) fun a => ∀ b ∈ a, P b := by
  refine hx.bind fun a ha => ret ?_
  rintro _ ⟨⟩
  exact ha

theorem no : Gives (pure none) fun a => ∀ b ∈ a, P b := ret nofun

-- A check or something that is read and dropped.
theorem guard {p : Prop} [Decidable p] {check : Parse Unit} {f : Unit → Parse β}
    (rest : Gives (f ()) Q) : Gives (if p then check >>= f else f ()) Q :=
  ite (after fun _ => rest) rest

-- Something that is there or not.
theorem ifSome {p : Prop} [Decidable p] {f : Option α → Parse β} (hx : Gives x P)
    (rest : ∀ a, (∀ b ∈ a, P b) → Gives (f a) Q) :
    Gives (if p then x >>= fun a => pure (some a) >>= f else pure none >>= f) Q := by
  refine ite (hx.bind fun a ha => rest (some a) ?_) (rest none nofun)
  rintro _ ⟨⟩
  exact ha

theorem ifNone {p : Prop} [Decidable p] {f : Option α → Parse β} (hx : Gives x P)
    (rest : ∀ a, (∀ b ∈ a, P b) → Gives (f a) Q) :
    Gives (if p then pure none >>= f else x >>= fun a => pure (some a) >>= f) Q := by
  refine ite (rest none nofun) (hx.bind fun a ha => rest (some a) ?_)
  rintro _ ⟨⟩
  exact ha

theorem many {P : α → Prop} {step : List α → Parse (Option α)} {first : List α}
    (hstep : ∀ done, Gives (step done) fun a => ∀ b ∈ a, P b) (hfirst : ∀ a ∈ first, P a) :
    Gives (Parse.many step first) fun as => ∀ a ∈ as, P a := by
  have collected (done : List α) (c : Cursor) : (∀ a ∈ done, P a) → ∀ as d,
      collect step done c = .ok (as, d) → ∀ a ∈ as, P a := by
    fun_induction collect step done c with
    | case1 done c e failed => exact fun _ _ _ read => nomatch read
    | case2 done c next declined =>
      rintro hdone _ _ ⟨⟩ a here
      exact hdone a (List.mem_reverse.1 here)
    | case3 done c a next went shorter ih =>
      exact fun hdone => ih (List.forall_mem_cons.2 ⟨hstep done c _ next went a rfl, hdone⟩)
    | case4 done c a next went longer =>
      rintro hdone _ _ ⟨⟩ b here
      rcases List.mem_cons.1 (List.mem_reverse.1 here) with rfl | before
      · exact hstep done c _ next went b rfl
      · exact hdone b before
  intro c as d read
  exact collected first.reverse c (fun a here => hfirst a (List.mem_reverse.1 here)) as d read

theorem commaSeparated {P : α → Prop} {stop : Parse Bool} {item : List α → Parse α}
    {first : List α} (hitem : ∀ done, Gives (item done) P) (hfirst : ∀ a ∈ first, P a) :
    Gives (Parse.commaSeparated stop item first) fun as => ∀ a ∈ as, P a := by
  refine many (fun done => after fun comma => ite (after fun ends => ?_) no) hfirst
  exact ite no (hitem done).yes

end Gives

/-! ### Expressions -/

theorem Expr.Written.asTarget (e : Expr) :
    e.Written .value → e.isAssignable = true → e.Written .target := by
  induction e using Expr.induct with
  | step e ih =>
    intro written assignable
    have items {es : List Expr} (parts : e.parts .value = es.map (Role.value, ·))
        (all : allAssignable es = true) : ∀ part ∈ es.map (Role.target, ·),
          part.2.Written part.1 := by
      intro part here
      obtain ⟨item, inside, rfl⟩ := List.mem_map.1 here
      have here : (Role.value, item) ∈ e.parts .value := by
        rw [parts]
        exact List.mem_map_of_mem inside
      exact ih .value (.value, item) here (written.part here) (allAssignable_iff.1 all item inside)
    cases e with
    | name => exact .node rfl nofun
    | attr | subscript => exact .node rfl fun part here => written.part here
    | list l es | tuple l es => exact .node assignable (items rfl assignable)
    | _ => cases assignable

-- What is read inside expressions.
structure Inner.Written (i : Inner) : Prop where
  expression : ∀ room, Gives (i.expression room) (Expr.Written .value)
  comprehension : ∀ room,
    Gives (i.comprehension room) fun cs => ∀ c ∈ cs, PartsWritten c.parts
  field : ∀ text loc e, i.field text loc = .ok e → e.Written .value

namespace Gives

variable {P : Expr → Prop} {ops : TokenKind → Option α}

theorem deeper {inner : Nat → Parse α} {P : α → Prop} (h : ∀ room, Gives (inner room) P)
    (room : Nat) : Gives (deeper inner room) P := by
  cases room with
  | zero => exact fail
  | succ room => exact h room

theorem chainLink {left : Expr} {next : Location → α → Parse Expr} (hleft : P left)
    (hnext : ∀ loc op, Gives (next loc op) P) : Gives (chainLink ops left next) P := by
  refine after fun kind => ?_
  cases ops kind with
  | none => exact ret hleft
  | some op => exact after fun _ => after fun loc => hnext loc op

theorem chain {node : Location → α → Expr → Expr → Expr} {operand : Nat → Parse Expr}
    (hnode : ∀ loc op l r, P l → P r → P (node loc op l r)) (h : ∀ room, Gives (operand room) P)
    (room : Nat) {left : Expr} (hleft : P left) :
    Gives (chain ops node operand room left) P := by
  induction room generalizing left with
  | zero => exact chainLink hleft fun _ _ => fail
  | succ room ih =>
    refine chainLink hleft fun loc op => (h room).bind fun right hright => ?_
    exact ih (hnode loc op left right hleft hright)

theorem chained {node : Location → α → Expr → Expr → Expr} {operand : Nat → Parse Expr}
    (hnode : ∀ loc op l r, P l → P r → P (node loc op l r)) (h : ∀ room, Gives (operand room) P)
    (room : Nat) : Gives (chained ops node operand room) P :=
  (h room).bind fun _ hleft => chain hnode h room hleft

theorem bitwiseOr {operand : Nat → Parse Expr}
    (h : ∀ room, Gives (operand room) (Expr.Written .value)) (room : Nat) :
    Gives (bitwiseOr operand room) (Expr.Written .value) := by
  have node (loc : Location) (op : BinaryOp) (l r : Expr) (hl : l.Written .value)
      (hr : r.Written .value) : (Expr.binary loc op l r).Written .value :=
    .node rfl (.cons hl (.cons hr .nil))
  exact chained node (chained node (chained node (chained node (chained node (chained node h)))))
    room

theorem unaryWith {base operand : Parse Expr} (hbase : Gives base (Expr.Written .value))
    (hoperand : Gives operand (Expr.Written .value)) :
    Gives (unaryWith base operand) (Expr.Written .value) := by
  refine after fun ⟨kind, loc⟩ => ?_
  dsimp only
  split
  · next op found =>
    refine after fun _ => hoperand.bind fun e he => ret ?_
    unfold foldSign
    split
    · exact .node rfl .nil
    · exact .node rfl .nil
    · exact .node rfl (.cons he .nil)
  · refine hbase.bind fun left hleft => after fun power => ite ?_ (ret hleft)
    exact after fun _ => hoperand.bind fun right hright =>
      ret (.node rfl (.cons hleft (.cons hright .nil)))

theorem unary {base : Nat → Parse Expr} (h : ∀ room, Gives (base room) (Expr.Written .value))
    (room : Nat) : Gives (unary base room) (Expr.Written .value) := by
  induction room with
  | zero => exact unaryWith (h 0) fail
  | succ room ih => exact unaryWith (h (room + 1)) ih

theorem notWith {base operand : Parse Expr} (hbase : Gives base (Expr.Written .value))
    (hoperand : Gives operand (Expr.Written .value)) :
    Gives (notWith base operand) (Expr.Written .value) := by
  refine after fun negated => ite ?_ hbase
  exact after fun _ => hoperand.bind fun e he => ret (.node rfl (.cons he .nil))

theorem notTest {base : Nat → Parse Expr} (h : ∀ room, Gives (base room) (Expr.Written .value))
    (room : Nat) : Gives (notTest base room) (Expr.Written .value) := by
  induction room with
  | zero => exact notWith (h 0) fail
  | succ room ih => exact notWith (h (room + 1)) ih

theorem comparison {operand : Parse Expr} (h : Gives operand (Expr.Written .value)) :
    Gives (comparison operand) (Expr.Written .value) := by
  have linked (op : CompareOp) : Gives (operand >>= fun e => pure (some (op, e)))
      fun a => ∀ b ∈ a, b.2.Written .value := by
    refine h.bind fun e he => ret ?_
    rintro _ ⟨⟩
    exact he
  refine after fun loc => h.bind fun left hleft => ?_
  refine bind (P := fun links => ∀ b ∈ links, b.2.Written .value) ?_ fun rest hrest =>
    ite (ret hleft) (ret (.node rfl (.cons hleft (.map hrest))))
  refine many (fun _ => after fun op => ?_) (List.forall_mem_nil _)
  cases op with
  | none => exact no
  | some op => exact linked op

theorem orTest {operand : Nat → Parse Expr}
    (h : ∀ room, Gives (operand room) (Expr.Written .value)) (room : Nat) :
    Gives (orTest operand room) (Expr.Written .value) := by
  have node (loc : Location) (op : BoolOp) (l r : Expr) (hl : l.Written .value)
      (hr : r.Written .value) : (Expr.boolOp loc op l r).Written .value :=
    .node rfl (.cons hl (.cons hr .nil))
  exact chained node (chained node (notTest fun room => comparison (bitwiseOr h room))) room

theorem ensureAssignable (target : Expr) :
    Gives (ensureAssignable target) fun _ => target.isAssignable = true := by
  unfold StepTrace.ensureAssignable
  cases assignable : target.isAssignable with
  | true => exact ret rfl
  | false => exact failAt

theorem allAssignable (targets : List Expr) :
    Gives (targets.forM StepTrace.ensureAssignable) fun _ =>
      ∀ target ∈ targets, target.isAssignable = true := by
  induction targets with
  | nil => exact ret (List.forall_mem_nil _)
  | cons target rest ih =>
    exact (ensureAssignable target).bind fun _ first => fun c _ d read =>
      List.forall_mem_cons.2 ⟨first, ih c _ d read⟩

theorem targetList {item : Parse Expr} (h : Gives item (Expr.Written .value)) :
    Gives (targetList item) (Expr.Written .target) := by
  have rest {target : Expr} (written : target.Written .value) :
      Gives (StepTrace.ensureAssignable target >>= fun _ => pure target) (Expr.Written .target) :=
    (ensureAssignable target).bind fun _ assignable => ret (.asTarget target written assignable)
  refine after fun loc => h.bind fun first hfirst => after fun comma => ?_
  split
  · refine (commaSeparated (fun _ => h) (List.forall_mem_singleton.2 hfirst)).bind
      fun items hitems => ?_
    exact rest (.node rfl (.map hitems))
  · exact rest hfirst

theorem suffixLink {left : Expr} (hleft : left.Written .value)
    {next : Location → Symbol → Parse Expr}
    (hnext : ∀ loc s, Gives (next loc s) (Expr.Written .value)) :
    Gives (suffixLink left next) (Expr.Written .value) := by
  refine after fun ⟨kind, loc⟩ => ?_
  cases kind with
  | symbol s => cases s with
    | lparen | lbracket | dot => exact hnext _ _
    | _ => exact ret hleft
  | _ => exact ret hleft

theorem clauses {orTest targets : Parse Expr} (htest : Gives orTest (Expr.Written .value))
    (htargets : Gives targets (Expr.Written .target)) :
    Gives (clauses orTest targets) fun cs => ∀ c ∈ cs, PartsWritten c.parts := by
  refine many (fun _ => after fun more => ite no ?_) (List.forall_mem_nil _)
  refine htargets.bind fun target htarget => after fun _ => htest.bind fun iter hiter => ?_
  refine (many (fun _ => after fun more => ?_) (List.forall_mem_nil _)).bind
    fun conditions (hconditions : ∀ e ∈ conditions, e.Written .value) => ret ?_
  · exact ite htest.yes no
  · rintro _ ⟨⟩
    exact .cons htarget (.cons hiter (.map hconditions))

end Gives

/-! ### Formatted strings -/

section

variable {read : String → Location → Except SyntaxError Expr} {loc : Location}

theorem fieldValue_written {field : FieldText} {part : FPart}
    (hread : ∀ text loc e, read text loc = .ok e → e.Written .value)
    (h : fieldValue read loc field = .ok part) : PartsWritten part.parts := by
  unfold fieldValue at h
  dsimp only at h
  split at h
  · cases h
  · obtain ⟨value, found, h⟩ := Except.of_bind_ok h
    have hvalue := hread _ _ _ found
    have called (name : String) : (Expr.call value.location (.name value.location name)
        [value] []).Written .value :=
      .node rfl (.cons (.node rfl .nil) (.cons hvalue .nil))
    split at h <;> cases h
    · exact .cons hvalue .nil
    · exact .cons (called _) .nil
    · exact .cons (called _) .nil
    · exact .cons (called _) .nil

theorem fstringFrom_written {literal body : List Char} {parts all : List FPart}
    (hread : ∀ text loc e, read text loc = .ok e → e.Written .value)
    (hparts : ∀ part ∈ parts, PartsWritten part.parts)
    (h : fstringFrom read loc literal parts body = .ok all) :
    ∀ part ∈ all, PartsWritten part.parts := by
  have texts (literal : List Char) : ∀ part ∈ literalPart literal, PartsWritten part.parts := by
    unfold literalPart
    split
    · nofun
    · exact List.forall_mem_singleton.2 .nil
  fun_induction fstringFrom read loc literal parts body with
  | case1 literal parts =>
    cases h
    intro part here
    rw [List.mem_reverse, List.mem_append] at here
    exact here.elim (texts literal part) (hparts part)
  | case2 literal parts c rest doubled ih => exact ih hparts h
  | case3 | case4 | case6 => cases h
  | case5 literal parts rest field after found shorter single opens ih =>
    obtain ⟨part, read, h⟩ := Except.of_bind_ok h
    refine ih part ?_ h
    exact List.forall_mem_cons.2 ⟨fieldValue_written hread read,
      List.forall_mem_append.2 ⟨texts literal, hparts⟩⟩
  | case7 literal parts c rest single closes opens ih => exact ih hparts h

end

namespace Inner.Written

open Gives

variable {i : Inner} (I : i.Written)
include I

theorem expressionList (room : Nat) :
    Gives (expressionList i room) (Expr.Written .value) := by
  refine after fun loc => (I.expression room).bind fun first hfirst => after fun comma => ?_
  refine ite (ret hfirst) ?_
  refine (commaSeparated (fun _ => I.expression room) (List.forall_mem_singleton.2 hfirst)).bind
    fun items hitems => ret (.node rfl (.map hitems))

theorem parameter (room : Nat) (annotated : Bool) (before : List Param) :
    Gives (parameters.parameter i room annotated before) fun p => PartsWritten p.parts := by
  have rest (name : String) (loc : Location) : Gives (accept .eq >>= fun given =>
      if given then i.expression room >>= fun e => pure (some e) >>= fun value =>
        if value.isNone && before.any (·.default.isSome) then
          Parse.failAt loc .defaultOrder >>= fun _ : Unit => pure (Param.mk name value)
        else pure (Param.mk name value)
      else pure none >>= fun value =>
        if value.isNone && before.any (·.default.isSome) then
          Parse.failAt loc .defaultOrder >>= fun _ : Unit => pure (Param.mk name value)
        else pure (Param.mk name value)) fun p => PartsWritten p.parts := by
    refine after fun given => ifSome (I.expression room) fun value hvalue => guard (ret ?_)
    exact .map fun e here => hvalue e (Option.mem_toList.1 here)
  refine after fun _ => after fun _ => guard (after fun loc => after fun name => guard ?_)
  exact ite (after fun _ => guard (rest name loc)) (rest name loc)

theorem parameters (room : Nat) (close : Symbol) (annotated : Bool) :
    Gives (parameters i room close annotated) fun ps => ∀ p ∈ ps, PartsWritten p.parts := by
  refine after fun empty => ite (ret (List.forall_mem_nil _)) ?_
  refine (I.parameter room annotated []).bind fun first hfirst => ?_
  exact commaSeparated (I.parameter room annotated) (List.forall_mem_singleton.2 hfirst)

theorem argument (room : Nat) (before : List Argument) :
    Gives (arguments.argument i room before) fun a =>
      (∀ e ∈ a.positional?, e.Written .value) ∧ ∀ kw ∈ a.keyword?, kw.2.Written .value := by
  have positional {e : Expr} (h : e.Written .value) :
      (∀ e' ∈ (Argument.positional e).positional?, e'.Written .value) ∧
        ∀ kw ∈ (Argument.positional e).keyword?, kw.2.Written .value := by
    refine ⟨?_, nofun⟩
    rintro _ ⟨⟩
    exact h
  refine after fun _ => after fun _ => guard (after fun named => ite ?_ ?_)
  · refine after fun name => after fun _ => (I.expression room).bind fun e he => ret ⟨nofun, ?_⟩
    rintro _ ⟨⟩
    exact he
  · refine guard (after fun loc => (I.expression room).bind fun e he => after fun comp => ?_)
    refine ite ((I.comprehension room).bind fun cs hcs => ret (positional ?_)) (ret (positional he))
    exact .node rfl (.cons he (.flatMap hcs))

theorem arguments (room : Nat) :
    Gives (arguments i room) fun as => ∀ a ∈ as,
      (∀ e ∈ a.positional?, e.Written .value) ∧ ∀ kw ∈ a.keyword?, kw.2.Written .value := by
  refine after fun empty => ite (ret (List.forall_mem_nil _)) ?_
  refine (I.argument room []).bind fun first hfirst => ?_
  exact commaSeparated (I.argument room) (List.forall_mem_singleton.2 hfirst)

theorem bounds (room : Nat) (loc : Location) {lower : Option Expr}
    (hlower : ∀ e ∈ lower, e.Written .value) :
    Gives (index.bounds i room loc lower) (Expr.Written .value) := by
  have node {upper step : Option Expr} (hupper : ∀ e ∈ upper, e.Written .value)
      (hstep : ∀ e ∈ step, e.Written .value) :
      (Expr.slice loc lower upper step).Written .value := by
    have all {o : Option Expr} (h : ∀ e ∈ o, e.Written .value) : ∀ e ∈ o.toList, e.Written .value :=
      fun e here => h e (Option.mem_toList.1 here)
    exact .node rfl (.map (List.forall_mem_append.2 ⟨all hlower,
      List.forall_mem_append.2 ⟨all hupper, all hstep⟩⟩))
  refine after fun _ => after fun _ => after fun _ =>
    ifNone (I.expression room) fun upper hupper => ?_
  refine after fun _ => ite (after fun _ => ?_) (ret (node hupper nofun))
  exact ifNone (I.expression room) fun step hstep => ret (node hupper hstep)

theorem index (room : Nat) : Gives (index i room) (Expr.Written .value) := by
  refine after fun loc => after fun _ => ite (I.bounds room loc nofun) ?_
  refine (I.expressionList room).bind fun first hfirst => after fun _ => ite ?_ (ret hfirst)
  refine I.bounds room loc ?_
  rintro _ ⟨⟩
  exact hfirst

theorem stringAtom : Gives (stringAtom i) (Expr.Written .value) := by
  refine after fun loc => (many (fun _ => after fun t => ?_) (List.forall_mem_nil _)).bind
    fun pieces (hpieces : ∀ piece ∈ pieces, ∀ part ∈ piece.2, PartsWritten part.parts) => ?_
  · obtain ⟨kind, start⟩ := t
    cases kind with
    | str s =>
      refine after fun _ => ret ?_
      rintro _ ⟨⟩
      exact List.forall_mem_singleton.2 .nil
    | fstr body =>
      refine after fun _ => ?_
      cases read : fstringParts i.field start body with
      | error e => exact fun _ _ _ failed => nomatch failed
      | ok parts =>
        refine ret ?_
        rintro _ ⟨⟩
        exact fstringFrom_written I.field (List.forall_mem_nil _) read
    | _ => exact no
  · refine ite (ret (.node rfl (.flatMap ?_))) (ret (.node rfl .nil))
    intro part here
    obtain ⟨piece, inside, here⟩ := List.mem_flatMap.1 here
    exact hpieces piece inside part here

theorem items {stop : Parse Bool} {first : Expr} (room : Nat) (hfirst : first.Written .value) :
    Gives (commaSeparated stop (fun _ => i.expression room) [first])
      fun items => ∀ e ∈ items, e.Written .value :=
  commaSeparated (fun _ => I.expression room) (List.forall_mem_singleton.2 hfirst)

theorem parenthesized (room : Nat) (loc : Location) :
    Gives (parenthesized i room loc) (Expr.Written .value) := by
  refine after fun empty => ite (ret (.node rfl .nil)) ?_
  refine (I.expression room).bind fun first hfirst => after fun comp => ite ?_ ?_
  · refine (I.comprehension room).bind fun cs hcs => after fun _ => ret ?_
    exact .node rfl (.cons hfirst (.flatMap hcs))
  · refine after fun comma => ite (after fun _ => ret hfirst) ?_
    exact (I.items room hfirst).bind fun items hitems => after fun _ =>
      ret (.node rfl (.map hitems))

theorem listDisplay (room : Nat) (loc : Location) :
    Gives (listDisplay i room loc) (Expr.Written .value) := by
  refine after fun empty => ite (ret (.node rfl .nil)) ?_
  refine (I.expression room).bind fun first hfirst => after fun comp => ite ?_ ?_
  · refine (I.comprehension room).bind fun cs hcs => after fun _ => ret ?_
    exact .node rfl (.cons hfirst (.flatMap hcs))
  · exact (I.items room hfirst).bind fun items hitems => after fun _ =>
      ret (.node rfl (.map hitems))

theorem entry (room : Nat) :
    Gives (entry i room) fun e => e.1.Written .value ∧ e.2.Written .value :=
  (I.expression room).bind fun _ key => after fun _ =>
    (I.expression room).bind fun _ value => ret ⟨key, value⟩

theorem braceDisplay (room : Nat) (loc : Location) :
    Gives (braceDisplay i room loc) (Expr.Written .value) := by
  refine after fun empty => ite (ret (.node rfl .nil)) ?_
  refine (I.expression room).bind fun first hfirst => after fun colon => ite ?_ ?_
  · refine (I.expression room).bind fun value hvalue => after fun comp => ite ?_ ?_
    · refine (I.comprehension room).bind fun cs hcs => after fun _ => ret ?_
      exact .node rfl (.cons hfirst (.cons hvalue (.flatMap hcs)))
    · have entry : (first, value).1.Written .value ∧ (first, value).2.Written .value :=
        ⟨hfirst, hvalue⟩
      refine (commaSeparated (fun _ => I.entry room) (List.forall_mem_singleton.2 entry)).bind
        fun entries hentries => after fun _ => ret (.node rfl (.flatMap ?_))
      exact fun e here => .cons (hentries e here).1 (.cons (hentries e here).2 .nil)
  · refine after fun comp => ite ?_ ?_
    · refine (I.comprehension room).bind fun cs hcs => after fun _ => ret ?_
      exact .node rfl (.cons (.node rfl .nil)
        (.cons (.node rfl (.cons hfirst (.flatMap hcs))) .nil))
    · exact (I.items room hfirst).bind fun items hitems => after fun _ =>
        ret (.node rfl (.map hitems))

theorem primary (room : Nat) : Gives (primary i room) (Expr.Written .value) := by
  refine after fun ⟨kind, loc⟩ => ?_
  have literal {e : Expr} (h : e.Written .value) :
      Gives (advance >>= fun _ => pure e) (Expr.Written .value) := after fun _ => ret h
  cases kind with
  | int | float | ident => exact literal (.node rfl .nil)
  | str | fstr => exact I.stringAtom
  | keyword k => cases k with
    | true | false | none => exact literal (.node rfl .nil)
    | _ => exact failAt
  | symbol s => cases s with
    | lparen => exact after fun _ => I.parenthesized room loc
    | lbracket => exact after fun _ => I.listDisplay room loc
    | lbrace => exact after fun _ => I.braceDisplay room loc
    | _ => exact failAt
  | _ => exact failAt

theorem suffix (room : Nat) {left : Expr} (hleft : left.Written .value) {next : Expr → Parse Expr}
    (hnext : ∀ e, e.Written .value → Gives (next e) (Expr.Written .value)) (loc : Location)
    (s : Symbol) : Gives (suffix i room left next loc s) (Expr.Written .value) := by
  have field : Gives (advance >>= fun _ => identifier >>= fun name => next (.attr loc left name))
      (Expr.Written .value) :=
    after fun _ => after fun name => hnext _ (.node rfl (.cons hleft .nil))
  cases s with
  | lparen =>
    refine after fun _ => (I.arguments room).bind fun args hargs => after fun _ => hnext _ ?_
    refine .node rfl (.cons hleft (.append (.map fun e here => ?_) (.map fun kw here => ?_)))
    · obtain ⟨a, inside, found⟩ := List.mem_filterMap.1 here
      exact (hargs a inside).1 e found
    · obtain ⟨a, inside, found⟩ := List.mem_filterMap.1 here
      exact (hargs a inside).2 kw found
  | lbracket =>
    refine after fun _ => (I.index room).bind fun at_ hat => after fun _ => hnext _ ?_
    exact .node rfl (.cons hleft (.cons hat .nil))
  | _ => exact field

theorem suffixes (room : Nat) {left : Expr} (hleft : left.Written .value) :
    Gives (suffixes i room left) (Expr.Written .value) := by
  induction room generalizing left with
  | zero => exact Gives.suffixLink hleft fun _ _ => fail
  | succ room ih => exact Gives.suffixLink hleft (I.suffix room hleft fun _ => ih)

theorem postfixExpr (room : Nat) : Gives (postfixExpr i room) (Expr.Written .value) :=
  (I.primary room).bind fun _ => I.suffixes room

theorem lambdaExpr (room : Nat) : Gives (lambdaExpr i room) (Expr.Written .value) := by
  refine after fun loc => after fun _ => (I.parameters room .colon false).bind fun ps hps => ?_
  refine after fun _ => (I.expression room).bind fun body hbody => ret ?_
  exact .node rfl (.cons hbody (.flatMap hps))

theorem test {operand : Nat → Parse Expr}
    (h : ∀ room, Gives (operand room) (Expr.Written .value)) (room : Nat) :
    Gives (test i operand room) (Expr.Written .value) := by
  refine after fun isLambda => ite (I.lambdaExpr room) ?_
  refine after fun loc => (Gives.orTest h room).bind fun yes hyes => after fun cond =>
    ite ?_ (ret hyes)
  refine (Gives.orTest h room).bind fun condition hcondition => after fun _ => ?_
  refine (I.expression room).bind fun no hno => ret ?_
  exact .node rfl (.cons hcondition (.cons hyes (.cons hno .nil)))

end Inner.Written

-- Readers of expressions in the fields of formatted strings.
def FieldsWritten (field : String → Location → Except SyntaxError Expr) : Prop :=
  ∀ text loc e, field text loc = .ok e → e.Written .value

theorem readers_written {field : String → Location → Except SyntaxError Expr}
    (hfield : FieldsWritten field) (levels : Nat) : (readers field levels).Written := by
  induction levels with
  | zero => exact ⟨fun _ => .fail, fun _ => .fail, hfield⟩
  | succ levels ih =>
    have operand (room : Nat) := Gives.unary ih.postfixExpr room
    exact {
      expression := .deeper (ih.test operand)
      comprehension := fun room =>
        .clauses (.orTest operand room) (.targetList (.bitwiseOr operand room))
      field := hfield }

theorem fieldExpression_written {field : String → Location → Except SyntaxError Expr}
    (hfield : FieldsWritten field) : FieldsWritten (fieldExpression field) := by
  intro text loc e h
  obtain ⟨ts, -, h⟩ := Except.of_bind_ok h
  obtain ⟨⟨e', left⟩, read, h⟩ := Except.of_bind_ok h
  have written := (readers_written hfield _).expressionList maxNesting _ _ _ read
  dsimp only at h
  split at h <;> cases h <;> exact written

theorem fieldAt_written (depth : Nat) : FieldsWritten (fieldAt depth) := by
  induction depth with
  | zero => nofun
  | succ depth ih => exact fieldExpression_written ih

/-! ### Statements -/

def Stmt.Written (s : Stmt) : Prop := PartsWritten s.parts ∧ s.inner.Written

def BlockWritten (p : Program) : Prop := ∀ s ∈ p, s.Written

structure Parts.Written (p : Parts) : Prop where
  inner : p.inner.Written
  postfixAt : ∀ room, Gives (p.postfixAt room) (Expr.Written .value)
  targets : ∀ room, Gives (p.targets room) (Expr.Written .target)

theorem Inner.Written.parts {i : Inner} (I : i.Written) : (Parts.of i).Written where
  inner := I
  postfixAt := I.postfixExpr
  targets := fun room => Gives.targetList (Gives.bitwiseOr (Gives.unary I.postfixExpr) room)

theorem Program.Written.nil : Program.Written [] := .of nofun

-- A statement without blocks.
theorem Stmt.Written.simple {s : Stmt} (parts : PartsWritten s.parts) (simple : s.inner = []) :
    s.Written :=
  ⟨parts, simple ▸ .nil⟩

theorem isAssignable_of_isPlace {e : Expr} (place : e.isPlace = true) : e.isAssignable = true := by
  cases e <;> first | rfl | cases place

namespace Parts.Written

open Gives

variable {p : Parts} (P : p.Written)
include P

theorem expressionStatement (room : Nat) : Gives (expressionStatement p room) Stmt.Written := by
  have list := P.inner.expressionList room
  refine after fun loc => list.bind fun first hfirst => after fun eq => ite ?_ (after fun k => ?_)
  · refine (many (fun _ => after fun _ => ?_) (List.forall_mem_nil _)).bind
      fun rest (hrest : ∀ e ∈ rest, e.Written .value) => ?_
    · exact ite list.yes no
    · have chain : ∀ e ∈ first :: rest, e.Written .value := List.forall_mem_cons.2 ⟨hfirst, hrest⟩
      refine (Gives.allAssignable (first :: rest).dropLast).bind fun _ assignable => ret ?_
      have targets : ∀ e ∈ (first :: rest).dropLast, e.Written .target := fun e here =>
        .asTarget e (chain e (List.mem_of_mem_dropLast here)) (assignable e here)
      refine .simple (.cons (chain _ ?_) (.map targets)) rfl
      rw [List.getLastD_cons]
      exact List.getLastD_mem_cons
  · cases augmented? k with
    | some op =>
      refine after fun _ => ?_
      cases place : first.isPlace with
      | false => exact bind (P := fun _ => False) failAt nofun
      | true =>
        refine list.bind fun value hvalue => ret ?_
        have target := Expr.Written.asTarget first hfirst (isAssignable_of_isPlace place)
        exact .simple (.cons target (.cons hvalue .nil)) rfl
    | none =>
      refine after fun annotated => ite ?_ (ret (.simple (.cons hfirst .nil) rfl))
      refine (Gives.ensureAssignable first).bind fun _ assignable => after fun _ =>
        after fun _ => ite ?_ ?_
      · refine list.bind fun value hvalue => ret ?_
        exact .simple (.cons hvalue (.cons (.asTarget first hfirst assignable) .nil)) rfl
      · exact ret (.simple .nil rfl)

theorem simpleStatement (room : Nat) : Gives (simpleStatement p room) Stmt.Written := by
  have list := P.inner.expressionList room
  have one := P.inner.expression room
  refine after fun ⟨kind, loc⟩ => ?_
  cases kind with
  | keyword k => cases k with
    | pass | «break» | «continue» => exact after fun _ => ret (.simple .nil rfl)
    | «return» =>
      refine after fun _ => after fun _ => ite (ret (.simple .nil rfl)) ?_
      exact list.bind fun e he => ret (.simple (.cons he .nil) rfl)
    | global => exact after fun _ => after fun _ => after fun _ => ret (.simple .nil rfl)
    | raise =>
      refine after fun _ => after fun _ => ite (ret (.simple .nil rfl)) ?_
      exact one.bind fun e he => ret (.simple (.cons he .nil) rfl)
    | assert =>
      refine after fun _ => one.bind fun condition hc => after fun _ => ite ?_ ?_
      · exact one.bind fun e he => ret (.simple (.cons hc (.cons he .nil)) rfl)
      · exact ret (.simple (.cons hc .nil) rfl)
    | del =>
      refine after fun _ => (P.postfixAt room).bind fun first hfirst => ?_
      refine (commaSeparated (fun _ => P.postfixAt room)
        (List.forall_mem_singleton.2 hfirst)).bind fun targets htargets => ?_
      split
      · exact failAt
      · next good =>
        refine ret (.simple (.map fun e here => ?_) rfl)
        have assignable := List.find?_eq_none.1 good e here
        exact .asTarget e (htargets e here) (by simpa using assignable)
    | imports => exact after fun _ => after fun _ => after fun _ => ret (.simple .nil rfl)
    | «from» =>
      refine after fun _ => after fun _ => after fun _ => after fun _ => after fun _ => ?_
      exact after fun _ => guard (ret (.simple .nil rfl))
    | elif | «else» => exact fail
    | _ => exact P.expressionStatement room
  | reserved word => exact failAt
  | _ => exact P.expressionStatement room

theorem simpleLine (room : Nat) : Gives (simpleLine p room) BlockWritten := by
  refine (P.simpleStatement room).bind fun first hfirst => ?_
  refine (many (fun _ => after fun _ => ite (after fun _ => after fun _ => ?_) no)
    (List.forall_mem_singleton.2 hfirst)).bind fun stmts hstmts => after fun _ => ?_
  · exact ite no (P.simpleStatement room).yes
  · exact ite (ret hstmts) (after fun _ => ret hstmts)

variable {block : Nat → Parse (List Stmt)} (B : ∀ room, Gives (block room) BlockWritten)
include B

theorem ifWith {elseIf : Parse Stmt} (h : Gives elseIf Stmt.Written) (room : Nat) :
    Gives (ifWith p block elseIf room) Stmt.Written := by
  refine after fun loc => (P.inner.expression room).bind fun condition hcondition => ?_
  have node {body orelse : Program} (hbody : BlockWritten body) (horelse : BlockWritten orelse) :
      (Stmt.ifElse loc condition body orelse).Written :=
    ⟨.cons hcondition .nil, .of (List.forall_mem_append.2 ⟨hbody, horelse⟩)⟩
  refine (B room).bind fun body hbody => after fun elif => ite ?_ (after fun els => ite ?_ ?_)
  · exact h.bind fun other hother => ret (node hbody (List.forall_mem_singleton.2 hother))
  · exact (B room).bind fun orelse horelse => ret (node hbody horelse)
  · exact ret (node hbody nofun)

theorem ifStatement (room : Nat) : Gives (ifStatement p block room) Stmt.Written := by
  induction room with
  | zero => exact P.ifWith B fail 0
  | succ room ih => exact P.ifWith B ih (room + 1)

theorem compound (room : Nat) (loc : Location) (k : Keyword) :
    Gives (compound p block room loc k) Stmt.Written := by
  have one := P.inner.expression room
  cases k with
  | «while» =>
    refine one.bind fun condition hcondition => (B room).bind fun body hbody => after fun _ => ?_
    exact guard (ret ⟨.cons hcondition .nil, .of hbody⟩)
  | «for» =>
    refine (P.targets room).bind fun target htarget => after fun _ => ?_
    refine (P.inner.expressionList room).bind fun iter hiter => ?_
    refine (B room).bind fun body hbody => after fun _ => guard (ret ?_)
    exact ⟨.cons htarget (.cons hiter .nil), .of hbody⟩
  | define =>
    refine after fun name => after fun _ => ?_
    refine (P.inner.parameters room .rparen true).bind fun ps hps => after fun _ => ?_
    refine after fun _ => guard ((B room).bind fun body hbody => ret ?_)
    exact ⟨.flatMap hps, .of hbody⟩
  | _ =>
    refine after fun name => ?_
    have rest (base : Option Expr) (hbase : ∀ e ∈ base, e.Written .value) :
        Gives (block room >>= fun body => pure (Stmt.class loc name base body)) Stmt.Written :=
      (B room).bind fun body hbody =>
        ret ⟨.map fun e here => hbase e (Option.mem_toList.1 here), .of hbody⟩
    refine after fun _ => ite (after fun _ => ?_) (rest none nofun)
    exact ifNone one fun base hbase => after fun _ => rest base hbase

theorem statement (room : Nat) : Gives (statement p block room) BlockWritten := by
  have one {x : Parse Stmt} (h : Gives x Stmt.Written) :
      Gives (x >>= fun s => pure [s]) BlockWritten :=
    h.bind fun s hs => ret (List.forall_mem_singleton.2 hs)
  refine after fun ⟨kind, loc⟩ => ?_
  cases kind with
  | keyword k =>
    have other : Gives (if [Keyword.while, .for, .define, .cls].contains k then
        advance >>= fun _ => StepTrace.compound p block room loc k >>= fun s => pure [s]
        else StepTrace.simpleLine p room) BlockWritten :=
      ite (after fun _ => one (P.compound B room loc k)) (P.simpleLine room)
    cases k with
    | «if» => exact after fun _ => one (P.ifStatement B room)
    | _ => exact other
  | _ => exact P.simpleLine room

theorem lines (room : Nat) : Gives (passIf isNewline >>= fun blank =>
    if blank then pure (some []) else StepTrace.statement p block room >>= fun s => pure (some s))
    fun line => ∀ p ∈ line, BlockWritten p := by
  refine after fun blank => ite (ret ?_) (P.statement B room).yes
  rintro _ ⟨⟩
  exact List.forall_mem_nil _

theorem suite (room : Nat) : Gives (suite p block room) BlockWritten := by
  refine after fun _ => after fun line => ite (P.simpleLine room) (after fun indent => guard ?_)
  refine (many (fun _ => after fun _ => after fun _ => ?_) (List.forall_mem_nil _)).bind
    fun body hbody => after fun _ => ret (List.forall_mem_flatten.2 hbody)
  exact ite no (P.lines B room)

end Parts.Written

theorem blockAt_written {p : Parts} (P : p.Written) (levels room : Nat) :
    Gives (blockAt p levels room) BlockWritten := by
  induction levels generalizing room with
  | zero => exact .fail
  | succ levels ih => exact .deeper (P.suite ih) room

theorem program_written {p : Parts} (P : p.Written) : Gives (program p) BlockWritten := by
  have statement := P.statement (fun room => blockAt_written P (maxNesting + 1) room) maxNesting
  refine (Gives.many (fun _ => .after fun _ => .ite .no (.after fun _ => .ite (.ret ?_) ?_))
    (List.forall_mem_nil _)).bind fun lines hlines => .ret (List.forall_mem_flatten.2 hlines)
  · rintro _ ⟨⟩
    exact List.forall_mem_nil _
  · exact .after fun _ => .guard statement.yes

-- What is read from a text has no marks, and its targets can be assigned to.
theorem parseProgram_written {source : String} {p : Program}
    (parsed : parseProgram source = .ok p) : p.Written := by
  obtain ⟨ts, -, parsed⟩ := Except.of_bind_ok parsed
  obtain ⟨⟨stmts, d⟩, read, parsed⟩ := Except.of_bind_ok parsed
  cases parsed
  have inner := readers_written (fieldAt_written source.length) (Cursor.levels ⟨ts, ⟨1, 1⟩⟩)
  exact .of (program_written inner.parts _ _ _ read)

end StepTrace
