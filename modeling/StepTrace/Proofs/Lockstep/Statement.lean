import StepTrace.Proofs.Lockstep.Expression

/-!
Statements and whole programs in lockstep.
-/

set_option autoImplicit false

namespace StepTrace

namespace Lockstep

variable {d : Leeway}

theorem claim (cls : ObjId) (vs : List Value) : (Interp.claim cls vs).Steady d .all := by
  induction vs with
  | nil => exact .ret _
  | cons v rest ih =>
    cases v with
    | ref id =>
      refine .seq (change id (fun o o' ho => ?_) fun o => by cases o <;> rfl) fun _ => ih
      cases ho with
      | same => exact .same _
      | list items place h => exact .list items place h
      | function f h => exact .function { f with owner := f.owner.orElse fun _ => some cls } h
    | none | bool | int | float | str | builtin => exact ih

theorem importModule (name : String) : (Interp.importModule name).Steady d .all := by
  refine .seq (.op (.imported? name)) fun found => ?_
  split
  · exact .ret _
  · split
    · exact .fault _
    · exact .seq (.alloc rfl) fun _ => .seq (.op (.remember ..)) fun _ => .ret _

theorem importNames (module : String) (v : Value) (names : List ImportedName) :
    (Interp.importNames module v names).Steady d .all := by
  induction names with
  | nil => exact .ret _
  | cons n rest ih =>
    refine .onObject v (fun _ _ => rfl) (fun _ _ => rfl) fun o => ?_
    dsimp only
    split
    · exact .seq (.op (.store _ _ trivial)) fun _ => ih
    · exact .raise _

end Lockstep

namespace Interp.InStep

variable {d : Leeway} {r r' : Interp} (R : r.InStep d r')

section

include R

theorem inPlace (op : BinaryOp) (a b : Value) :
    Lockstep d .all Eq (r.inPlace op a b) (r'.inPlace op a b) := by
  cases a with
  | ref id =>
    refine .onObject (.ref id) (fun _ _ => by cases op <;> rfl) (fun _ _ => rfl) fun o => ?_
    split
    · exact .seq (R.collect b) fun _ => .seq (.changeItems ..) fun _ => .ret _
    · refine .onObject b (fun _ _ => rfl) (fun _ _ => rfl) fun o => ?_
      split
      · split
        · exact .seq (.alloc rfl) fun _ => .seq (.mapSet ..) fun _ => .ret _
        · exact R.binary ..
      · exact R.binary ..
    · exact R.binary ..
  | none | bool | int | float | str | builtin =>
    exact .onObject _ (fun _ _ => rfl) (fun _ _ => rfl) fun _ => R.binary ..

theorem raised (v : Value) : Lockstep d .all Eq (r.raised v) (r'.raised v) := by
  have refused : (Run.fault (α := Fault) .notAnException).Steady d .all := .fault _
  cases v with
  | ref id =>
    refine .onHeap fun h h' H => ?_
    rcases H.points (.ref id) with same | ⟨_, _, left, right⟩ | ⟨_, left, right⟩
    · rw [same]
      split
      · exact .ret _
      · exact .ret _
      · rw [H.exceptionBase?]
        exact .ite (fun _ => .ret _) fun _ => refused
      · rw [H.exceptionBase?, H.className]
        exact .ite (fun _ => .seq (R.display _) fun _ => .ret _) fun _ => refused
      · exact refused
    · rw [left, right]
      exact refused
    · rw [left, right]
      exact refused
  | builtin b =>
    refine .onHeap fun h h' H => ?_
    cases b with
    | exception kind => exact .ret _
    | _ => exact refused
  | none | bool | int | float | str => exact .onHeap fun _ _ _ => refused

end

variable {t : Bool} (ht : t ≤ d.marks)
include R ht

theorem augAssign (line : Nat) (op : BinaryOp) (target value : Expr) :
    Lockstep d .all Eq (r.augAssign line op target value)
      (r'.augAssign line op (target.markedTarget t) (value.marked t)) := by
  cases target with
  | name l name =>
    cases t <;> exact .seq (.op (.lookup name)) fun _ => .seq (R.eval _ ht value trivial) fun _ =>
      .seq (R.inPlace ..) fun _ => .op (.store _ _ trivial)
  | attr l object name =>
    rw [Expr.markedTarget_attr]
    exact .seq (R.eval t ht object trivial) fun _ => .seq (.getAttr ..) fun _ =>
      .seq (R.eval t ht value trivial) fun _ => .seq (R.inPlace ..) fun _ => .setAttr ..
  | subscript l object index =>
    have unsliced : isSlice (index.marked t) = isSlice index := by cases t <;> cases index <;> rfl
    rw [Expr.markedTarget_subscript]
    unfold Interp.augAssign
    dsimp only
    rw [unsliced]
    exact .ite (fun _ => .raise _) fun _ => .seq (R.eval t ht object trivial) fun _ =>
      .seq (R.eval t ht index trivial) fun _ => .seq (R.getItem ..) fun _ =>
        .seq (R.eval t ht value trivial) fun _ => .seq (R.inPlace ..) fun _ => R.setItem ..
  | _ => cases t <;> exact .fault _

set_option linter.unusedSectionVars false in
mutual

theorem remove (line : Nat) (target : Expr) :
    Lockstep d .all Eq (r.remove line target) (r'.remove line (target.markedTarget t)) := by
  cases target with
  | name l name => cases t <;> exact .op (.delete name rfl)
  | tuple l targets =>
    rw [Expr.markedTarget_tuple]
    exact removeAll line targets
  | list l targets =>
    rw [Expr.markedTarget_list]
    exact removeAll line targets
  | attr l object name =>
    rw [Expr.markedTarget_attr]
    exact .seq (R.eval t ht object trivial) fun _ => .deleteAttr ..
  | subscript l object index =>
    rw [Expr.markedTarget_subscript]
    exact .seq (R.eval t ht object trivial) fun _ =>
      R.withIndex (p := .all) ht index trivial (.deleteSlice _) (R.deleteItem _)
  | _ => cases t <;> exact .fault _

theorem removeAll (line : Nat) (targets : List Expr) :
    Lockstep d .all Eq (r.removeAll line targets)
      (r'.removeAll line (markIf t trackTargets targets)) := by
  cases targets with
  | nil =>
    rw [marked_targets_nil]
    exact .ret _
  | cons target rest =>
    rw [marked_targets_cons]
    exact .seq (remove line target) fun _ => removeAll line rest

end

theorem baseOf (base : Option Expr) :
    Lockstep d .all Eq (r.baseOf base) (r'.baseOf (markIf t trackOption base)) := by
  cases base with
  | none =>
    rw [marked_option_none]
    exact .ret _
  | some e =>
    rw [marked_option_some]
    refine .seq (R.eval t ht e trivial) fun v => ?_
    have refused : (Run.faultOn (α := Option ObjId × Option String) fun h =>
        .type ("cannot inherit from " ++ Fault.mark (h.typeName v) ++ " object")).Steady d .all :=
      .faultOn fun _ _ H => by rw [H.typeName]
    cases v with
    | builtin b =>
      refine .onObject (.builtin b) (fun _ _ => by cases b <;> rfl)
        (fun _ _ => by cases b <;> rfl) fun o => ?_
      split
      · exact .ret _
      · exact .ret _
      · exact .ret _
      · exact .ite (fun _ => .fault _) fun _ => refused
    | ref id =>
      refine .onObject (.ref id) (fun _ _ => rfl) (fun _ _ => rfl) fun o => ?_
      split
      · exact .ret _
      · exact .ret _
      · exact .ret _
      · exact refused
    | none | bool | int | float | str =>
      exact .onObject _ (fun _ _ => rfl) (fun _ _ => rfl) fun _ => refused

theorem assignEach (line : Nat) (v : Value) (targets : List Expr) :
    Lockstep d .all Eq (r.assignEach line v targets)
      (r'.assignEach line v (markIf t trackTargets targets)) := by
  induction targets with
  | nil =>
    rw [marked_targets_nil]
    exact .ret _
  | cons target rest ih =>
    rw [marked_targets_cons]
    exact .seq (assign R ht _ _ _ fun _ _ => trivial) fun _ => ih

section

variable (run : d.statements = true)
include run

theorem defineClass (line : Nat) (name : String) (base : Option Expr) (body : List Stmt)
    (code : anyGlobal body ≤ d.globals) :
    Lockstep d .all Eq (r.defineClass line name base body)
      (r'.defineClass line name (markIf t trackOption base) (markIf t trackBlock body)) := by
  refine .seq (R.baseOf ht base) fun _ => .seq (.op .enclosingScope) fun parent => ?_
  rw [Run.inScope_bind, Run.inScope_bind]
  refine .seq (.inScope .empty parent (fun _ => rfl) (fun _ => Bool.false_le _)
    (fun _ => Rights.knows_of_empty rfl) .within fun _ => .map _ (R.block run t ht body code))
    fun ⟨scope, flow⟩ => ?_
  dsimp only
  split
  · refine .seq (.op (.varsOf scope)) fun _ => .seq (.alloc rfl) fun v => ?_
    split
    · exact .seq (.claim ..) fun _ => .op (.store _ _ trivial)
    · exact .op (.store _ _ trivial)
  · exact .fault _
  · exact .fault _
  · exact .fault _

theorem whileLoop (line : Nat) (condition : Expr) (body : List Stmt)
    (code : anyGlobal body ≤ d.globals) {n k : Nat} (fuel : d.Fuels n k) :
    Lockstep d .all Eq (r.whileLoop line condition body n)
      (r'.whileLoop line (condition.marked t) (markIf t trackBlock body) k) := by
  induction fuel with
  | spent => exact .op .outOfFuel
  | starved h k => exact .starved h _
  | more _ ih =>
    refine .seq (R.eval t ht condition trivial) fun _ => .seq (R.truth _) fun
      | true => .seq (R.block run t ht body code) fun flow => ?_
      | false => .ret _
    split
    · exact .ret _
    · exact .ret _
    · exact .seq (.boundary line run) fun _ => ih
    · exact .seq (.boundary line run) fun _ => ih

theorem forLoop (line : Nat) (target : Expr) (body : List Stmt)
    (code : anyGlobal body ≤ d.globals) {n k : Nat} (fuel : d.Fuels n k) (it : Iteration) :
    Lockstep d .all Eq (r.forLoop line target body n it)
      (r'.forLoop line (target.markedTarget t) (markIf t trackBlock body) k it) := by
  induction fuel generalizing it with
  | spent => exact .op .outOfFuel
  | starved h k => exact .starved h _
  | more _ ih =>
    refine .onHeap fun h h' H => ?_
    rw [H.next?]
    split
    · exact .ret _
    · refine .seq (assign R ht _ _ _ fun _ _ => trivial) fun _ =>
        .seq (R.block run t ht body code) fun flow => ?_
      split
      · exact .ret _
      · exact .ret _
      · exact .seq (.boundary line run) fun _ => ih _
      · exact .seq (.boundary line run) fun _ => ih _

theorem execStmt (s : Stmt) (code : s.hasGlobal ≤ d.globals) :
    Lockstep d .all Eq (r.execStmt s) (r'.execStmt (s.marked t)) := by
  cases s with
  | expr l e =>
    rw [Stmt.marked_expr]
    exact .seq (R.eval t ht e trivial) fun _ => .ret _
  | assign l targets value =>
    rw [Stmt.marked_assign]
    exact .seq (R.eval t ht value trivial) fun _ => .seq (R.assignEach ht ..) fun _ => .ret _
  | augAssign l op target value =>
    rw [Stmt.marked_augAssign]
    exact .seq (R.augAssign ht ..) fun _ => .ret _
  | ifElse l condition body orelse =>
    rw [Stmt.marked_ifElse]
    obtain ⟨yes, no⟩ := le_of_or_le code
    exact .seq (R.eval t ht condition trivial) fun _ => .seq (R.truth _) fun
      | true => R.block run t ht body yes
      | false => R.block run t ht orelse no
  | «while» l condition body =>
    rw [Stmt.marked_while]
    exact R.whileLoop ht run _ _ _ code R.fuel
  | «for» l target iter body =>
    rw [Stmt.marked_for]
    exact .seq (R.eval t ht iter trivial) fun _ => .seq (R.iteration _) fun it =>
      R.forLoop ht run _ _ _ code R.fuel it
  | «break» | «continue» | pass => cases t <;> exact .ret _
  | «return» l e =>
    rw [Stmt.marked_return]
    cases e with
    | none =>
      rw [marked_option_none]
      exact .ret _
    | some e =>
      rw [marked_option_some]
      exact .seq (R.eval t ht e trivial) fun _ => .ret _
  | function l name params body =>
    rw [Stmt.marked_function]
    exact .seq (R.makeFunction ht name params (.block body) code l.line trivial) fun _ =>
      .seq (.op (.store _ _ trivial)) fun _ => .ret _
  | «class» l name base body =>
    rw [Stmt.marked_class]
    exact .seq (R.defineClass ht run _ _ _ _ code) fun _ => .ret _
  | «global» l names =>
    have declared : Lockstep d .all Eq (Run.declareGlobal names) (Run.declareGlobal names) :=
      .op (.declareGlobal (code rfl) names rfl)
    cases t <;> exact .seq declared fun _ => .ret _
  | raise l e =>
    rw [Stmt.marked_raise]
    cases e with
    | none =>
      rw [marked_option_none]
      exact .fault _
    | some e =>
      rw [marked_option_some]
      exact .seq (R.eval t ht e trivial) fun _ => .seq (R.raised _) fun _ => .fault _
  | assert l condition message =>
    rw [Stmt.marked_assert]
    refine .seq (R.eval t ht condition trivial) fun _ => .seq (R.truth _) fun
      | true => .ret _
      | false => ?_
    cases message with
    | none =>
      rw [marked_option_none]
      exact .seq (.ret _) fun _ => .fault _
    | some e =>
      rw [marked_option_some]
      exact .seq (R.eval t ht e trivial) fun _ => .seq (R.display _) fun _ => .fault _
  | delete l targets =>
    rw [Stmt.marked_delete]
    exact .seq (removeAll R ht ..) fun _ => .ret _
  | importModule l m =>
    cases t <;>
      exact .seq (.importModule _) fun _ => .seq (.op (.store _ _ trivial)) fun _ => .ret _
  | importFrom l module names =>
    cases t <;> exact .seq (.importModule _) fun _ => .seq (.importNames ..) fun _ => .ret _

theorem execBlock (body : List Stmt) (code : anyGlobal body ≤ d.globals) :
    Lockstep d .all Eq (r.execBlock body) (r'.execBlock (markIf t trackBlock body)) := by
  induction body with
  | nil =>
    rw [marked_block_nil]
    exact .ret _
  | cons s rest ih =>
    rw [marked_block_cons]
    obtain ⟨first, others⟩ := le_of_or_le code
    refine .seq ?_ fun _ => .seq (R.execStmt ht run s first) fun flow => ?_
    -- A statement keeps its line when it is marked, and the boundary is at the line.
    · rw [Stmt.location_marked]
      exact .boundary _ run
    · split
      · exact ih others
      · exact .ret _

end

end Interp.InStep

-- The induction is on the amounts of fuel: all parts of the two interpreters at once.
theorem interpBy_inStep {d : Leeway} {bodies bodies' : Bodies}
    (B : ∀ {n k : Nat}, (interpBy bodies n).InStep d (interpBy bodies' k) →
      BodiesInStep d (bodies (interpBy bodies n)) (bodies' (interpBy bodies' k)))
    {n k : Nat} (fuel : d.Fuels n k) : (interpBy bodies n).InStep d (interpBy bodies' k) := by
  induction fuel with
  | spent =>
    exact ⟨fun _ _ _ _ => .op .outOfFuel, fun _ _ _ _ _ => .op .outOfFuel,
      fun _ _ _ => .op .outOfFuel, fun _ => .op .outOfFuel, .spent⟩
  | starved h k =>
    exact ⟨fun _ _ _ _ => .starved h _, fun _ _ _ _ _ => .starved h _, fun _ _ _ => .starved h _,
      fun _ => .starved h _, .starved h _⟩
  | @more n k fuel ih =>
    refine ⟨fun t ht e covers => ?_, fun run t ht body code => ih.execBlock ht run body code,
      ih.callValueBy (B ih), ih.iteration, fuel⟩
    change Lockstep d _ Eq (atLevel n _) (atLevel k _)
    rw [atLevel_eq, atLevel_eq]
    exact .deeper (ih.evalExprBy ht (B ih) e covers)

theorem interp_inStep {d : Leeway} (run : d.statements = true) {n k : Nat} (fuel : d.Fuels n k) :
    (interp n).InStep d (interp k) := by
  rw [← interpBy_runBody, ← interpBy_runBody]
  refine interpBy_inStep (fun {n k} R => ?_) fuel
  rw [interpBy_runBody, interpBy_runBody] at R ⊢
  exact bodiesInStep_runBody run R

theorem runProgram_lockstep {d : Leeway} (run : d.statements = true) {n k : Nat}
    (fuel : d.Fuels n k) {t : Bool} (ht : t ≤ d.marks) (p : Program)
    (code : anyGlobal p ≤ d.globals) :
    Lockstep d .all Eq (runProgram n p) (runProgram k (markIf t trackBlock p)) := by
  refine .seq ((interp_inStep run fuel).execBlock ht run p code) fun flow => ?_
  split
  · exact .ret _
  · exact .op (.faultAtLine _)
  · exact .op (.faultAtLine _)
  · exact .op (.faultAtLine _)

end StepTrace
