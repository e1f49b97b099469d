import StepTrace.Proofs.Lockstep.Simulation

/-!
Expressions record no steps. Where one does, a function that it calls has a body that does.
-/

set_option autoImplicit false

namespace StepTrace

-- What no boundary leaves as it is: the steps, the line of the last one, and that the run goes on.
-- Accesses that wait for the next step go on waiting.
structure Machine.Unstepped (m m' : Machine) : Prop where
  steps : m'.steps = m.steps
  lastLine : m'.lastLine = m.lastLine
  halted : m'.halted = m.halted
  accesses : m.accesses.toList <+: m'.accesses.toList

theorem growth_unstepped :
    Growth ⟨false, false, true, false⟩ Machine.Unstepped fun e => e ≠ .halted where
  aside := by
    rintro m _ ⟨_, _, _, _, rfl⟩
    exact ⟨rfl, rfl, rfl, List.prefix_rfl⟩
  trans h h' :=
    ⟨h'.steps.trans h.steps, h'.lastLine.trans h.lastLine, h'.halted.trans h.halted,
      h.accesses.trans h'.accesses⟩
  step h m := by
    have quiet := h.quiet m
    refine ⟨⟨quiet.steps, quiet.lastLine, quiet.halted, quiet.accesses⟩, ?_⟩
    rintro _ m' stopped rfl
    exact quiet.goesOn m' stopped
  boundary run := by cases run
  recursion := by rintro ⟨⟩

-- The evaluation enters the body of no function in `q`: whatever ran there, it would be the same.
def AvoidsBodies (q : FunctionObject → Prop) (n : Nat) (e : Expr) (m : Machine) : Prop :=
  ∀ bodies : Bodies, (∀ r f, ¬ q f → bodies r f = r.runBody f) →
    (interpBy bodies n).eval e m = (interp n).eval e m

/--
To evaluate an expression fires no boundary if it enters the body of no function.
-/
theorem expressions_fire_no_boundary (n : Nat) (e : Expr) (m : Machine)
    (avoids : AvoidsBodies (fun _ => True) n e m) :
    m.Unstepped (Run.state ((interp n).eval e m)) ∧
      ∀ m', (interp n).eval e m ≠ .error .halted m' := by
  have R : (interpBy (fun _ _ => Run.outOfFuel) n).InStep ⟨false, false, true, false⟩
      (interpBy (fun _ _ => Run.outOfFuel) n) :=
    interpBy_inStep (fun _ p _ _ _ _ => ⟨p.inLoop, .within, .op .outOfFuel⟩) (.refl n)
  have grown := (R.eval (p := .all) false (Bool.le_refl false) e trivial).grows growth_unstepped rfl
    rfl m
  change Grown _ _ _ _ ((interpBy (fun _ _ => Run.outOfFuel) n).eval e m) at grown
  rw [avoids _ fun _ _ no => absurd trivial no] at grown
  exact ⟨grown.state, fun m' halted => grown.stop _ m' halted rfl⟩

-- `(lambda: 0, 1)`
def Expr.pairWithLambda : Expr :=
  .tuple ⟨1, 1⟩ [.lambda ⟨1, 2⟩ [] (.int ⟨1, 10⟩ 0), .int ⟨1, 13⟩ 1]

theorem expressions_fire_no_boundary_uncalled :
    AvoidsBodies (fun _ => True) 2 .pairWithLambda (.start {} []) ∧
      Machine.Unstepped (.start {} [])
        (Run.state ((interp 2).eval .pairWithLambda (.start {} []))) := by
  have avoids : AvoidsBodies (fun _ => True) 2 .pairWithLambda (.start {} []) := by
    intro bodies _
    rw [← interpBy_runBody]
    simp only [interpBy_eval, Expr.pairWithLambda, Interp.evalExprBy, Interp.evalExpr,
      Interp.evalAll, Interp.makeFunction, Interp.evalDefaults]
  exact ⟨avoids, (expressions_fire_no_boundary 2 .pairWithLambda (.start {} []) avoids).1⟩

/-! ### The body of a lambda -/

-- Functions that a `def` statement makes have a block for their body.
def FunctionObject.HasBlock (f : FunctionObject) : Prop := ∃ body, f.body = .block body

-- `lambda: 0`
def FunctionObject.zero : FunctionObject where
  name := "<lambda>"
  params := []
  defaults := []
  body := .lambda (.int ⟨1, 10⟩ 0)
  closure := none
  owner := none
  line := 1

-- `(lambda: 0)()`
def Expr.callOfLambda : Expr := .call ⟨1, 1⟩ (.lambda ⟨1, 2⟩ [] (.int ⟨1, 10⟩ 0)) [] []

-- The state after the lambda is made.
def Machine.withLambda (m : Machine) : Machine :=
  { m with
    heap := m.heap.push (.function { FunctionObject.zero with closure := m.enclosingScope }) }

theorem Run.deeper_congr {α : Type} {x y : Run α} {m : Machine} (h : x m.deepen = y m.deepen) :
    deeper x m = deeper y m := by
  change (if _ then putBack _ _ _ (x m.deepen) else _) = if _ then putBack _ _ _ (y m.deepen) else _
  rw [h]

theorem eval_lambda (bodies : Bodies) (n : Nat) {m : Machine}
    (room : m.evaluating < evaluationLimit) (free : m.heap.size < m.heap.limit) :
    (interpBy bodies (n + 1)).eval (.lambda ⟨1, 2⟩ [] (.int ⟨1, 10⟩ 0)) m =
      .ok (.ref m.heap.size) m.withLambda := by
  have made : (interpBy bodies n).evalExprBy bodies (.lambda ⟨1, 2⟩ [] (.int ⟨1, 10⟩ 0)) m.deepen =
      .ok (.ref m.heap.size) m.withLambda.deepen := if_pos free
  rw [interpBy_eval, Run.deeper_eq, if_pos room]
  change Run.putBack _ _ _ ((interpBy bodies n).evalExprBy bodies _ m.deepen) = _
  rw [made]
  rfl

theorem eval_callOfLambda (bodies : Bodies) (n : Nat) :
    (interpBy bodies (n + 2)).eval .callOfLambda (.start {} []) =
      Run.deeper (fun m => Run.inFrame { kind := .function, scope := 1 }
        (bodies (interpBy bodies (n + 1)) .zero)
        { m.withLambda with scopes := m.scopes.push ⟨.empty, none⟩ }) (.start {} []) := by
  rw [interpBy_eval]
  have made := eval_lambda bodies n (m := (Machine.start {} []).deepen) (by decide) (by decide)
  have bound : FunctionObject.zero.bind [] [] = .ok .empty := rfl
  have called : (interpBy bodies (n + 1)).callFunctionBy bodies .zero [] []
      (Machine.start {} []).deepen.withLambda = Run.inFrame { kind := .function, scope := 1 }
        (bodies (interpBy bodies (n + 1)) .zero)
        { (Machine.start {} []).deepen.withLambda with
          scopes := (Machine.start {} []).deepen.scopes.push ⟨.empty, none⟩ } := by
    have deep : Run.checkDepth (Machine.start {} []).deepen.withLambda = .ok () _ :=
      if_pos (by decide)
    unfold Interp.callFunctionBy
    rw [bound, Run.bind_ok deep]
    rfl
  exact Run.deeper_congr ((Run.bind_ok made).trans called)

-- No body of a `def` is entered, and yet there is a step.
theorem call_of_lambda_fires_boundary :
    AvoidsBodies FunctionObject.HasBlock 3 .callOfLambda (.start {} []) ∧
      (Run.state ((interp 3).eval .callOfLambda (.start {} []))).steps.size = 1 := by
  constructor
  · intro bodies agree
    have lambda : ¬ FunctionObject.zero.HasBlock := by
      rintro ⟨_, ⟨⟩⟩
    rw [← interpBy_runBody, eval_callOfLambda, eval_callOfLambda, agree _ _ lambda]
    simp only [Interp.runBody, FunctionObject.zero, interpBy_eval, Interp.evalExprBy,
      Interp.evalExpr]
  · decide +kernel

end StepTrace
