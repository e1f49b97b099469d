import StepTrace.Proofs.Runs

/-!
The interpreter with the bodies of functions left open: a call binds its arguments and enters a
frame, and what runs there is given. With the bodies themselves it is the interpreter.
-/

set_option autoImplicit false

namespace StepTrace

namespace Interp

-- What a call runs in the frame of the function.
def runBody (r : Interp) (f : FunctionObject) : Run Value :=
  match f.body with
  | .block body => do
    match ← r.block body with
    | .returned v => return v
    | .normal => return .none
    | .broken | .continued => Run.fault (.strayBreak f.line)
  | .lambda body => do
    Run.boundary body.location.line
    r.eval body

end Interp

-- What runs where the body of a function would.
abbrev Bodies := Interp → FunctionObject → Run Value

namespace Interp

variable (bodies : Bodies) (r : Interp)

def callFunctionBy (f : FunctionObject) (args : List Value) (keywords : Keywords) :
    Run Value := do
  Run.checkDepth
  let vars ← Run.check (f.bind args keywords)
  let scope ← Run.newScope vars f.closure
  let methodOf := match f.owner, args with
    | some cls, receiver :: _ => some (cls, receiver)
    | _, _ => none
  Run.inFrame { kind := .function, scope, methodOf } (bodies r f)

def callValueBy (callee : Value) (args : List Value) (keywords : Keywords) : Run Value := do
  let h ← Run.heap
  match callee, h.deref? callee with
  | .builtin b, _ => r.callBuiltin b args keywords
  | .ref _, some (.function f) => r.callFunctionBy bodies f args keywords
  | .ref id, some (.class _) => r.instantiate id args keywords
  | .ref _, some (.boundMethod receiver function) =>
    r.call (.ref function) (receiver :: args) keywords
  | .ref _, some (.builtinMethod receiver name) =>
    if name = "__init__" then r.baseInit receiver args
    else r.builtinMethod receiver name args keywords
  | .ref _, some (.instance i) =>
    match h.classAttr? i.cls "__call__" with
    | some method => r.call method (callee :: args) keywords
    | none => Run.fault (.notCallable (h.typeName callee))
  | _, _ => Run.fault (.notCallable (h.typeName callee))

def evalExprBy (e : Expr) : Run Value := do
  match e with
  | .call _ (.attr ..) _ _ => r.evalExpr e
  | .call _ callee args keywords => do
    let callee ← r.eval callee
    let args ← r.evalArguments args
    let keywords ← r.evalKeywords keywords
    r.callValueBy bodies callee args keywords
  | e => r.evalExpr e

end Interp

def interpBy (bodies : Bodies) : Nat → Interp
  | 0 => interp 0
  | n + 1 =>
    { eval := fun e => atLevel n (Run.deeper ((interpBy bodies n).evalExprBy bodies e))
      block := fun body => (interpBy bodies n).execBlock body
      call := fun callee args keywords =>
        (interpBy bodies n).callValueBy bodies callee args keywords
      iterate := fun v => (interpBy bodies n).iteration v
      fuel := n }

theorem interpBy_eval (bodies : Bodies) (n : Nat) (e : Expr) :
    (interpBy bodies (n + 1)).eval e = Run.deeper ((interpBy bodies n).evalExprBy bodies e) :=
  atLevel_eq ..

namespace Interp

theorem callFunctionBy_runBody (r : Interp) : r.callFunctionBy runBody = r.callFunction := by
  funext f args keywords
  unfold callFunctionBy callFunction runBody
  cases f.body <;> rfl

section

variable {f : FunctionObject} {args : List Value} {keywords : Keywords} {m : Machine}

-- A call whose arguments bind runs the body in a frame of its own, with a new scope.
theorem callFunction_of_bound {vars : Namespace} (r : Interp)
    (bound : f.bind args keywords = .ok vars) (room : m.depth < m.config.maxCallDepth) :
    ∃ frame : Frame, frame.kind = .function ∧ frame.scope = m.scopes.size ∧
      r.callFunction f args keywords m = Run.inFrame frame (r.runBody f)
        { m with scopes := m.scopes.push ⟨vars, f.closure⟩ } := by
  have deep : Run.checkDepth m = .ok () m := if_pos room
  have checked : Run.check (f.bind args keywords) m = .ok vars m := by
    rw [bound]
    rfl
  have made : Run.newScope vars f.closure m = .ok m.scopes.size _ := rfl
  rw [← callFunctionBy_runBody]
  unfold callFunctionBy
  rw [Run.bind_ok deep, Run.bind_ok checked, Run.bind_ok made]
  exact ⟨_, rfl, rfl, rfl⟩

-- A call whose arguments do not bind changes nothing.
theorem callFunction_of_unbound {e : Fault} (r : Interp)
    (unbound : f.bind args keywords = .error e) : r.callFunction f args keywords m =
      .error (.fault (if m.depth < m.config.maxCallDepth then e else .recursion)) m := by
  rw [← callFunctionBy_runBody]
  unfold callFunctionBy
  by_cases room : m.depth < m.config.maxCallDepth
  · have deep : Run.checkDepth m = .ok () m := if_pos room
    have checked : Run.check (f.bind args keywords) m = .error (.fault e) m := by
      rw [unbound]
      rfl
    rw [Run.bind_ok deep, Run.bind_error checked, if_pos room]
  · have full : Run.checkDepth m = .error (.fault .recursion) m := if_neg room
    rw [Run.bind_error full, if_neg room]

end

theorem callValueBy_runBody (r : Interp) : r.callValueBy runBody = r.callValue := by
  funext callee args keywords
  unfold callValueBy
  rw [callFunctionBy_runBody]
  rfl

theorem evalExprBy_runBody (r : Interp) : r.evalExprBy runBody = r.evalExpr := by
  funext e
  unfold evalExprBy
  rw [callValueBy_runBody]
  split
  · rfl
  · next callee _ _ plain =>
    cases callee with
    | attr => exact (plain _ _ _ rfl).elim
    | _ => rfl
  · rfl

end Interp

theorem interpBy_runBody (n : Nat) : interpBy Interp.runBody n = interp n := by
  induction n with
  | zero => rfl
  | succ n ih =>
    rw [interpBy, interp, ih, Interp.evalExprBy_runBody, Interp.callValueBy_runBody]

end StepTrace
