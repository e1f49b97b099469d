import StepTrace.Eval.Expression

/-!
What statements do, and the modules that they can import.
-/

set_option autoImplicit false

namespace StepTrace

/-! ### Modules -/

def functionsByName (fs : List Builtin) : List (String × Value) :=
  fs.map fun b => (b.name, .builtin b)

/-- The names that programs import for annotations, which are never evaluated. -/
def annotationNames : List String :=
  ["List", "Dict", "Set", "Tuple", "Optional", "Any", "Union", "Deque", "DefaultDict", "Callable",
    "Iterable"]

/-- The numbers of the module for mathematics. -/
def mathConstants : List (String × Value) :=
  [("pi", .float 3.141592653589793), ("e", .float 2.718281828459045), ("inf", .float (1.0 / 0.0)),
    ("nan", .float (0.0 / 0.0))]

def moduleContents? : String → Option (List (String × Value))
  | "math" =>
    some (functionsByName
      [.sqrt, .floor, .ceil, .gcd, .log, .log2, .log10, .fabs, .isqrt, .factorial, .mathPow] ++
      mathConstants)
  | "collections" => some (functionsByName [.deque, .defaultdict])
  | "heapq" => some (functionsByName [.heappush, .heappop, .heapify])
  | "typing" => some (annotationNames.map (·, .none))
  | _ => none

def module? (name : String) : Option ModuleObject :=
  (moduleContents? name).map fun attrs => ⟨name, .ofList attrs⟩

/-! ### Statements -/

open Run

namespace Interp

/--
A binary operator whose result replaces the left operand: lists grow and sets change in place.
-/
def inPlace (r : Interp) (op : BinaryOp) (a b : Value) : Run Value := do
  match a, ← deref? a, op with
  | .ref id, some (.list _), .add =>
    let items ← r.collect b
    changeItems id (· ++ items)
    return a
  | .ref id, some (.set s), op =>
    match ← deref? b with
    | some (.set t) =>
      match setOperator op s t with
      | some u => do
        let _ ← alloc (.set u)
        change id (Object.mapSet fun _ => u)
        return a
      | none => r.binary op a b
    | _ => r.binary op a b
  | _, _, _ => r.binary op a b

def isSlice : Expr → Bool
  | .slice .. => true
  | _ => false

/-- `target op= value` -/
def augAssign (r : Interp) (line : Nat) (op : BinaryOp) (target value : Expr) : Run Unit := do
  match target with
  | .name _ name =>
    let current ← lookup name
    let v ← r.inPlace op current (← r.eval value)
    store name v
  | .attr _ object name =>
    let object ← r.eval object
    let current ← getAttr object name
    let v ← r.inPlace op current (← r.eval value)
    setAttr object name v
  | .subscript _ object index =>
    if isSlice index then fault (.unsupported "augmented assignment to a slice")
    let object ← r.eval object
    let index ← r.eval index
    let current ← r.getItem object index
    let v ← r.inPlace op current (← r.eval value)
    r.setItem object index v
  | _ => fault (.augmentedTarget line)

mutual

def remove (r : Interp) (line : Nat) : (target : Expr) → Run Unit
  | .name _ name => delete name
  | .tuple _ targets | .list _ targets => r.removeAll line targets
  | .attr _ object name => do deleteAttr (← r.eval object) name
  | .subscript _ object index => do
    let object ← r.eval object
    r.withIndex index (deleteSlice object) (r.deleteItem object)
  | _ => fault (.deleteTarget line)

def removeAll (r : Interp) (line : Nat) : (targets : List Expr) → Run Unit
  | [] => return
  | target :: rest => do
    r.remove line target
    r.removeAll line rest

end

/-- What a class derives from: a class of the program, or a built-in exception class. -/
def baseOf (r : Interp) (base : Option Expr) : Run (Option ObjId × Option String) := do
  match base with
  | none => return (none, none)
  | some e =>
    let v ← r.eval e
    match v, ← deref? v with
    | .builtin .object, _ => return (none, none)
    | .builtin (.exception kind), _ => return (none, some kind)
    | .ref id, some (.class _) => return (some id, none)
    | v, _ =>
      let refused := faultOn fun h =>
        .type ("cannot inherit from " ++ Fault.mark (h.typeName v) ++ " object")
      match v with
      | .builtin b =>
        if b.isType then
          fault (.unsupported ("subclassing built-in type " ++ Fault.mark b.name))
        else refused
      | _ => refused

/-- Makes a class the owner of functions that have none yet. -/
def claim (cls : ObjId) : List Value → Run Unit
  | [] => return
  | .ref id :: rest => do
    change id fun
      | .function f => .function { f with owner := f.owner.orElse fun _ => some cls }
      | o => o
    claim cls rest
  | _ :: rest => claim cls rest

def defineClass (r : Interp) (line : Nat) (name : String) (base : Option Expr)
    (body : List Stmt) : Run Unit := do
  let (base, exceptionBase) ← r.baseOf base
  let scope ← newScope .empty (← enclosingScope)
  match ← inFrame { kind := .classBody, scope } (r.block body) with
  | .normal =>
    let attrs ← varsOf scope
    let v ← alloc (.class { name, base, exceptionBase, attrs })
    if let .ref id := v then claim id attrs.values
    store name v
  | .returned _ => fault (.strayReturn line)
  | .broken | .continued => fault (.strayBreak line)

def raised (r : Interp) (v : Value) : Run Fault := do
  let h ← heap
  match v, h.deref? v with
  | .builtin (.exception kind), _ => return .raised kind ""
  | _, some (.exception kind message) => return .raised kind message
  | .ref id, some (.class c) =>
    if (h.exceptionBase? id).isSome then return .raised c.name "" else fault .notAnException
  | _, some (.instance i) =>
    if (h.exceptionBase? i.cls).isSome then
      let kind := h.className i.cls
      return .raised kind (← r.display v)
    else fault .notAnException
  | _, _ => fault .notAnException

/-- The module of a name, made when it is imported first. -/
def importModule (name : String) : Run Value := do
  match ← imported? name with
  | some v => return v
  | none =>
    match module? name with
    | none => fault (.noModule name)
    | some m => do
      let v ← alloc (.module m)
      remember name v
      return v

def importNames (module : String) (v : Value) : List ImportedName → Run Unit
  | [] => return
  | n :: rest => do
    let found := match ← deref? v with
      | some (.module m) => m.attrs.get? n.name
      | _ => none
    match found with
    | some attr => store n.bound attr
    | none => fault (.noImport n.name module)
    importNames module v rest

def whileLoop (r : Interp) (line : Nat) (condition : Expr) (body : List Stmt) :
    (fuel : Nat) → Run Flow
  | 0 => outOfFuel
  | fuel + 1 => do
    if ← r.truth (← r.eval condition) then
      match ← r.block body with
      | .broken => return .normal
      | .returned v => return .returned v
      | .normal | .continued =>
        boundary line
        r.whileLoop line condition body fuel
    else return .normal

/-- Runs a body for each item of an iteration. -/
def forLoop (r : Interp) (line : Nat) (target : Expr) (body : List Stmt) :
    (fuel : Nat) → Iteration → Run Flow
  | 0, _ => outOfFuel
  | fuel + 1, it => do
    match it.next? (← heap) with
    | none => return .normal
    | some (v, it) =>
      r.assign line target v
      match ← r.block body with
      | .broken => return .normal
      | .returned v => return .returned v
      | .normal | .continued =>
        boundary line
        r.forLoop line target body fuel it

/-- Binds a value to several targets in turn. -/
def assignEach (r : Interp) (line : Nat) (v : Value) : (targets : List Expr) → Run Unit
  | [] => return
  | target :: rest => do
    r.assign line target v
    r.assignEach line v rest

/-- What a statement does after its boundary. -/
def execStmt (r : Interp) (s : Stmt) : Run Flow := do
  match s with
  | .expr _ e =>
    let _ ← r.eval e
    return .normal
  | .assign l targets value =>
    r.assignEach l.line (← r.eval value) targets
    return .normal
  | .augAssign l op target value =>
    r.augAssign l.line op target value
    return .normal
  | .ifElse _ condition body orelse =>
    if ← r.truth (← r.eval condition) then r.block body else r.block orelse
  | .while l condition body => r.whileLoop l.line condition body r.fuel
  | .for l target iter body =>
    let it ← r.iteration (← r.eval iter)
    r.forLoop l.line target body r.fuel it
  | .break _ => return .broken
  | .continue _ => return .continued
  | .pass _ => return .normal
  | .return _ none => return .returned .none
  | .return _ (some e) => return .returned (← r.eval e)
  | .function l name params body =>
    store name (← r.makeFunction name params (.block body) l.line)
    return .normal
  | .class l name base body =>
    r.defineClass l.line name base body
    return .normal
  | .global _ names =>
    declareGlobal names
    return .normal
  | .raise _ none => fault (.raised "RuntimeError" "No active exception to reraise")
  | .raise _ (some e) => do
    let f ← r.raised (← r.eval e)
    fault f
  | .assert _ condition message =>
    if ← r.truth (← r.eval condition) then return .normal
    let message ← match message with
      | some e => do r.display (← r.eval e)
      | none => pure ""
    fault (.raised "AssertionError" message)
  | .delete l targets =>
    r.removeAll l.line targets
    return .normal
  | .importModule _ m =>
    store m.bound (← importModule m.name)
    return .normal
  | .importFrom _ module names =>
    importNames module (← importModule module) names
    return .normal

/-- Runs statements until one of them does not end normally. -/
def execBlock (r : Interp) : List Stmt → Run Flow
  | [] => return .normal
  | s :: rest => do
    boundary s.location.line
    match ← r.execStmt s with
    | .normal => r.execBlock rest
    | flow => return flow

end Interp

/-- The same computation, on a stack of its own. -/
def onFreshStack {α : Type} (f : Unit → α) : α := (Task.spawn f .dedicated).get

theorem onFreshStack_eq {α : Type} (f : Unit → α) : onFreshStack f = f () := rfl

/-- How many levels of evaluation share a stack. -/
def levelsPerStack : Nat := 512

/-- A computation at a level of evaluation; every so many levels there is a fresh stack. -/
def atLevel {α : Type} (level : Nat) (x : Run α) : Run α := fun m =>
  if level % levelsPerStack = 0 then onFreshStack fun _ => x m else x m

/--
The interpreter with a given amount of fuel: how deep its parts may start each other, and how often
a loop may go around.
-/
def interp : Nat → Interp
  | 0 =>
    { eval := fun _ => Run.outOfFuel
      block := fun _ => Run.outOfFuel
      call := fun _ _ _ => Run.outOfFuel
      iterate := fun _ => Run.outOfFuel
      fuel := 0 }
  | n + 1 =>
    { eval := fun e => atLevel n (Run.deeper ((interp n).evalExpr e))
      block := fun body => (interp n).execBlock body
      call := fun callee args keywords => (interp n).callValue callee args keywords
      iterate := fun v => (interp n).iteration v
      fuel := n }

/-- Runs a program to its end. -/
def runProgram (fuel : Nat) (p : Program) : Run Unit := do
  match ← (interp fuel).execBlock p with
  | .normal => return
  | .returned _ => fun m => .error (.fault (.strayReturn m.lastLine)) m
  | .broken | .continued => fun m => .error (.fault (.strayBreak m.lastLine)) m

end StepTrace
