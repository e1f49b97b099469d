import StepTrace.Config
import StepTrace.Operators
import StepTrace.Snapshot
import StepTrace.Step

/-!
The state of a running program, and the few operations through which a run reads and changes it.
A run keeps the state it has reached when it stops early.
-/

set_option autoImplicit false

namespace StepTrace

/-- Variables, and the scope around them. -/
structure Scope where
  vars : Namespace
  parent : Option ScopeId

instance : Inhabited Scope := ⟨⟨.empty, none⟩⟩

inductive FrameKind
  | module | function | classBody
deriving DecidableEq, Repr

/-- An activation of a module, function or class body. -/
structure Frame where
  kind : FrameKind
  scope : ScopeId
  /-- The names declared global. -/
  globals : List String := []
  /-- For a method, the class that defines it and its receiver. -/
  methodOf : Option (ObjId × Value) := none

instance : Inhabited Frame := ⟨{ kind := .module, scope := 0 }⟩

/-- Why a run ends before the end of the program. -/
inductive Stop
  | fault (f : Fault)
  | needsInput
  /-- The step budget is spent. -/
  | halted
  | outOfFuel

def moduleScope : ScopeId := 0

/-- How many expressions may be under evaluation inside each other. -/
def evaluationLimit : Nat := 10000

/-- The state of a running program. -/
structure Machine where
  config : Config
  heap : Heap
  scopes : Array Scope
  frame : Frame
  /-- The frames that wait for the current one, innermost first. -/
  callers : List Frame
  output : String
  inputs : List String
  /-- The accesses to tracked lists since the last step. -/
  accesses : Array Access
  /-- The modules imported so far. -/
  modules : List (String × Value)
  steps : Array Step
  halted : Bool
  lastLine : Nat
  /-- How many expressions are under evaluation. -/
  evaluating : Nat

namespace Machine

/-- The state before the first statement. -/
def start (config : Config) (inputs : List String) : Machine where
  config := config
  heap := .empty config.maxObjects
  scopes := #[default]
  frame := default
  callers := []
  output := ""
  inputs := inputs
  accesses := #[]
  modules := []
  steps := #[]
  halted := false
  lastLine := 0
  evaluating := 0

/-- How many frames there are. -/
def depth (m : Machine) : Nat := m.callers.length + 1

def vars (m : Machine) (id : ScopeId) : Namespace :=
  match m.scopes[id]? with
  | some s => s.vars
  | none => .empty

/-- The value of a name in a scope or the scopes around it, at most `bound` of them. -/
def lookupFrom (m : Machine) (name : String) : (bound : Nat) → Option ScopeId → Option Value
  | 0, _ => none
  | _, none => none
  | bound + 1, some id =>
    match m.scopes[id]? with
    | none => none
    | some s =>
      match s.vars.get? name with
      | some v => some v
      | none => m.lookupFrom name bound s.parent

/-- What a name means in the current frame. -/
def lookup? (m : Machine) (name : String) : Option Value :=
  let seen :=
    if m.frame.globals.contains name then none
    else m.lookupFrom name m.scopes.size (some m.frame.scope)
  match seen with
  | some v => some v
  | none =>
    match (m.vars moduleScope).get? name with
    | some v => some v
    | none => (Builtin.lookup? name).map .builtin

/-- The scope that a name is bound in by the current frame. -/
def bindingScope (m : Machine) (name : String) : ScopeId :=
  if m.frame.globals.contains name then moduleScope else m.frame.scope

/-- The state with the variables of a scope changed. -/
def modifyVars (m : Machine) (id : ScopeId) (f : Namespace → Namespace) : Machine :=
  { m with scopes := m.scopes.modify id fun s => { s with vars := f s.vars } }

/-- What a function or class defined in the current frame can see. -/
def enclosingScope (m : Machine) : Option ScopeId :=
  match m.frame.kind with
  | .module => none
  | .function => some m.frame.scope
  | .classBody => (m.scopes[m.frame.scope]?).bind Scope.parent

/-- A variable as steps show it. -/
def binding (m : Machine) (v : Value) : Binding where
  typeName := m.heap.typeName v
  value := m.heap.capture m.config.maxDepth v
  id :=
    match v, m.heap.deref? v with
    | .ref id, some (.list _) => some (toString id)
    | _, _ => none

/-- The variables of the current frame that steps show. -/
def shown (m : Machine) : Ordered String Binding :=
  let visible := (m.vars m.frame.scope).filter fun name v =>
    !m.config.filter.hides name && !m.heap.isCode v
  visible.mapValues m.binding

def toStep (m : Machine) (explanation : String) : Step where
  line := m.lastLine
  output := m.output
  bindings := m.shown
  accesses := m.accesses.toList
  explanation := explanation

/-- The state after a step is recorded. -/
def record (m : Machine) (explanation : String) : Machine :=
  let step := m.toStep explanation
  { m with steps := m.steps.push step, accesses := #[] }

theorem steps_record (m : Machine) (explanation : String) :
    (m.record explanation).steps.toList = m.steps.toList ++ [m.toStep explanation] := by
  simp only [record, Array.toList_push]

def hasRoom (m : Machine) : Bool := m.steps.size < m.config.budget.count

/-- The state after the program has ended. -/
def finish (m : Machine) : Machine :=
  if m.hasRoom then m.record Step.finished else m

theorem finish_of_room {m : Machine} (room : m.hasRoom = true) :
    m.finish = m.record Step.finished :=
  if_pos room

theorem finish_of_full {m : Machine} (full : ¬ m.hasRoom = true) : m.finish = m := if_neg full

theorem steps_finish (m : Machine) : m.steps.toList <+: m.finish.steps.toList := by
  by_cases room : m.hasRoom = true
  · rw [finish_of_room room, steps_record]
    exact List.prefix_append _ _
  · exact ⟨[], by rw [finish_of_full room, List.append_nil]⟩

end Machine

/-- Computations that change the state of a program and may end its run. -/
abbrev Run := EStateM Stop Machine

namespace Run

def fault {α : Type} (f : Fault) : Run α := fun m => .error (.fault f) m

def outOfFuel {α : Type} : Run α := fun m => .error .outOfFuel m

/-- A result that may be an error. -/
def check {α : Type} : Except Fault α → Run α
  | .ok a => pure a
  | .error f => fault f

def heap : Run Heap := fun m => .ok m.heap m

def frame : Run Frame := fun m => .ok m.frame m

/-- What a function or class defined here can see. -/
def enclosingScope : Run (Option ScopeId) := fun m => .ok m.enclosingScope m

/-- Puts an object on the heap. -/
def alloc (o : Object) : Run Value := fun m =>
  if m.heap.size < m.heap.limit then
    .ok (.ref m.heap.size) { m with heap := m.heap.push o }
  else .error (.fault (.heapFull m.heap.limit)) m

def change (id : ObjId) (f : Object → Object) : Run Unit := fun m =>
  .ok () { m with heap := m.heap.modify id f }

/-- What a name means here. -/
def lookup (name : String) : Run Value := fun m =>
  match m.lookup? name with
  | some v => .ok v m
  | none => .error (.fault (.undefined name)) m

def store (name : String) (v : Value) : Run Unit := fun m =>
  .ok () (m.modifyVars (m.bindingScope name) fun vars => vars.insert name v)

/-- Removes the binding of a name. -/
def delete (name : String) : Run Unit := fun m =>
  let id := m.bindingScope name
  if (m.vars id).contains name then .ok () (m.modifyVars id fun vars => vars.erase name)
  else .error (.fault (.undefined name)) m

/-- Declares names global, outside the module itself. -/
def declareGlobal (names : List String) : Run Unit := fun m =>
  if m.frame.kind = .module then .ok () m
  else .ok () { m with frame := { m.frame with globals := names ++ m.frame.globals } }

def newScope (vars : Namespace) (parent : Option ScopeId) : Run ScopeId := fun m =>
  .ok m.scopes.size { m with scopes := m.scopes.push ⟨vars, parent⟩ }

def varsOf (id : ScopeId) : Run Namespace := fun m => .ok (m.vars id) m

/-- Fails if no further frame is allowed. -/
def checkDepth : Run Unit := fun m =>
  if m.depth < m.config.maxCallDepth then .ok () m else .error (.fault .recursion) m

/-- Runs a body in a frame of its own, which is gone afterwards. -/
def inFrame {α : Type} (f : Frame) (body : Run α) : Run α := fun m =>
  if m.depth < m.config.maxCallDepth then
    let frame := m.frame
    let callers := m.callers
    match body { m with frame := f, callers := frame :: callers } with
    | .ok a m => .ok a { m with frame, callers }
    | .error e m => .error e { m with frame, callers }
  else .error (.fault .recursion) m

def deeper {α : Type} (body : Run α) : Run α := fun m =>
  let evaluating := m.evaluating
  if evaluating < evaluationLimit then
    match body { m with evaluating := evaluating + 1 } with
    | .ok a m => .ok a { m with evaluating }
    | .error e m => .error e { m with evaluating }
  else .error (.fault .recursion) m

def print (text : String) : Run Unit := fun m => .ok () { m with output := m.output ++ text }

/-- The next line of input; without one the run waits. -/
def nextInput : Run String := fun m =>
  match m.inputs with
  | line :: rest => .ok line { m with inputs := rest }
  | [] => .error .needsInput m

/-- Notes an access to a tracked list of `size` items; negative indices count from the end. -/
def access (kind : AccessKind) (id : ObjId) (size : Nat) (i : Int64) : Run Unit := fun m =>
  let index : Int := if i < 0 then i.toInt + size else i.toInt
  .ok () { m with accesses := m.accesses.push ⟨kind, toString id, index⟩ }

def imported? (name : String) : Run (Option Value) := fun m => .ok (m.modules.lookup name) m

/-- Remembers an imported module. -/
def remember (name : String) (v : Value) : Run Unit := fun m =>
  .ok () { m with modules := (name, v) :: m.modules }

/-- The point before a statement: it is recorded, unless the budget is spent. -/
def boundary (line : Nat) : Run Unit := fun m =>
  if m.halted then .error .halted m
  else
    let m := { m with lastLine := line }
    if m.hasRoom then .ok () (m.record (Step.atLine line))
    else .error .halted { m with halted := true }

def deref? (v : Value) : Run (Option Object) := do return (← heap).deref? v

def typeName (v : Value) : Run String := do return (← heap).typeName v

/-- A value, or a new object. -/
def settle : Outcome → Run Value
  | .value v => pure v
  | .object o => alloc o

def allocList (items : Array Value) : Run Value := alloc (.list ⟨items, none⟩)

/-- Puts a tracked list on the heap, which reports accesses under its own id. -/
def allocTracked (items : Array Value) : Run Value := do
  alloc (.list ⟨items, some (← heap).size⟩)

def allocTuple (items : Array Value) : Run Value := alloc (.tuple items)

def keyOf (v : Value) : Run HashKey := do check ((← heap).key v)

/-- Ends the run with an error that depends on the heap. -/
def faultOn {α : Type} (f : Heap → Fault) : Run α := do fault (f (← heap))

end Run

end StepTrace
