import StepTrace.Eval.Call

/-!
The values of expressions. Comprehensions run in a frame of their own, so their variables stay
there.
-/

set_option autoImplicit false

namespace StepTrace

open Run

namespace Interp

/-- The values of expressions, after those that are there already. -/
def evalAll (r : Interp) (out : Array Value) : List Expr → Run (Array Value)
  | [] => return out
  | e :: rest => do r.evalAll (out.push (← r.eval e)) rest

def evalArguments (r : Interp) : List Expr → Run (List Value)
  | [] => return []
  | e :: rest => do return (← r.eval e) :: (← r.evalArguments rest)

/-- The keyword arguments of a call. -/
def evalKeywords (r : Interp) : List (String × Expr) → Run Keywords
  | [] => return []
  | (name, e) :: rest => do return (name, ← r.eval e) :: (← r.evalKeywords rest)

/-- The defaults of parameters, as far as they have one. -/
def evalDefaults (r : Interp) : List Param → Run (List Value)
  | [] => return []
  | p :: rest => do
    match p.default with
    | some e => return (← r.eval e) :: (← r.evalDefaults rest)
    | none => r.evalDefaults rest

/-- The entries of a dictionary display, added to those that are there already. -/
def evalEntries (r : Interp) (d : DictObject) : List (Expr × Expr) → Run DictObject
  | [] => return d
  | (k, v) :: rest => do
    let k ← r.eval k
    let v ← r.eval v
    r.evalEntries (d.insert (← keyOf k) k v) rest

/-- The pieces of a formatted string, after the text that is there already. -/
def evalPieces (r : Interp) (out : String) : List FPart → Run String
  | [] => return out
  | .text s :: rest => r.evalPieces (out ++ s) rest
  | .field e spec :: rest => do
    let v ← r.eval e
    let shown ← match spec with
      | none | some "" => r.display v
      | some spec => check ((← heap).format v spec)
    r.evalPieces (out ++ shown) rest

/-- Evaluates a subscript, a slice or a single index, and goes on with it. -/
def withIndex {α : Type} (r : Interp) (index : Expr) (slice : SliceBounds → Run α)
    (item : Value → Run α) : Run α := do
  match index with
  | .slice _ lower upper step => slice (← r.sliceBounds lower upper step)
  | index => item (← r.eval index)

mutual

/-- Binds a value to the target of an assignment; a line is given for messages. -/
def assign (r : Interp) (line : Nat) : (target : Expr) → Value → Run Unit
  | .name _ name, v => store name v
  | .tuple _ targets, v | .list _ targets, v => do
    let values ← r.collect v
    if values.size = targets.length then r.assignAll line targets values.toList
    else fault (.unpacking targets.length values.size)
  | .attr _ object name, v => do setAttr (← r.eval object) name v
  | .subscript _ object index, v => do
    let object ← r.eval object
    r.withIndex index (r.setSlice object · v) (r.setItem object · v)
  | _, _ => fault (.assignTarget line)

def assignAll (r : Interp) (line : Nat) : (targets : List Expr) → List Value → Run Unit
  | target :: targets, v :: values => do
    r.assign line target v
    r.assignAll line targets values
  | _, _ => return

end

/-- Goes through an iteration with an accumulator. -/
def forEach {σ : Type} (body : Value → σ → Run σ) : (fuel : Nat) → Iteration → σ → Run σ
  | 0, _, _ => outOfFuel
  | fuel + 1, it, acc => do
    match it.next? (← heap) with
    | none => return acc
    | some (v, it) => forEach body fuel it (← body v acc)

def allHold (r : Interp) : List Expr → Run Bool
  | [] => return true
  | e :: rest => do
    if ← r.truth (← r.eval e) then r.allHold rest else return false

/-- Goes through the clauses of a comprehension with an accumulator. -/
def forClauses {σ : Type} (r : Interp) (emit : σ → Run σ) : List Clause → σ → Run σ
  | [], acc => emit acc
  | .mk target iter conditions :: rest, acc => do
    let it ← r.iteration (← r.eval iter)
    forEach (fun v acc => do
      r.assign iter.location.line target v
      if ← r.allHold conditions then r.forClauses emit rest acc else return acc) r.fuel it acc

/-- Runs a body in a frame of its own that sees what the current one sees. -/
def inComprehension {α : Type} (body : Run α) : Run α := do
  let f ← frame
  let around ← match f.kind with
    | .classBody => enclosingScope
    | _ => pure (some f.scope)
  checkDepth
  let scope ← newScope .empty around
  inFrame { f with kind := .function, scope } body

def compareChain (r : Interp) (left : Value) : List (CompareOp × Expr) → Run Value
  | [] => return .bool true
  | (op, e) :: rest => do
    let right ← r.eval e
    if ← r.compare op left right then r.compareChain right rest else return .bool false

def makeFunction (r : Interp) (name : String) (params : List Param) (body : FunctionBody)
    (line : Nat) : Run Value := do
  let defaults ← r.evalDefaults params
  let closure ← enclosingScope
  alloc (.function
    { name, params := params.map Param.name, defaults, body, closure, owner := none, line })

def evalExpr (r : Interp) (e : Expr) : Run Value := do
  match e with
  | .none _ => return .none
  | .bool _ b => return .bool b
  | .int _ n => return .int n
  | .float _ f => return .float f
  | .str _ s => return .str s
  | .fstring _ parts => return .str (← r.evalPieces "" parts)
  | .name _ name => lookup name
  | .list _ items => allocList (← r.evalAll #[] items)
  | .tracked _ (.list _ items) => do
    let items ← r.evalAll #[] items
    allocTracked items
  | .tracked _ inner => r.eval inner
  | .tuple _ items => allocTuple (← r.evalAll #[] items)
  | .dict _ entries => alloc (.dict (← r.evalEntries .empty entries))
  | .set _ items => do
    let items ← r.evalAll #[] items
    alloc (.set (← setOf items.toList .empty))
  | .listComp _ element clauses => do
    allocList (← inComprehension
      (r.forClauses (fun out => return out.push (← r.eval element)) clauses #[]))
  | .dictComp _ key value clauses => do
    let emit := fun (d : DictObject) => do
      let k ← r.eval key
      let v ← r.eval value
      return d.insert (← keyOf k) k v
    alloc (.dict (← inComprehension (r.forClauses emit clauses .empty)))
  | .binary _ op left right => do
    let a ← r.eval left
    let b ← r.eval right
    r.binary op a b
  | .unary _ op operand => do r.unary op (← r.eval operand)
  | .boolOp _ op left right => do
    let v ← r.eval left
    let t ← r.truth v
    match op, t with
    | .and, false | .or, true => return v
    | _, _ => r.eval right
  | .compare _ left rest => do r.compareChain (← r.eval left) rest
  | .ifElse _ condition yes no => do
    if ← r.truth (← r.eval condition) then r.eval yes else r.eval no
  | .lambda l params body => r.makeFunction "<lambda>" params (.lambda body) l.line
  | .call _ (.attr _ object name) args keywords => do
    let receiver ← r.eval object
    let args ← r.evalArguments args
    let keywords ← r.evalKeywords keywords
    r.callMethod receiver name args keywords
  | .call _ callee args keywords => do
    let callee ← r.eval callee
    let args ← r.evalArguments args
    let keywords ← r.evalKeywords keywords
    r.callValue callee args keywords
  | .attr _ object name => do getAttr (← r.eval object) name
  | .subscript _ object index => do
    let object ← r.eval object
    r.withIndex index (getSlice object) (r.getItem object)
  | .slice l .. => fault (.straySlice l.line)

end Interp

end StepTrace
