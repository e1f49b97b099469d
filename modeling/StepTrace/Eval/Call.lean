import StepTrace.Eval.Builtin

/-!
Calls of anything that can be called.
-/

set_option autoImplicit false

namespace StepTrace

open Run

namespace Interp

def callFunction (r : Interp) (f : FunctionObject) (args : List Value) (keywords : Keywords) :
    Run Value := do
  checkDepth
  let vars ← check (f.bind args keywords)
  let scope ← newScope vars f.closure
  let methodOf := match f.owner, args with
    | some cls, receiver :: _ => some (cls, receiver)
    | _, _ => none
  inFrame { kind := .function, scope, methodOf } do
    match f.body with
    | .block body =>
      match ← r.block body with
      | .returned v => return v
      | .normal => return .none
      | .broken | .continued => fault (.strayBreak f.line)
    | .lambda body =>
      boundary body.location.line
      r.eval body

/-- What the base of every class does to a new instance. -/
def baseInit (r : Interp) (receiver : Value) (args : List Value) : Run Value := do
  let h ← heap
  match receiver, h.deref? receiver with
  | .ref id, some (.instance i) =>
    if (h.exceptionBase? i.cls).isSome then
      let message ← r.messageOf args
      change id (Object.mapAttrs (·.insert messageField (.str message)))
      return .none
    else if args.isEmpty then return .none
    else
      fault (.type
        "object.__init__() takes exactly one argument (the instance to initialize)")
  | _, _ => return .none

/-- Makes an instance of a class. -/
def instantiate (r : Interp) (cls : ObjId) (args : List Value) (keywords : Keywords) :
    Run Value := do
  let object ← alloc (.instance ⟨cls, .empty⟩)
  let h ← heap
  match h.classAttr? cls "__init__" with
  | some init => do
    let v ← r.call init (object :: args) keywords
    if v.isNone then return object
    else faultOn fun h =>
      .type ("__init__() should return None, not " ++ Fault.mark (h.typeName v))
  | none =>
    if (h.exceptionBase? cls).isSome then
      let _ ← r.baseInit object args
      return object
    else if args.isEmpty && keywords.isEmpty then return object
    else fault (.type (h.className cls ++ "() takes no arguments"))

/-- Calls an attribute found in a class: functions get the receiver as their first argument. -/
def callAttr (r : Interp) (receiver attr : Value) (args : List Value) (keywords : Keywords) :
    Run Value := do
  if (← heap).isFunction attr then r.call attr (receiver :: args) keywords
  else r.call attr args keywords

/-- `receiver.name(…)` -/
def callMethod (r : Interp) (receiver : Value) (name : String) (args : List Value)
    (keywords : Keywords) : Run Value := do
  let h ← heap
  match h.deref? receiver with
  | some (.instance i) =>
    match i.fields.get? name with
    | some field => r.call field args keywords
    | none =>
      match h.classAttr? i.cls name with
      | some attr => r.callAttr receiver attr args keywords
      | none =>
        if name = "__init__" then r.baseInit receiver args
        else fault (.noAttributeOf (h.className i.cls) name)
  | some (.super cls bound) =>
    match h.inherited? cls name with
    | some attr => r.callAttr bound attr args keywords
    | none =>
      if name = "__init__" then r.baseInit bound args
      else fault (.noAttributeOf "super" name)
  | some (.class _) | some (.module _) =>
    let attr ← getAttr receiver name
    r.call attr args keywords
  | _ => r.builtinMethod receiver name args keywords

def callValue (r : Interp) (callee : Value) (args : List Value) (keywords : Keywords) :
    Run Value := do
  let h ← heap
  match callee, h.deref? callee with
  | .builtin b, _ => r.callBuiltin b args keywords
  | .ref _, some (.function f) => r.callFunction f args keywords
  | .ref id, some (.class _) => r.instantiate id args keywords
  | .ref _, some (.boundMethod receiver function) =>
    r.call (.ref function) (receiver :: args) keywords
  | .ref _, some (.builtinMethod receiver name) =>
    if name = "__init__" then r.baseInit receiver args
    else r.builtinMethod receiver name args keywords
  | .ref _, some (.instance i) =>
    match h.classAttr? i.cls "__call__" with
    | some method => r.call method (callee :: args) keywords
    | none => fault (.notCallable (h.typeName callee))
  | _, _ => fault (.notCallable (h.typeName callee))

end Interp

end StepTrace
