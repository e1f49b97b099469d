import StepTrace.Operators

/-!
Attributes of values: fields, what classes define, the contents of modules, and the methods of
built-in types.
-/

set_option autoImplicit false

namespace StepTrace

def builtinMethods : String → List String
  | "list" =>
    ["append", "extend", "insert", "pop", "remove", "index", "count", "sort", "reverse", "clear",
      "copy"]
  | "dict" | "defaultdict" =>
    ["get", "keys", "values", "items", "pop", "setdefault", "update", "clear", "copy", "popitem"]
  | "set" =>
    ["add", "remove", "discard", "pop", "clear", "copy", "union", "intersection", "difference",
      "issubset", "issuperset", "update"]
  | "deque" =>
    ["append", "appendleft", "pop", "popleft", "extend", "extendleft", "clear", "rotate"]
  | "tuple" => ["index", "count"]
  | "str" =>
    ["upper", "lower", "strip", "lstrip", "rstrip", "split", "join", "replace", "startswith",
      "endswith", "find", "rfind", "index", "count", "isdigit", "isalpha", "isalnum", "isspace",
      "isupper", "islower", "format", "title", "capitalize", "center", "ljust", "rjust", "zfill",
      "splitlines"]
  | _ => []

namespace Heap

def isFunction (h : Heap) (v : Value) : Bool :=
  match h.deref? v with
  | some (.function _) => true
  | _ => false

def isCallable (h : Heap) (v : Value) : Bool :=
  match v with
  | .builtin _ => true
  | v =>
    match h.deref? v with
    | some (.function _) | some (.class _) | some (.boundMethod ..) | some (.builtinMethod ..) =>
      true
    | some (.instance i) => (h.classAttr? i.cls "__call__").isSome
    | _ => false

/-- An attribute that a class defines, taken from a receiver: functions become methods. -/
def bound (h : Heap) (receiver attr : Value) : Outcome :=
  match attr with
  | .ref function =>
    if h.isFunction attr then .object (.boundMethod receiver function) else .value attr
  | attr => .value attr

/-- An attribute of the class above `cls`. -/
def inherited? (h : Heap) (cls : ObjId) (name : String) : Option Value :=
  match h.get? cls with
  | some (.class c) => c.base.bind fun b => h.classAttr? b name
  | _ => none

def typeOf (h : Heap) (v : Value) : Value :=
  match v with
  | .none => .builtin .noneType
  | .bool _ => .builtin .bool
  | .int _ => .builtin .int
  | .float _ => .builtin .float
  | .str _ => .builtin .str
  | .builtin b => .builtin (if b.isType then .type else .object)
  | .ref id =>
    match h.get? id with
    | some (.list _) => .builtin .list
    | some (.tuple _) => .builtin .tuple
    | some (.dict d) => .builtin (if d.factory.isSome then .defaultdict else .dict)
    | some (.set _) => .builtin .set
    | some (.deque _) => .builtin .deque
    | some (.range _) => .builtin .range
    | some (.instance i) => .ref i.cls
    | some (.class _) => .builtin .type
    | some (.exception kind _) => .builtin (.exception kind)
    | _ => .builtin .object

def attr (h : Heap) (object : Value) (name : String) : Except Fault Outcome :=
  let missing := fun owner => Except.error (Fault.noAttribute owner name)
  let native :=
    let typeName := h.typeName object
    if (builtinMethods typeName).contains name then
      .ok (.object (.builtinMethod object name))
    else .error (.noAttributeOf typeName name)
  match h.deref? object with
  | some (.instance i) =>
    match i.fields.get? name with
    | some v => .ok (.value v)
    | none =>
      if name = "__class__" then .ok (.value (.ref i.cls))
      else
        match h.classAttr? i.cls name with
        | some v => .ok (h.bound object v)
        | none => .error (.noAttributeOf (h.className i.cls) name)
  | some (.class c) =>
    if name = "__name__" then .ok (.value (.str c.name))
    else
      match object.ref?.bind fun id => h.classAttr? id name with
      | some v => .ok (.value v)
      | none => missing ("type object " ++ Fault.mark c.name)
  | some (.module m) =>
    match m.attrs.get? name with
    | some v => .ok (.value v)
    | none => missing ("module " ++ Fault.mark m.name)
  | some (.super cls receiver) =>
    match h.inherited? cls name with
    | some v => .ok (h.bound receiver v)
    | none =>
      if name = "__init__" then .ok (.object (.builtinMethod receiver name))
      else .error (.noAttributeOf "super" name)
  | some (.function f) => if name = "__name__" then .ok (.value (.str f.name)) else native
  | some (.exception _ message) =>
    if name = "args" then
      .ok (.object (.tuple (if message.isEmpty then #[] else #[.str message])))
    else native
  | _ =>
    match object with
    | .builtin b => if name = "__name__" then .ok (.value (.str b.name)) else native
    | _ => native

/-- Whether a value is an instance of a class, or of one of a tuple of classes. -/
def isInstanceOf (h : Heap) (v : Value) : (room : Nat) → (classes : Value) → Except Fault Bool
  | 0, _ => .ok false
  | room + 1, classes =>
    let cls := match h.deref? v with
      | some (.instance i) => some i.cls
      | _ => none
    let refused :=
      Except.error (Fault.type "isinstance() arg 2 must be a type, a tuple of types, or a union")
    match classes with
    | .builtin .object => .ok true
    | .builtin (.exception kind) =>
      let own := match h.deref? v with
        | some (.exception kind _) => some kind
        | _ => cls.bind h.exceptionBase?
      .ok (own.any fun k => k == kind || kind == "Exception")
    | .builtin b =>
      if b.isType then
        let same := (h.typeOf v).same (.builtin b)
        .ok (same || match b, v with
          | .int, .bool _ => true
          | .dict, v => (h.typeOf v).same (.builtin .defaultdict)
          | _, _ => false)
      else refused
    | .ref id =>
      match h.get? id with
      | some (.class _) => .ok (cls.any (h.isSubclass · id))
      | some (.tuple options) => anyInstance (h.isInstanceOf v room) options.toList
      | _ => refused
    | _ => refused
where
  /-- Whether a test holds of an option; an error ends the search. -/
  anyInstance (test : Value → Except Fault Bool) : List Value → Except Fault Bool
    | [] => .ok false
    | o :: rest => do if ← test o then return true else anyInstance test rest

end Heap

end StepTrace
