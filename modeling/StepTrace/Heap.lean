import StepTrace.Progression
import StepTrace.Syntax

/-!
The heap: every object with an identity, in the order of creation. Objects are never removed, so an
id stays valid and tells how many objects there were before it.
-/

set_option autoImplicit false

namespace StepTrace

/-- The place of a scope among the scopes of a run. -/
abbrev ScopeId := Nat

/-- A list; a tracked one reports accesses to its elements. -/
structure ListObject where
  items : Array Value
  /-- The id under which a tracked list reports accesses. -/
  tracker : Option ObjId

/-- A dictionary: under each hash key the key as it was given first, and the value. -/
structure DictObject where
  entries : Ordered HashKey (Value × Value)
  /-- What makes the values of missing keys. -/
  factory : Option Value

namespace DictObject

def empty : DictObject := ⟨.empty, none⟩

def get? (d : DictObject) (k : HashKey) : Option Value := (d.entries.get? k).map Prod.snd

/-- Puts a value under a key; a present key stays as it was given first. -/
def insert (d : DictObject) (k : HashKey) (key value : Value) : DictObject :=
  { d with entries :=
      match d.entries.find? k with
      | some i => d.entries.modifyAt i fun (key, _) => (key, value)
      | none => d.entries.insertNew k (key, value) }

def erase (d : DictObject) (k : HashKey) : DictObject :=
  { d with entries := d.entries.erase k }

/-- The entries of `e` put into `d`. -/
def union (d e : DictObject) : DictObject :=
  e.entries.entries.foldl (fun d (k, key, value) => d.insert k key value) d

def keys (d : DictObject) : List Value := d.entries.values.map Prod.fst

theorem toList_insert (d : DictObject) (k : HashKey) (key value : Value) :
    (d.insert k key value).entries.toList =
      if k ∈ d.entries.keys then
        d.entries.toList.map fun e => if e.1 = k then (e.1, e.2.1, value) else e
      else d.entries.toList ++ [(k, key, value)] := by
  unfold insert
  dsimp only
  split
  · next i found =>
    rw [if_pos (Ordered.mem_keys_of_find? found), Ordered.toList_modifyAt found]
  · next missing =>
    have absent := Ordered.find?_eq_none.1 missing
    rw [Ordered.toList_insertNew, if_neg absent, if_neg absent]

end DictObject

abbrev SetObject := Ordered HashKey Value

inductive FunctionBody
  | block (body : List Stmt)
  | lambda (body : Expr)

structure FunctionObject where
  name : String
  params : List String
  /-- The defaults of the last parameters. -/
  defaults : List Value
  body : FunctionBody
  /-- The scope of the function around it. -/
  closure : Option ScopeId
  /-- The class whose body defines it. -/
  owner : Option ObjId
  line : Nat

structure ClassObject where
  name : String
  base : Option ObjId
  /-- The built-in exception class it derives from directly. -/
  exceptionBase : Option String
  attrs : Namespace

structure Instance where
  cls : ObjId
  fields : Namespace

structure ModuleObject where
  name : String
  attrs : Namespace

inductive Object
  | list (l : ListObject)
  | tuple (items : Array Value)
  | dict (d : DictObject)
  | set (s : SetObject)
  | deque (items : Array Value)
  | range (p : Progression)
  | instance (i : Instance)
  | class (c : ClassObject)
  | function (f : FunctionObject)
  /-- A method of a class taken from an object. -/
  | boundMethod (receiver : Value) (function : ObjId)
  /-- A method of a built-in type taken from a value. -/
  | builtinMethod (receiver : Value) (name : String)
  | module (m : ModuleObject)
  /-- Attributes are looked up above `cls` and bound to `receiver`. -/
  | super (cls : ObjId) (receiver : Value)
  /-- An instance of a built-in exception class. -/
  | exception (kind message : String)

instance : Inhabited Object := ⟨.tuple #[]⟩

/-- The objects, and how many there may be. -/
structure Heap where
  objects : Array Object
  limit : Nat

namespace Heap

def empty (limit : Nat) : Heap := ⟨#[], limit⟩

def size (h : Heap) : Nat := h.objects.size

def get? (h : Heap) (id : ObjId) : Option Object := h.objects[id]?

def deref? (h : Heap) : Value → Option Object
  | .ref id => h.get? id
  | _ => none

/-- The heap with one more object, whose id is the size before. -/
def push (h : Heap) (o : Object) : Heap := { h with objects := h.objects.push o }

def modify (h : Heap) (id : ObjId) (f : Object → Object) : Heap :=
  { h with objects := h.objects.modify id f }

@[simp] theorem size_push (h : Heap) (o : Object) : (h.push o).size = h.size + 1 := by
  simp [push, size]

@[simp] theorem size_modify (h : Heap) (id : ObjId) (f : Object → Object) :
    (h.modify id f).size = h.size := by
  simp [modify, size]

def className (h : Heap) (cls : ObjId) : String :=
  match h.get? cls with
  | some (.class c) => c.name
  | _ => "object"

def objectTypeName (h : Heap) : Object → String
  | .list _ => "list"
  | .tuple _ => "tuple"
  | .dict d => if d.factory.isSome then "defaultdict" else "dict"
  | .set _ => "set"
  | .deque _ => "deque"
  | .range _ => "range"
  | .instance i => h.className i.cls
  | .class _ => "type"
  | .function _ => "function"
  | .boundMethod .. => "method"
  | .builtinMethod .. => "builtin_function_or_method"
  | .module _ => "module"
  | .super .. => "super"
  | .exception kind _ => kind

def typeName (h : Heap) : Value → String
  | .none => "NoneType"
  | .bool _ => "bool"
  | .int _ => "int"
  | .float _ => "float"
  | .str _ => "str"
  | .builtin b => if b.isType then "type" else "builtin_function_or_method"
  | .ref id => ((h.get? id).map h.objectTypeName).getD "object"

/-- Functions, classes, methods and modules, which snapshots leave out. -/
def isCode (h : Heap) (v : Value) : Bool :=
  match v with
  | .builtin _ => true
  | _ =>
    match h.deref? v with
    | some (.function _) | some (.class _) | some (.boundMethod ..) | some (.builtinMethod ..)
    | some (.module _) => true
    | _ => false

/-- The first answer of a class or of those above it; `bound` limits the walk. -/
def walkClasses {α : Type} (h : Heap) (answer : ObjId → ClassObject → Option α) :
    Nat → Option ObjId → Option α
  | 0, _ => none
  | _, none => none
  | bound + 1, some id =>
    match h.get? id with
    | some (.class c) =>
      match answer id c with
      | some a => some a
      | none => walkClasses h answer bound c.base
    | _ => none

/-- An attribute of a class, its own or inherited. -/
def classAttr? (h : Heap) (cls : ObjId) (name : String) : Option Value :=
  h.walkClasses (fun _ c => c.attrs.get? name) h.size (some cls)

/-- Whether a class is another one or derives from it. -/
def isSubclass (h : Heap) (cls ancestor : ObjId) : Bool :=
  (h.walkClasses (fun id _ => if id = ancestor then some () else none) h.size (some cls)).isSome

/-- The built-in exception class that a class derives from. -/
def exceptionBase? (h : Heap) (cls : ObjId) : Option String :=
  h.walkClasses (fun _ c => c.exceptionBase) h.size (some cls)

def isInstance (h : Heap) (v : Value) : Bool :=
  match h.deref? v with
  | some (.instance _) => true
  | _ => false

/-- The key of a number: the integer it equals, if it is well inside the range. -/
def floatKey (f : Float) : HashKey :=
  if Number.isIntegral f && f.abs < 9.2e18 then .int (Number.toWord f) else .float f.toBits

/-- The hash keys of values, or the type of one that has none; tuples hold older objects only. -/
def hashKeys (h : Heap) : Nat → List Value → Except String (List HashKey)
  | _, [] => .ok []
  | 0, _ :: _ => .ok []
  | depth + 1, v :: rest => do
    let key ← match v with
      | .none => pure HashKey.none
      | .bool b => pure (.int (if b then 1 else 0))
      | .int n => pure (.int n)
      | .float f => pure (floatKey f)
      | .str s => pure (.str s)
      | .builtin b => pure (.builtin b.name)
      | .ref id =>
        match h.get? id with
        | some (.tuple items) => HashKey.tuple <$> hashKeys h depth items.toList
        | some (.list _) | some (.dict _) | some (.set _) | some (.deque _) =>
          throw (h.typeName v)
        | _ => pure (.identity id)
    return key :: (← hashKeys h (depth + 1) rest)
termination_by depth vs => (depth, vs.length)

/-- The hash key of a value, or the name of its type if it has none. -/
def hashKey (h : Heap) (v : Value) : Except String HashKey := do
  match ← h.hashKeys (h.size + 1) [v] with
  | key :: _ => return key
  | [] => throw (h.typeName v)

end Heap

end StepTrace
