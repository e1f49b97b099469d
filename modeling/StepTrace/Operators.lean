import StepTrace.Comparison
import StepTrace.Format.Template

/-!
Operators on values as far as no method of the program takes part.
-/

set_option autoImplicit false

namespace StepTrace

/-- What an operation yields: a value, or an object that is to be put on the heap. -/
inductive Outcome
  | value (v : Value)
  | object (o : Object)

/-- The greatest sequence that a repetition may make. -/
def repetitionLimit : Nat := 10000000

def repeated (items : Array Value) (times : Nat) : Array Value :=
  Nat.fold times (fun _ _ out => out ++ items) (Array.mkEmpty (items.size * times))

/-- An operator on two sets. -/
def setOperator (op : BinaryOp) (l r : SetObject) : Option SetObject :=
  match op with
  | .bitOr => some (r.entries.foldl (fun s (k, v) => s.insertNew k v) l)
  | .bitAnd => some (l.filter fun k _ => r.contains k)
  | .sub => some (l.filter fun k _ => !r.contains k)
  | .bitXor =>
    some (r.entries.foldl (fun s (k, v) => if l.contains k then s else s.insertNew k v)
      (l.filter fun k _ => !r.contains k))
  | _ => none

def containerOperator (op : BinaryOp) (l r : Object) : Option Object :=
  match l, r, op with
  | .list l, .list r, .add => some (.list ⟨l.items ++ r.items, none⟩)
  | .tuple l, .tuple r, .add => some (.tuple (l ++ r))
  | .deque l, .deque r, .add => some (.deque (l ++ r))
  | .set l, .set r, op => .set <$> setOperator op l r
  | .dict l, .dict r, .bitOr => some (.dict (l.union r))
  | _, _, _ => none

/-- A list or a tuple several times in a row. -/
def repeatedObject (o : Object) (times : Nat) : Option (Except Fault Object) :=
  let checked := fun (items : Array Value) (make : Array Value → Object) =>
    if repetitionLimit < items.size * times then Except.error Fault.repeatedTooOften
    else .ok (make (repeated items times))
  match o with
  | .list l => some (checked l.items fun items => .list ⟨items, none⟩)
  | .tuple items => some (checked items .tuple)
  | _ => none

namespace Heap

def badOperands (h : Heap) (op : BinaryOp) (a b : Value) : Fault :=
  let left := h.typeName a
  if op = .add ∧ ["str", "list", "tuple"].contains left then .concatenation left (h.typeName b)
  else .operands op.symbol left (h.typeName b)

/-- A binary operator where a string is on the left, or on the right of a repetition. -/
def stringOperator? (h : Heap) (op : BinaryOp) (a b : Value) : Option (Except Fault String) :=
  let times := fun (s : String) (n : Int64) =>
    Except.ok (String.join (List.replicate n.toInt.toNat s))
  match op, a, b with
  | .add, .str s, .str t => some (.ok (s ++ t))
  | .mul, .str s, n => n.int?.map (times s)
  | .mul, n, .str s => n.int?.map (times s)
  | .mod, .str template, args => some (h.formatPercent template args)
  | _, _, _ => none

def containerOperator? (h : Heap) (op : BinaryOp) (a b : Value) :
    Option (Except Fault Object) :=
  match h.deref? a, h.deref? b with
  | some l, some r => .ok <$> containerOperator op l r
  | some o, none => if op = .mul then b.int?.bind fun n => repeatedObject o n.toInt.toNat else none
  | none, some o => if op = .mul then a.int?.bind fun n => repeatedObject o n.toInt.toNat else none
  | none, none => none

def binary (h : Heap) (op : BinaryOp) (a b : Value) : Except Fault Outcome :=
  let refused := Except.error (h.badOperands op a b)
  match op, a, b with
  | .bitAnd, .bool x, .bool y => .ok (.value (.bool (x && y)))
  | .bitOr, .bool x, .bool y => .ok (.value (.bool (x || y)))
  | .bitXor, .bool x, .bool y => .ok (.value (.bool (x != y)))
  | op, a, b =>
    match a.int?, b.int? with
    | some x, some y => .value <$> Arithmetic.ofInts op x y
    | _, _ =>
      if a.isNumber && b.isNumber then
        match Arithmetic.ofFloats? op a.number b.number with
        | some r => (.value ∘ .float) <$> r
        | none => refused
      else
        match h.stringOperator? op a b with
        | some r => (.value ∘ .str) <$> r
        | none =>
          match h.containerOperator? op a b with
          | some r => .object <$> r
          | none => refused

def unary (h : Heap) (op : UnaryOp) (v : Value) : Except Fault Value :=
  let refused := Except.error (.operand op.symbol (h.typeName v))
  match op, v with
  | .not, v => .ok (.bool (!h.truthy v))
  | .neg, .float f => .ok (.float (-f))
  | .pos, .float f => .ok (.float f)
  | op, v =>
    match v.int?, op with
    | some n, .neg => .int <$> Arithmetic.exact (-n.toInt)
    | some n, .pos => .ok (.int n)
    | some n, .bitNot => .ok (.int (~~~n))
    | _, _ => refused

end Heap

end StepTrace
