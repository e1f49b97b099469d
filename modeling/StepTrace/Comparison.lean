import StepTrace.Fault
import StepTrace.Heap
import StepTrace.Text.Cuts

/-!
Truth, equality, order and membership of values as far as no code of the program is asked. Nested
containers are compared down to a fixed depth.
-/

set_option autoImplicit false

namespace StepTrace

/-- How many containers inside each other are compared. -/
def comparedDepth : Nat := 201

/-- The order of two numbers, unless one of them is undefined. -/
def floatOrder? (x y : Float) : Option Ordering :=
  if x < y then some .lt else if x == y then some .eq else if y < x then some .gt else none

def numberOrder? (a b : Value) : Option Ordering :=
  match a.int?, b.int? with
  | some x, some y => some (compare x y)
  | _, _ => floatOrder? a.number b.number

/-- The first pair of elements at the same place that `eq` tells apart. -/
def firstDifference? (eq : Value → Value → Bool) : List Value → List Value → Option (Value × Value)
  | x :: xs, y :: ys => if eq x y then firstDifference? eq xs ys else some (x, y)
  | _, _ => none

namespace Heap

/-- Whether a value counts as true, methods of the program apart. -/
def truthy (h : Heap) : Value → Bool
  | .none => false
  | .bool b => b
  | .int n => n != 0
  | .float f => f != 0.0
  | .str s => !s.isEmpty
  | .builtin _ => true
  | .ref id =>
    match h.get? id with
    | some (.list l) => !l.items.isEmpty
    | some (.tuple items) | some (.deque items) => !items.isEmpty
    | some (.dict d) => !d.entries.isEmpty
    | some (.set s) => !s.isEmpty
    | some (.range p) => p.size != 0
    | _ => true

/-- The number of items of a value, methods of the program apart. -/
def length? (h : Heap) : Value → Option Nat
  | .str s => some s.length
  | v =>
    match h.deref? v with
    | some (.list l) => some l.items.size
    | some (.tuple items) | some (.deque items) => some items.size
    | some (.dict d) => some d.entries.size
    | some (.set s) => some s.size
    | some (.range p) => some p.size
    | _ => none

/-- Whether two objects are equal, where `eq` compares their elements. -/
def equalObjects (eq : Value → Value → Bool) : Object → Object → Bool
  | .list l, .list r => l.items.isEqv r.items eq
  | .tuple l, .tuple r | .deque l, .deque r => l.isEqv r eq
  | .dict l, .dict r =>
    l.entries.size == r.entries.size &&
      l.entries.toList.all fun (k, _, v) => (r.get? k).any (eq v)
  | .set l, .set r => l.size == r.size && l.keys.all r.contains
  | .range p, .range q => p.same q
  | _, _ => false

/-- Whether two values are equal, taking at most `room` containers apart; deeper ones differ. -/
def equalWithin (h : Heap) : Nat → Value → Value → Bool
  | 0, _, _ => false
  | room + 1, a, b =>
    match a, b with
    | .none, .none => true
    | .str x, .str y => x == y
    | .builtin x, .builtin y => x == y
    | .ref x, .ref y =>
      x == y ||
        match h.get? x, h.get? y with
        | some l, some r => equalObjects (h.equalWithin room) l r
        | _, _ => false
    | a, b =>
      a.isNumber && b.isNumber &&
        match a.int?, b.int? with
        | some x, some y => x == y
        | _, _ => a.number == b.number

def equal (h : Heap) (a b : Value) : Bool := h.equalWithin comparedDepth a b

def notOrdered (h : Heap) (symbol : String) (a b : Value) : Fault :=
  .notOrdered symbol (h.typeName a) (h.typeName b)

/-- The elements of two lists or of two tuples. -/
def sequencePair? (h : Heap) (a b : Value) : Option (List Value × List Value) :=
  match h.deref? a, h.deref? b with
  | some (.list l), some (.list r) => some (l.items.toList, r.items.toList)
  | some (.tuple l), some (.tuple r) => some (l.toList, r.toList)
  | _, _ => none

/--
The order of two values, taking at most `room` containers apart; numbers that are not comparable
have none. The `symbol` of the operator is for the message.
-/
def orderWithin (h : Heap) (symbol : String) :
    Nat → Value → Value → Except Fault (Option Ordering)
  | 0, _, _ => .error .recursion
  | room + 1, a, b =>
    match a, b with
    | .str x, .str y => .ok (some (compare x y))
    | a, b =>
      if a.isNumber && b.isNumber then .ok (numberOrder? a b)
      else
        match h.sequencePair? a b with
        | some (xs, ys) =>
          match firstDifference? (h.equalWithin room) xs ys with
          | some (x, y) => h.orderWithin symbol room x y
          | none => .ok (some (compare xs.length ys.length))
        | none => .error (h.notOrdered symbol a b)

def order? (h : Heap) (symbol : String) (a b : Value) : Except Fault (Option Ordering) :=
  h.orderWithin symbol comparedDepth a b

/-- The hash key of a value, or the error for one that has none. -/
def key (h : Heap) (v : Value) : Except Fault HashKey :=
  (h.hashKey v).mapError Fault.notHashable

def anyEqual (h : Heap) (items : Array Value) (item : Value) : Bool :=
  items.any fun v => v.same item || h.equal v item

/-- Whether an element is in a container of a built-in type. -/
def contains (h : Heap) (container item : Value) : Except Fault Bool :=
  match container with
  | .str s =>
    match item with
    | .str needle => .ok (Text.find? needle.toList s.toList).isSome
    | other => .error (.notAString (h.typeName other))
  | _ =>
    match h.deref? container with
    | some (.list l) => .ok (h.anyEqual l.items item)
    | some (.tuple items) | some (.deque items) => .ok (h.anyEqual items item)
    | some (.dict d) => d.entries.contains <$> h.key item
    | some (.set s) => s.contains <$> h.key item
    | some (.range p) =>
      match item with
      | .float f => .ok (Number.isIntegral f && p.contains (Number.toWord f))
      | other => .ok (other.int?.any p.contains)
    | _ => .error (.notIterable (h.typeName container))

end Heap

end StepTrace
