import StepTrace.Iteration

/-!
What classes of the program can define for themselves: truth, operators, equality, order, texts,
lengths and iteration.
-/

set_option autoImplicit false

namespace StepTrace

/-- How a block of statements ends. -/
inductive Flow
  | normal
  | broken
  | continued
  | returned (v : Value)

/-- The ways in which a part of a run starts another one, each with less fuel. -/
structure Interp where
  eval : Expr → Run Value
  block : List Stmt → Run Flow
  call : Value → List Value → List (String × Value) → Run Value
  iterate : Value → Run Iteration
  /-- How often a loop may go around. -/
  fuel : Nat

/-- The method for a binary operator, and the one of the right operand. -/
def BinaryOp.methods : BinaryOp → String × String
  | add => ("__add__", "__radd__")
  | sub => ("__sub__", "__rsub__")
  | mul => ("__mul__", "__rmul__")
  | div => ("__truediv__", "__rtruediv__")
  | floorDiv => ("__floordiv__", "__rfloordiv__")
  | mod => ("__mod__", "__rmod__")
  | pow => ("__pow__", "__rpow__")
  | bitAnd => ("__and__", "__rand__")
  | bitOr => ("__or__", "__ror__")
  | bitXor => ("__xor__", "__rxor__")
  | shiftLeft => ("__lshift__", "__rlshift__")
  | shiftRight => ("__rshift__", "__rrshift__")

def UnaryOp.method : UnaryOp → String
  | neg => "__neg__"
  | pos => "__pos__"
  | _ => "__invert__"

inductive OrderOp
  | lt | le | gt | ge
deriving DecidableEq, Repr

namespace OrderOp

def symbol : OrderOp → String
  | lt => "<"
  | le => "<="
  | gt => ">"
  | ge => ">="

/-- The method for an operator, and the one of the right operand. -/
def methods : OrderOp → String × String
  | lt => ("__lt__", "__gt__")
  | le => ("__le__", "__ge__")
  | gt => ("__gt__", "__lt__")
  | ge => ("__ge__", "__le__")

/-- Whether an operator holds of two values in a given order. -/
def holds : OrderOp → Ordering → Bool
  | lt, o => o == .lt
  | le, o => o != .gt
  | gt, o => o == .gt
  | ge, o => o != .lt

end OrderOp

open Run

namespace Interp

/-- Calls a method that the class of an instance defines. -/
def special (r : Interp) (v : Value) (name : String) (args : List Value) : Run (Option Value) := do
  let h ← heap
  match h.deref? v with
  | some (.instance i) =>
    match h.classAttr? i.cls name with
    | some method => some <$> r.call method (v :: args) []
    | none => return none
  | _ => return none

/-- Whether a value counts as true in a condition. -/
def truth (r : Interp) (v : Value) : Run Bool := do
  if !(← heap).isInstance v then return (← heap).truthy v
  match ← r.special v "__bool__" [] with
  | some (.bool b) => return b
  | some other =>
    faultOn fun h => .type ("__bool__ should return bool, returned " ++ h.typeName other)
  | none =>
    match ← r.special v "__len__" [] with
    | some n => return n.int?.any (· != 0)
    | none => return (← heap).truthy v

def binary (r : Interp) (op : BinaryOp) (a b : Value) : Run Value := do
  let h ← heap
  if h.isInstance a || h.isInstance b then
    if let some v ← r.special a op.methods.1 [b] then return v
    if let some v ← r.special b op.methods.2 [a] then return v
  settle (← check ((← heap).binary op a b))

def unary (r : Interp) (op : UnaryOp) (v : Value) : Run Value := do
  if op = .not then return .bool !(← r.truth v)
  match ← r.special v op.method [] with
  | some v => return v
  | none => check ((← heap).unary op v)

/-- The answer of a method of equality of `a`. -/
def askEqual (r : Interp) (a b : Value) : Run (Option Bool) := do
  match ← r.special a "__eq__" [b] with
  | some v => some <$> r.truth v
  | none => return none

def equal (r : Interp) (a b : Value) : Run Bool := do
  if let some t ← r.askEqual a b then return t
  if let some t ← r.askEqual b a then return t
  return a.same b || (← heap).equal a b

/-- The first pair of elements at the same place that differ. -/
def firstUnequal (r : Interp) : List Value → List Value → Run (Option (Value × Value))
  | x :: xs, y :: ys => do
    if ← r.equal x y then r.firstUnequal xs ys else return some (x, y)
  | _, _ => return none

def anyEqual (r : Interp) (item : Value) : List Value → Run Bool
  | [] => return false
  | v :: rest => do
    if ← r.equal v item then return true else r.anyEqual item rest

/-- The answer of the methods of order of two values. -/
def askOrder (r : Interp) (op : OrderOp) (a b : Value) : Run (Option Bool) := do
  match ← r.special a op.methods.1 [b] with
  | some v => some <$> r.truth v
  | none =>
    match ← r.special b op.methods.2 [a] with
    | some v => some <$> r.truth v
    | none => return none

/-- Whether `a` comes before `b`, where at least one is an instance. -/
def before (r : Interp) (a b : Value) : Run Bool := do
  match ← r.askOrder .lt a b with
  | some t => return t
  | none => return (← check ((← heap).order? OrderOp.lt.symbol a b)) == some .lt

/--
The order of two values for sorting; numbers that are not comparable count as equal. Sequences are
taken apart, at most `room` of them inside each other.
-/
def orderWithin (r : Interp) : Nat → Value → Value → Run Ordering
  | 0, _, _ => fault .recursion
  | room + 1, a, b => do
    let h ← heap
    match h.sequencePair? a b with
    | some (xs, ys) =>
      match ← r.firstUnequal xs ys with
      | some (x, y) => r.orderWithin room x y
      | none => return compare xs.length ys.length
    | none =>
      if h.isInstance a || h.isInstance b then
        if ← r.before a b then return .lt
        if ← r.before b a then return .gt
        return .eq
      else return (← check (h.order? OrderOp.lt.symbol a b)).getD .eq

def order (r : Interp) (a b : Value) : Run Ordering := r.orderWithin comparedDepth a b

def ordered (r : Interp) (op : OrderOp) (a b : Value) : Run Bool := do
  match ← r.askOrder op a b with
  | some t => return t
  | none =>
    let h ← heap
    let found ←
      if (h.sequencePair? a b).isSome then some <$> r.order a b
      else check (h.order? op.symbol a b)
    return found.any op.holds

/-- Starts to go through a value. -/
def iteration (r : Interp) (v : Value) : Run Iteration := do
  match (← heap).iteration? v with
  | some it => return it
  | none =>
    match ← r.special v "__iter__" [] with
    | some inner =>
      if inner.same v then faultOn fun h => .notIterable (h.typeName v) else r.iterate inner
    | none => faultOn fun h => .notIterable (h.typeName v)

def collect (r : Interp) (v : Value) : Run (Array Value) := do
  match ← deref? v with
  | some (.list l) => return l.items
  | some (.tuple items) => return items
  | some (.range p) =>
    if progressionLimit < p.size then fault (.tooManyItems p.size)
    else return (Iteration.progression p.start p.step p.size).toArray (← heap)
  | _ =>
    let it ← r.iteration v
    return it.toArray (← heap)

def contains (r : Interp) (container item : Value) : Run Bool := do
  if !(← heap).isInstance container then check ((← heap).contains container item)
  else
    match ← r.special container "__contains__" [item] with
    | some v => r.truth v
    | none =>
      let items ← r.collect container
      r.anyEqual item items.toList

def compare (r : Interp) (op : CompareOp) (a b : Value) : Run Bool := do
  match op with
  | .eq => r.equal a b
  | .ne =>
    match ← r.special a "__ne__" [b] with
    | some v => r.truth v
    | none => return !(← r.equal a b)
  | .is => return a.same b
  | .isNot => return !a.same b
  | .isIn => r.contains b a
  | .notIn => return !(← r.contains b a)
  | .lt => r.ordered .lt a b
  | .le => r.ordered .le a b
  | .gt => r.ordered .gt a b
  | .ge => r.ordered .ge a b

def expectText (method : String) : Value → Run String
  | .str s => return s
  | other =>
    faultOn fun h => .type (method ++ " returned non-string (type " ++ h.typeName other ++ ")")

/-- The field in which an exception of the program keeps its message. -/
def messageField : String := "__message__"

/-- The text of a value, as printed. -/
def display (r : Interp) (v : Value) : Run String := do
  match ← deref? v with
  | some (.instance i) =>
    if let some s ← r.special v "__str__" [] then return ← expectText "__str__" s
    if let some s ← r.special v "__repr__" [] then return ← expectText "__repr__" s
    return (← heap).str ((i.fields.get? messageField).getD v)
  | some (.exception _ message) => return message
  | _ => return (← heap).str v

/-- How the program would write a value. -/
def represent (r : Interp) (v : Value) : Run String := do
  match ← r.special v "__repr__" [] with
  | some s => expectText "__repr__" s
  | none => return (← heap).repr v

/-- The number of items of a value. -/
def length (r : Interp) (v : Value) : Run Nat := do
  match (← heap).length? v with
  | some n => return n
  | none =>
    match ← r.special v "__len__" [] with
    | some n =>
      match n.int? with
      | some n =>
        if 0 ≤ n then return n.toInt.toNat
        else fault (.type "__len__() should return a non-negative int")
      | none => fault (.type "__len__() should return a non-negative int")
    | none => faultOn fun h => .noLength (h.typeName v)

end Interp

end StepTrace
