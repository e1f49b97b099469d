import StepTrace.Machine

/-!
Going through the items of a value. Lists are gone through as they are at each step; of anything
else the items present at the start count.
-/

set_option autoImplicit false

namespace StepTrace

inductive Iteration
  | progression (next step : Int64) (remaining : Nat)
  | live (id : ObjId) (position : Nat)
  | items (rest : List Value)

/-- The longest progression that is put into a sequence. -/
def progressionLimit : Nat := 10000000

namespace Iteration

/-- The next item, and what remains then. -/
def next? (h : Heap) : Iteration → Option (Value × Iteration)
  | progression _ _ 0 => none
  | progression n step (remaining + 1) => some (.int n, progression (n + step) step remaining)
  | live id i =>
    match h.get? id with
    | some (.list l) => l.items[i]?.map (·, live id (i + 1))
    | _ => none
  | items [] => none
  | items (v :: rest) => some (v, items rest)

/-- The items that remain, if nothing changes. -/
def toArray (h : Heap) : Iteration → Array Value
  | progression n step remaining =>
    Array.ofFn fun i : Fin remaining => .int (n + step * Int64.ofNat i)
  | live id i =>
    match h.get? id with
    | some (.list l) => l.items.drop i
    | _ => #[]
  | items rest => rest.toArray

end Iteration

/-- The iteration over a value of a built-in type. -/
def Heap.iteration? (h : Heap) (v : Value) : Option Iteration :=
  match v with
  | .str s => some (.items (s.toList.map fun c => .str (String.singleton c)))
  | .ref id =>
    match h.get? id with
    | some (.list _) => some (.live id 0)
    | some (.range p) => some (.progression p.start p.step p.size)
    | some (.tuple items) | some (.deque items) => some (.items items.toList)
    | some (.dict d) => some (.items d.keys)
    | some (.set s) => some (.items s.values)
    | _ => none
  | _ => none

end StepTrace
