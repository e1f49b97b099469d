import StepTrace.Eval.Item

/-!
Sorting, extremes and priority queues by an order that may run code of the program.
-/

set_option autoImplicit false

namespace StepTrace

open Run

/-- Merges two sorted lists; of elements that are equal those of the left come first. -/
def mergeBy {α : Type} (less : α → α → Run Bool) : List α → List α → List α → Run (List α)
  | [], ys, out => return out.reverseAux ys
  | xs, [], out => return out.reverseAux xs
  | x :: xs, y :: ys, out => do
    if ← less y x then mergeBy less (x :: xs) ys (y :: out)
    else mergeBy less xs (y :: ys) (x :: out)
termination_by xs ys => xs.length + ys.length

/-- Sorts a list by halves; elements that are equal keep their order. -/
def sortBy {α : Type} (less : α → α → Run Bool) (xs : List α) : Run (List α) :=
  if h : xs.length ≤ 1 then return xs
  else do
    let left ← sortBy less (xs.take (xs.length / 2))
    let right ← sortBy less (xs.drop (xs.length / 2))
    mergeBy less left right []
termination_by xs.length
decreasing_by all_goals simp only [List.length_take, List.length_drop]; omega

/--
Rearranges the items of a list. Meanwhile the list is empty; afterwards it has the new items, or the
old ones if the run stops.
-/
def Run.rearrange {α : Type} (id : ObjId) (body : Array Value → Run (Array Value × α)) : Run α :=
  fun m =>
    match m.heap.get? id with
    | some (.list l) =>
      let put := fun (items : Array Value) (m : Machine) =>
        { m with heap := m.heap.modify id (Object.mapList fun l => { l with items }) }
      let items := l.items
      match body items (put #[] m) with
      | .ok (items, a) m => .ok a (put items m)
      | .error e m => .error e (put items m)
    | _ => (Prod.snd <$> body #[]) m

namespace Interp

/-- The results of a function for items, after those that are there already. -/
def mapCall (r : Interp) (f : Value) (out : Array Value) : List Value → Run (Array Value)
  | [] => return out
  | v :: rest => do r.mapCall f (out.push (← r.call f [v] [])) rest

/-- The key function that is given, if it is not the missing value. -/
def keyFunction (key : Option Value) : Option Value := key.filter (!·.isNone)

/-- The keys of items: what a function makes of them, or the items themselves. -/
def keysOf (r : Interp) (key : Option Value) (items : Array Value) : Run (Array Value) :=
  match keyFunction key with
  | some f => r.mapCall f #[] items.toList
  | none => return items

/-- Whether an item with a key comes strictly before another one. -/
def keyLess (r : Interp) (reverse : Bool) (a b : Value × Value) : Run Bool := do
  let o ← r.order a.1 b.1
  return (if reverse then o.swap else o) == .lt

def sorted (r : Interp) (items : Array Value) (key : Option Value) (reverse : Bool) :
    Run (Array Value) := do
  let keys ← r.keysOf key items
  let pairs ← sortBy (r.keyLess reverse) (keys.toList.zip items.toList)
  return (pairs.map Prod.snd).toArray

/-- The first item with the extreme key, `best` being the one so far with its key. -/
def extremeFrom (r : Interp) (greatest : Bool) (key : Option Value) :
    Option (Value × Value) → List Value → Run (Option Value)
  | best, [] => return best.map Prod.snd
  | best, v :: rest => do
    let k ← match key with
      | some f => r.call f [v] []
      | none => pure v
    match best with
    | none => r.extremeFrom greatest key (some (k, v)) rest
    | some (bestKey, _) =>
      let o ← r.order k bestKey
      let better := if greatest then o == .gt else o == .lt
      r.extremeFrom greatest key (if better then some (k, v) else best) rest

/-- The greatest or the least of some items, or what there is in place of one. -/
def extremeOf (r : Interp) (name : String) (greatest : Bool) (key fallback : Option Value)
    (items : List Value) : Run Value := do
  match ← r.extremeFrom greatest (keyFunction key) none items, fallback with
  | some v, _ => return v
  | none, some v => return v
  | none, none => fault (.value (name ++ "() arg is an empty sequence"))

/-- `min` or `max`. -/
def extreme (r : Interp) (name : String) (greatest : Bool) (args : List Value)
    (key fallback : Option Value) : Run Value := do
  let items ← match args with
    | [] => fault (.type (name ++ " expected at least 1 argument, got 0"))
    | [v] => Array.toList <$> r.collect v
    | many => pure many
  r.extremeOf name greatest key fallback items

/-! ### Priority queues -/

/-- Whether the item at one place is less than the one at another. -/
def lessAt (r : Interp) (items : Array Value) (i j : Nat) : Run Bool := do
  return (← r.order (items.getD i .none) (items.getD j .none)) == .lt

/-- Moves the item at a place down while a child is less. The fuel is the number of items. -/
def siftDown (r : Interp) : Nat → Array Value → Nat → Run (Array Value)
  | 0, items, _ => return items
  | fuel + 1, items, i => do
    let left := 2 * i + 1
    if items.size ≤ left then return items
    let rightLess ← if left + 1 < items.size then r.lessAt items (left + 1) left else pure false
    let child := if rightLess then left + 1 else left
    if ← r.lessAt items child i then r.siftDown fuel (items.swapIfInBounds child i) child
    else return items

/-- Moves the item at a place up while it is less than its parent. -/
def siftUp (r : Interp) (items : Array Value) (i : Nat) : Run (Array Value) :=
  if h : i = 0 then return items
  else do
    let parent := (i - 1) / 2
    if ← r.lessAt items i parent then r.siftUp (items.swapIfInBounds i parent) parent
    else return items
termination_by i

def queueOf (name : String) (list : Value) : Run ObjId := do
  match list, ← deref? list with
  | .ref id, some (.list _) => return id
  | _, _ =>
    faultOn fun h => .type (name ++ "() argument 1 must be list, not " ++ h.typeName list)

def queuePush (r : Interp) (list item : Value) : Run Value := do
  rearrange (← queueOf "heappush" list) fun items => do
    return (← r.siftUp (items.push item) items.size, .none)

/-- Takes the least item from a priority queue. -/
def queuePop (r : Interp) (list : Value) : Run Value := do
  rearrange (← queueOf "heappop" list) fun items => do
    match items.back? with
    | none => fault (.index "index out of range")
    | some last =>
      let items := items.pop
      match items[0]? with
      | none => return (items, last)
      | some top => return (← r.siftDown items.size (items.setIfInBounds 0 last) 0, top)

/-- Moves the items at the places below `n` down, the last first. -/
def siftAll (r : Interp) : (n : Nat) → Array Value → Run (Array Value)
  | 0, items => return items
  | n + 1, items => do r.siftAll n (← r.siftDown items.size items n)

def queueMake (r : Interp) (list : Value) : Run Value := do
  rearrange (← queueOf "heapify" list) fun items => do
    return (← r.siftAll (items.size / 2) items, .none)

end Interp

end StepTrace
