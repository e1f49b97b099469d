import StepTrace.Eval.Arguments

/-!
The methods of lists, tuples, dictionaries, sets and deques.
-/

set_option autoImplicit false

namespace StepTrace

open Run

namespace Interp

def noMethod (typeName name : String) : Run Value := fault (.noAttributeOf typeName name)

/-- The argument at a place, for calls that have been checked to have it. -/
def argument (args : List Value) (i : Nat) : Value := args[i]?.getD .none

def placeOf (r : Interp) (item : Value) : (i : Nat) → List Value → Run (Option Nat)
  | _, [] => return none
  | i, v :: rest => do if ← r.equal v item then return some i else r.placeOf item (i + 1) rest

/-- How often an element occurs, added to `n`. -/
def occurrences (r : Interp) (item : Value) : (n : Nat) → List Value → Run Nat
  | n, [] => return n
  | n, v :: rest => do r.occurrences item (if ← r.equal v item then n + 1 else n) rest

/-- The methods that look for an element. -/
def searchMethod (r : Interp) (items : Array Value) (typeName name : String) (args : List Value) :
    Run Value := do
  match name with
  | "index" =>
    arity name args 1 (some 1)
    match ← r.placeOf (argument args 0) 0 items.toList with
    | some i => return .int (Int64.ofNat i)
    | none =>
      if typeName = "tuple" then fault (.value "tuple.index(x): x not in tuple")
      else faultOn fun h => .value (h.repr (argument args 0) ++ " is not in list")
  | "count" =>
    arity name args 1 (some 1)
    return .int (Int64.ofNat (← r.occurrences (argument args 0) 0 items.toList))
  | _ => noMethod typeName name

def sortMethod (r : Interp) (id : ObjId) (args : List Value) (keywords : Keywords) : Run Value := do
  if !args.isEmpty then fault (.type "sort() takes no positional arguments")
  let reverse := (keywords.lookup "reverse").any (← heap).truthy
  (keywords.without ["key", "reverse"]).finish "sort"
  rearrange id fun items => do
    return (← r.sorted items (keywords.lookup "key") reverse, .none)

/-- Where `insert` puts an item into `n` ones. -/
def insertionPlace (n : Nat) (i : Int64) : Nat :=
  if i < 0 then (i.toInt + n).toNat else min i.toInt.toNat n

/-- The items of a list, a tuple or a deque. -/
def itemsOf (id : ObjId) : Run (Array Value) := do
  match (← heap).get? id with
  | some (.list l) => return l.items
  | some (.tuple items) | some (.deque items) => return items
  | _ => return #[]

def dictOf (id : ObjId) : Run DictObject := do
  match (← heap).get? id with
  | some (.dict d) => return d
  | _ => return .empty

def membersOf (id : ObjId) : Run SetObject := do
  match (← heap).get? id with
  | some (.set s) => return s
  | _ => return .empty

/-- Removes the item of a list at an index. -/
def popItem (id : ObjId) (i : Int64) : Run Value := do
  let items ← itemsOf id
  if items.isEmpty then fault (.index "pop from empty list")
  match position? items.size i with
  | some p =>
    let v := items.getD p .none
    changeItems id (·.eraseIdxIfInBounds p)
    return v
  | none => fault (.outside "pop")

def listMethod (r : Interp) (id : ObjId) (name : String) (args : List Value)
    (keywords : Keywords) : Run Value := do
  if name = "sort" then return ← r.sortMethod id args keywords
  keywords.finish name
  match name with
  | "append" =>
    arity name args 1 (some 1)
    changeItems id (·.push (argument args 0))
    return .none
  | "extend" =>
    arity name args 1 (some 1)
    let items ← r.collect (argument args 0)
    changeItems id (· ++ items)
    return .none
  | "insert" =>
    arity name args 2 (some 2)
    let i ← intParameter name (argument args 0)
    changeItems id fun items =>
      items.insertIdxIfInBounds (insertionPlace items.size i) (argument args 1)
    return .none
  | "pop" =>
    arity name args 0 (some 1)
    match args with
    | v :: _ => popItem id (← intParameter name v)
    | [] => popItem id (-1)
  | "remove" =>
    arity name args 1 (some 1)
    let items ← itemsOf id
    match ← r.placeOf (argument args 0) 0 items.toList with
    | some i =>
      changeItems id (·.eraseIdxIfInBounds i)
      return .none
    | none => fault (.value "list.remove(x): x not in list")
  | "reverse" =>
    arity name args 0 (some 0)
    changeItems id Array.reverse
    return .none
  | "clear" =>
    arity name args 0 (some 0)
    changeItems id fun _ => #[]
    return .none
  | "copy" =>
    arity name args 0 (some 0)
    allocList (← itemsOf id)
  | _ => r.searchMethod (← itemsOf id) "list" name args

/-- Puts pairs on the heap as tuples, after those that are there already. -/
def allocPairs (out : Array Value) : List (Value × Value) → Run (Array Value)
  | [] => return out
  | (a, b) :: rest => do allocPairs (out.push (← allocTuple #[a, b])) rest

def dictMethod (r : Interp) (id : ObjId) (name : String) (args : List Value)
    (keywords : Keywords) : Run Value := do
  if name = "update" then
    arity name args 0 (some 1)
    let incoming ← match args with
      | source :: _ => addEntries r .empty source
      | [] => pure .empty
    let incoming := addKeywords incoming keywords
    change id (Object.mapDict fun d => d.union incoming)
    return .none
  keywords.finish name
  match name with
  | "get" =>
    arity name args 1 (some 2)
    let key ← keyOf (argument args 0)
    return ((← dictOf id).get? key).getD (argument args 1)
  | "keys" =>
    arity name args 0 (some 0)
    allocList (← dictOf id).keys.toArray
  | "values" =>
    arity name args 0 (some 0)
    allocList ((← dictOf id).entries.values.map Prod.snd).toArray
  | "items" =>
    arity name args 0 (some 0)
    allocList (← allocPairs #[] (← dictOf id).entries.values)
  | "pop" =>
    arity name args 1 (some 2)
    let key ← keyOf (argument args 0)
    match (← dictOf id).get? key with
    | some v =>
      change id (Object.mapDict (·.erase key))
      return v
    | none =>
      match args with
      | [_, v] => return v
      | _ => faultOn fun h => .missingKey (h.repr (argument args 0))
  | "setdefault" =>
    arity name args 1 (some 2)
    let key ← keyOf (argument args 0)
    match (← dictOf id).get? key with
    | some v => return v
    | none =>
      let v := argument args 1
      change id (Object.mapDict (·.insert key (argument args 0) v))
      return v
  | "clear" =>
    arity name args 0 (some 0)
    change id (Object.mapDict fun d => { d with entries := .empty })
    return .none
  | "copy" =>
    arity name args 0 (some 0)
    alloc (.dict (← dictOf id))
  | "popitem" =>
    arity name args 0 (some 0)
    let entries := (← dictOf id).entries
    match entries.at? (entries.size - 1) with
    | some (_, key, v) =>
      change id (Object.mapDict fun d => { d with entries := d.entries.dropLast })
      allocTuple #[key, v]
    | none => fault (.missingKey "'popitem(): dictionary is empty'")
  | _ => noMethod "dict" name

/-- A set combined with the items of each of some values in turn. -/
def combineSets (r : Interp) (combine : SetObject → SetObject → SetObject) :
    SetObject → List Value → Run SetObject
  | s, [] => return s
  | s, v :: rest => do
    let other ← setOf (← r.collect v).toList .empty
    r.combineSets combine (combine s other) rest

/-- How a method combines two sets. -/
def setCombination : String → SetObject → SetObject → SetObject
  | "intersection", s, t => s.filter fun k _ => t.contains k
  | "difference", s, t => s.filter fun k _ => !t.contains k
  | _, s, t => t.entries.foldl (fun s (k, v) => s.insertNew k v) s

/-- Removes a member of a set; one that is missing is an error if it is wanted. -/
def removeMember (id : ObjId) (wanted : Bool) (item : Value) (key : HashKey) : Run Unit := do
  if (← membersOf id).contains key then
    change id (Object.mapSet (·.erase key))
  else if wanted then
    faultOn fun h => .missingKey (h.repr item)

def setMethod (r : Interp) (id : ObjId) (name : String) (args : List Value)
    (keywords : Keywords) : Run Value := do
  keywords.finish name
  match name with
  | "add" =>
    arity name args 1 (some 1)
    let key ← keyOf (argument args 0)
    change id (Object.mapSet (·.insertNew key (argument args 0)))
    return .none
  | "remove" | "discard" =>
    arity name args 1 (some 1)
    let key ← keyOf (argument args 0)
    removeMember id (name = "remove") (argument args 0) key
    return .none
  | "pop" =>
    arity name args 0 (some 0)
    match (← membersOf id).at? 0 with
    | some (_, v) =>
      change id (Object.mapSet (·.eraseAt 0))
      return v
    | none => fault (.missingKey "'pop from an empty set'")
  | "clear" =>
    arity name args 0 (some 0)
    change id (Object.mapSet fun _ => .empty)
    return .none
  | "copy" =>
    arity name args 0 (some 0)
    alloc (.set (← membersOf id))
  | "union" | "intersection" | "difference" =>
    alloc (.set (← r.combineSets (setCombination name) (← membersOf id) args))
  | "update" =>
    let t ← r.combineSets (setCombination name) (← membersOf id) args
    change id (Object.mapSet fun _ => t)
    return .none
  | "issubset" =>
    arity name args 1 (some 1)
    let other ← setOf (← r.collect (argument args 0)).toList .empty
    return .bool ((← membersOf id).keys.all other.contains)
  | "issuperset" =>
    arity name args 1 (some 1)
    let other ← setOf (← r.collect (argument args 0)).toList .empty
    let s ← membersOf id
    return .bool (other.keys.all s.contains)
  | _ => noMethod "set" name

/-- The items turned around a ring, the last ones coming first. -/
def rotated (items : Array Value) (n : Int64) : Array Value :=
  let shift := (n.toInt % items.size).toNat
  items.extract (items.size - shift) items.size ++ items.extract 0 (items.size - shift)

def dequeMethod (r : Interp) (id : ObjId) (name : String) (args : List Value)
    (keywords : Keywords) : Run Value := do
  keywords.finish name
  match name with
  | "append" =>
    arity name args 1 (some 1)
    change id (Object.mapDeque (·.push (argument args 0)))
    return .none
  | "appendleft" =>
    arity name args 1 (some 1)
    change id (Object.mapDeque (#[argument args 0] ++ ·))
    return .none
  | "pop" =>
    arity name args 0 (some 0)
    match (← itemsOf id).back? with
    | some v =>
      change id (Object.mapDeque Array.pop)
      return v
    | none => fault (.index "pop from an empty deque")
  | "popleft" =>
    arity name args 0 (some 0)
    match (← itemsOf id)[0]? with
    | some v =>
      change id (Object.mapDeque (·.eraseIdxIfInBounds 0))
      return v
    | none => fault (.index "pop from an empty deque")
  | "extend" =>
    arity name args 1 (some 1)
    let new ← r.collect (argument args 0)
    change id (Object.mapDeque (· ++ new))
    return .none
  | "extendleft" =>
    arity name args 1 (some 1)
    let new ← r.collect (argument args 0)
    change id (Object.mapDeque (new.reverse ++ ·))
    return .none
  | "clear" =>
    arity name args 0 (some 0)
    change id (Object.mapDeque fun _ => #[])
    return .none
  | "rotate" =>
    arity name args 0 (some 1)
    let n ← match args with
      | v :: _ => intParameter name v
      | [] => pure 1
    change id (Object.mapDeque (rotated · n))
    return .none
  | _ => noMethod "deque" name

end Interp

end StepTrace
