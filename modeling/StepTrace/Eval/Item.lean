import StepTrace.Attribute
import StepTrace.Eval.Protocol

/-!
Elements, slices and attributes of values: reading, writing and removing them. Only reads and
writes of a single element of a tracked list are noted.
-/

set_option autoImplicit false

namespace StepTrace

open Run

/-- A list with an element replaced. -/
def ListObject.set (l : ListObject) (i : Nat) (v : Value) : ListObject :=
  { l with items := l.items.setIfInBounds i v }

/-- A list object changed; other objects stay. -/
def Object.mapList (f : ListObject → ListObject) : Object → Object
  | .list l => .list (f l)
  | o => o

def Object.mapDeque (f : Array Value → Array Value) : Object → Object
  | .deque items => .deque (f items)
  | o => o

def Object.mapDict (f : DictObject → DictObject) : Object → Object
  | .dict d => .dict (f d)
  | o => o

def Object.mapSet (f : SetObject → SetObject) : Object → Object
  | .set s => .set (f s)
  | o => o

/-- Changes the fields of an instance or the attributes of a class. -/
def Object.mapAttrs (f : Namespace → Namespace) : Object → Object
  | .instance i => .instance { i with fields := f i.fields }
  | .class c => .class { c with attrs := f c.attrs }
  | o => o

def Run.changeItems (id : ObjId) (f : Array Value → Array Value) : Run Unit :=
  change id (Object.mapList fun l => { l with items := f l.items })

def Slice.select {α : Type} (s : Slice) (items : Array α) : Array α :=
  (s.indices.filterMap fun i => items[i]?).toArray

/-- The items with those that a slice selects replaced one by one. -/
def Slice.replace (s : Slice) (items new : Array Value) : Array Value :=
  (s.indices.zip new.toList).foldl (fun items (i, v) => items.setIfInBounds i v) items

def Slice.remove (s : Slice) (items : Array Value) : Array Value :=
  let kept := s.indices.foldl (fun kept i => kept.setIfInBounds i false)
    (Array.replicate items.size true)
  (items.zip kept).filterMap fun (v, keep) => if keep then some v else none

/-- The items with the ones from `i` to `i + count` replaced by others. -/
def spliced (items : Array Value) (i count : Nat) (new : Array Value) : Array Value :=
  items.extract 0 i ++ new ++ items.extract (i + count) items.size

namespace Interp

def indexOf (container : String) (v : Value) : Run Int64 := do
  match v.int? with
  | some i => return i
  | none => faultOn fun h => .notAnIndex container (h.typeName v)

/-- An element at an index that has to be inside. -/
def inside (container : String) (found : Option Value) : Run Value :=
  match found with
  | some v => return v
  | none => fault (.outside container)

def note (kind : AccessKind) (l : ListObject) (i : Int64) : Run Unit :=
  match l.tracker with
  | some id => access kind id l.items.size i
  | none => return

/-- The value under a key; a dictionary with a factory makes missing ones. -/
def getEntry (r : Interp) (id : ObjId) (d : DictObject) (index : Value) : Run Value := do
  let key ← keyOf index
  match d.get? key with
  | some v => return v
  | none =>
    match d.factory with
    | none | some .none => faultOn fun h => .missingKey (h.repr index)
    | some factory =>
      let v ← r.call factory [] []
      change id (Object.mapDict fun d => d.insert key index v)
      return v

/-- `object[index]` -/
def getItem (r : Interp) (object index : Value) : Run Value := do
  let refused : Run Value := faultOn fun h => .notSubscriptable (h.typeName object)
  match object with
  | .str s =>
    let i ← indexOf "string" index
    let cs := s.toList
    let c? := (position? cs.length i).bind (cs[·]?)
    inside "string" (c?.map fun c => .str (String.singleton c))
  | .ref id =>
    match (← heap).get? id with
    | some (.list l) =>
      let i ← indexOf "list" index
      note .read l i
      inside "list" ((position? l.items.size i).bind (l.items[·]?))
    | some (.tuple items) =>
      let i ← indexOf "tuple" index
      inside "tuple" ((position? items.size i).bind (items[·]?))
    | some (.deque items) =>
      let i ← indexOf "deque" index
      inside "deque" ((position? items.size i).bind (items[·]?))
    | some (.range p) =>
      let i ← indexOf "range object" index
      inside "range object" (((position? p.size i).bind p.get?).map .int)
    | some (.dict d) => r.getEntry id d index
    | some (.instance _) =>
      match ← r.special object "__getitem__" [index] with
      | some v => return v
      | none => refused
    | _ => refused
  | _ => refused

/-- `object[index] = value` -/
def setItem (r : Interp) (object index value : Value) : Run Unit := do
  let refused : Run Unit := faultOn fun h => .noItemAssignment (h.typeName object)
  let some id := object.ref? | refused
  match (← heap).get? id with
  | some (.list l) =>
    let i ← indexOf "list" index
    note .write l i
    match position? l.items.size i with
    | some p => changeItems id (·.setIfInBounds p value)
    | none => fault (.outside "list assignment")
  | some (.deque items) =>
    let i ← indexOf "deque" index
    match position? items.size i with
    | some p => change id (Object.mapDeque (·.setIfInBounds p value))
    | none => fault (.outside "deque")
  | some (.dict _) =>
    let key ← keyOf index
    change id (Object.mapDict fun d => d.insert key index value)
  | some (.instance _) =>
    match ← r.special object "__setitem__" [index, value] with
    | some _ => return
    | none => refused
  | _ => refused

/-- `del object[index]` -/
def deleteItem (r : Interp) (object index : Value) : Run Unit := do
  let refused : Run Unit := faultOn fun h => .noItemDeletion (h.typeName object)
  let some id := object.ref? | refused
  match (← heap).get? id with
  | some (.list l) =>
    let i ← indexOf "list" index
    match position? l.items.size i with
    | some p => changeItems id (·.eraseIdxIfInBounds p)
    | none => fault (.outside "list assignment")
  | some (.deque items) =>
    let i ← indexOf "deque" index
    match position? items.size i with
    | some p => change id (Object.mapDeque (·.eraseIdxIfInBounds p))
    | none => fault (.outside "deque")
  | some (.dict d) =>
    let key ← keyOf index
    if (d.get? key).isSome then change id (Object.mapDict (·.erase key))
    else faultOn fun h => .missingKey (h.repr index)
  | some (.instance _) =>
    match ← r.special object "__delitem__" [index] with
    | some _ => return
    | none => refused
  | _ => refused

/-- The positions that bounds select among `n` items. -/
def sliceOf (n : Nat) (b : SliceBounds) : Run Slice :=
  match Slice.of? n b with
  | some s => return s
  | none => fault .sliceStep

/-- A bound of a slice, which may be missing. -/
def sliceBound (r : Interp) : Option Expr → Run (Option Int64)
  | none => return none
  | some e => do
    match ← r.eval e with
    | .none => return none
    | v =>
      match v.int? with
      | some i => return some i
      | none => fault .notASliceIndex

def sliceBounds (r : Interp) (lower upper step : Option Expr) : Run SliceBounds := do
  return ⟨← r.sliceBound lower, ← r.sliceBound upper, ← r.sliceBound step⟩

/-- `object[lower:upper:step]` -/
def getSlice (object : Value) (b : SliceBounds) : Run Value := do
  match object with
  | .str s =>
    let cs := s.toList.toArray
    let slice ← sliceOf cs.size b
    return .str (String.ofList (slice.select cs).toList)
  | object =>
    match ← deref? object with
    | some (.list l) => do
      let slice ← sliceOf l.items.size b
      allocList (slice.select l.items)
    | some (.tuple items) => do
      let slice ← sliceOf items.size b
      allocTuple (slice.select items)
    | some (.range p) => do
      let slice ← sliceOf p.size b
      let step := p.step * Int64.ofInt slice.step
      let start := p.start + Int64.ofInt slice.start * p.step
      alloc (.range ⟨start, start + step * Int64.ofNat slice.count, step⟩)
    | _ => faultOn fun h => .notSubscriptable (h.typeName object)

/-- The list that a slice is written to. -/
def listOf (object : Value) : Run (ObjId × ListObject) := do
  match object, ← deref? object with
  | .ref id, some (.list l) => return (id, l)
  | _, _ => faultOn fun h => .noItemAssignment (h.typeName object)

/-- `object[lower:upper:step] = value` -/
def setSlice (r : Interp) (object : Value) (b : SliceBounds) (value : Value) : Run Unit := do
  let (id, _) ← listOf object
  let new ← r.collect value
  let (_, l) ← listOf object
  let slice ← sliceOf l.items.size b
  if slice.step = 1 then changeItems id fun items => spliced items slice.start.toNat slice.count new
  else if new.size = slice.count then changeItems id fun items => slice.replace items new
  else fault (.sliceLength new.size slice.count)

/-- `del object[lower:upper:step]` -/
def deleteSlice (object : Value) (b : SliceBounds) : Run Unit := do
  let (id, l) ← listOf object
  let slice ← sliceOf l.items.size b
  changeItems id slice.remove

/-- `object.name` -/
def getAttr (object : Value) (name : String) : Run Value := do
  settle (← check ((← heap).attr object name))

/-- The error for an attribute that cannot be changed. -/
def noAttr (object : Value) (name : String) : Run Unit :=
  faultOn fun h => .noAttributeOf (h.typeName object) name

/-- `object.name = value` -/
def setAttr (object : Value) (name : String) (value : Value) : Run Unit := do
  match object, ← deref? object with
  | .ref id, some (.instance _) | .ref id, some (.class _) =>
    change id (Object.mapAttrs (·.insert name value))
  | _, _ => noAttr object name

/-- `del object.name` -/
def deleteAttr (object : Value) (name : String) : Run Unit := do
  let erase := fun (id : ObjId) (attrs : Namespace) =>
    if attrs.contains name then change id (Object.mapAttrs (·.erase name)) else noAttr object name
  match object, ← deref? object with
  | .ref id, some (.instance i) => erase id i.fields
  | .ref id, some (.class c) => erase id c.attrs
  | _, _ => noAttr object name

end Interp

end StepTrace
