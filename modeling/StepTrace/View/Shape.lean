import StepTrace.Snapshot

/-!
What a copy looks like. Objects are told apart by the names of their fields: the first name that
fits decides. A linked list is the nodes from the first one on, each under the field `next` of the
one before.
-/

set_option autoImplicit false

namespace StepTrace

/-- How a copy is drawn. -/
inductive Shape
  | array | deque | chain | binaryTree | tree | graph | table
  /-- A single value. -/
  | scalar
  /-- Nothing that could be drawn. -/
  | opaqueValue
deriving DecidableEq, Repr

namespace Shape

def isStructural : Shape → Bool
  | scalar | opaqueValue => false
  | _ => true

def label : Shape → String
  | array => "Array"
  | deque => "Deque"
  | chain => "Linked List"
  | binaryTree => "Binary Tree"
  | tree => "Tree"
  | graph => "Graph"
  | table => "Map"
  | scalar => "Value"
  | opaqueValue => "Opaque"

end Shape

/-! ### Fields that tell what an object is -/

def nextField : String := "next"

def leftField : String := "left"

def rightField : String := "right"

def childrenField : String := "children"

/-- The fields that hold the neighbors of a node; the first of these that is there counts. -/
def neighborFields : List String := ["neighbors", "adj", "edges"]

namespace Snapshot

def neighbors? (fields : List (String × Snapshot)) : Option Snapshot :=
  neighborFields.findSome? fun name => fields.lookup name

/-- Whether a mapping gives the neighbors of every key. -/
def isAdjacency (entries : List (String × Snapshot)) : Bool :=
  !entries.isEmpty && entries.all fun (_, v) => v.sequenceItems?.isSome

def objectShape (fields : List (String × Snapshot)) : Shape :=
  if (fields.lookup nextField).isSome then .chain
  else if (fields.lookup leftField).isSome || (fields.lookup rightField).isSome then .binaryTree
  else if ((fields.lookup childrenField).bind sequenceItems?).isSome then .tree
  else if (neighbors? fields).isSome then .graph
  else .opaqueValue

def shape : Snapshot → Shape
  | plainList _ | list _ _ | tuple _ | set _ => .array
  | deque _ => .deque
  | object _ _ fields => objectShape fields
  | mapping entries => if isAdjacency entries then .graph else .table
  | cyclic _ => .opaqueValue
  | none | bool _ | int _ | float _ | str _ => .scalar

end Snapshot

/-! ### Nodes of drawn structures -/

/-- A node: the identity of an object, and the text in the node. -/
structure Node where
  id : String
  label : String
deriving DecidableEq, Repr

/-- The fields that hold the text of a node; the first of these that is there counts. -/
def labelFields : List String := ["val", "value", "data"]

def Node.label? (fields : List (String × Snapshot)) : Option String :=
  (labelFields.findSome? fun name => fields.lookup name).map Snapshot.label

def Node.unlabeled : String := "?"

/-! ### Linked lists -/

inductive ChainEnd
  | null
  /-- At a node that has come already. -/
  | cycle (id : String)
  /-- At something that is no node. -/
  | value (text : String)
deriving DecidableEq, Repr

structure Chain where
  nodes : List Node
  finish : ChainEnd
deriving DecidableEq, Repr

namespace Chain

mutual

/-- The chain that starts at a copy; the nodes in `seen` have come already. -/
def ofSnapshot (seen : List String) : Snapshot → Chain
  | .object id _ fields =>
    if seen.contains id then ⟨[], .cycle id⟩
    else
      let rest := ofNext (id :: seen) fields
      { rest with nodes := ⟨id, (Node.label? fields).getD Node.unlabeled⟩ :: rest.nodes }
  | .cyclic id => ⟨[], .cycle id⟩
  | .none => ⟨[], .null⟩
  | v => ⟨[], .value v.text⟩

/-- The chain that starts at the node after one with these fields. -/
def ofNext (seen : List String) : List (String × Snapshot) → Chain
  | [] => ⟨[], .null⟩
  | (k, v) :: rest => if k == nextField then ofSnapshot seen v else ofNext seen rest

end

theorem ofNext_eq (seen : List String) (fields : List (String × Snapshot)) :
    ofNext seen fields =
      match fields.lookup nextField with
      | some v => ofSnapshot seen v
      | none => ⟨[], .null⟩ := by
  induction fields with
  | nil => rfl
  | cons field rest ih =>
    obtain ⟨k, v⟩ := field
    by_cases same : k = nextField
    · simp [ofNext, same]
    · have other : (nextField == k) = false := by simpa using Ne.symm same
      simp [ofNext, same, List.lookup_cons, other, ih]

end Chain

end StepTrace
