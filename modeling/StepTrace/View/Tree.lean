import StepTrace.View.Shape

/-!
Trees of objects. The nodes of a binary tree have a left and a right side, those of any other tree
a sequence of children. A branch ends at a node that is on it already.
-/

set_option autoImplicit false

namespace StepTrace

inductive Tree
  | node (node : Node) (children : List Tree)
  /-- A side without a node. -/
  | empty
  /-- A node that is on the branch already. -/
  | cycle (id : String)
  /-- A child that is no node. -/
  | leaf (text : String)
deriving Inhabited

/-- Where the children of a node are. -/
inductive Branching
  | sides | children
deriving DecidableEq, Repr

namespace Tree

mutual

def nodeCount : Tree → Nat
  | node _ children => 1 + nodeCounts children
  | _ => 0

def nodeCounts : List Tree → Nat
  | [] => 0
  | t :: rest => t.nodeCount + nodeCounts rest

end

def isEmpty : Tree → Bool
  | empty => true
  | _ => false

/-- The children of a node with two sides: none if both of them are empty. -/
def sides (left right : Tree) : List Tree :=
  if left.isEmpty && right.isEmpty then [] else [left, right]

mutual

/-- The tree of a copy below the nodes of `path`. -/
def ofSnapshot (branching : Branching) (path : List String) : Snapshot → Tree
  | .none => empty
  | .cyclic id => cycle id
  | .object id _ fields =>
    if path.contains id then cycle id
    else
      node ⟨id, (Node.label? fields).getD Node.unlabeled⟩
        (match branching with
        | .sides =>
          sides (ofField branching (id :: path) leftField fields)
            (ofField branching (id :: path) rightField fields)
        | .children => ofChildren branching (id :: path) fields)
  | v => leaf v.label

/-- The tree under a field; there is none under a field that is missing. -/
def ofField (branching : Branching) (path : List String) (name : String) :
    List (String × Snapshot) → Tree
  | [] => empty
  | (k, v) :: rest =>
    if k == name then ofSnapshot branching path v else ofField branching path name rest

def ofChildren (branching : Branching) (path : List String) : List (String × Snapshot) → List Tree
  | [] => []
  | (k, v) :: rest =>
    if k == childrenField then
      match v with
      | .plainList items | .list _ items | .tuple items => ofItems branching path items
      | _ => []
    else ofChildren branching path rest

def ofItems (branching : Branching) (path : List String) : List Snapshot → List Tree
  | [] => []
  | v :: rest => ofSnapshot branching path v :: ofItems branching path rest

end

theorem ofField_eq (branching : Branching) (path : List String) (name : String)
    (fields : List (String × Snapshot)) :
    ofField branching path name fields =
      ofSnapshot branching path ((fields.lookup name).getD .none) := by
  induction fields with
  | nil => simp [ofField, ofSnapshot]
  | cons field rest ih =>
    obtain ⟨k, v⟩ := field
    by_cases same : k = name
    · simp [ofField, same]
    · have other : (name == k) = false := by simpa using Ne.symm same
      simp [ofField, same, List.lookup_cons, other, ih]

theorem ofChildren_eq (branching : Branching) (path : List String)
    (fields : List (String × Snapshot)) :
    ofChildren branching path fields =
      ofItems branching path
        (((fields.lookup childrenField).bind Snapshot.sequenceItems?).getD []) := by
  induction fields with
  | nil => rfl
  | cons field rest ih =>
    obtain ⟨k, v⟩ := field
    by_cases same : k = childrenField
    · cases v <;> simp [ofChildren, same, Snapshot.sequenceItems?, ofItems]
    · have other : (childrenField == k) = false := by simpa using Ne.symm same
      cases v <;> simp [ofChildren, same, List.lookup_cons, other, ih]

end Tree

end StepTrace
