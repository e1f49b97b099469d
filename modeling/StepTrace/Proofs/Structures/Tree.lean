import StepTrace.Proofs.Copies
import StepTrace.Proofs.Structures.Fields
import StepTrace.View.Tree

/-!
Trees on the heap, and the trees that are drawn for them. A copy of the root has every node in it if
there are enough levels: one for every node on a branch of a binary tree, and two where the children
of a node are in a sequence of their own.
-/

set_option autoImplicit false

namespace StepTrace

/-! ### Drawn trees -/

namespace Tree

mutual

-- A tree without the texts of its nodes.
def unlabeled : Tree → Tree
  | node n children => node ⟨n.id, ""⟩ (unlabeledAll children)
  | t => t

def unlabeledAll : List Tree → List Tree
  | [] => []
  | t :: rest => t.unlabeled :: unlabeledAll rest

end

mutual

-- No branch of a tree ends at a mark or at a text.
def Whole : Tree → Prop
  | node _ children => WholeAll children
  | empty => True
  | cycle _ | leaf _ => False

def WholeAll : List Tree → Prop
  | [] => True
  | t :: rest => t.Whole ∧ WholeAll rest

end

/-- A tree has the nodes of `shape`, as many as there should be, and nothing but nodes. -/
structure Portrays (t shape : Tree) (count : Nat) : Prop where
  same : t.unlabeled = shape
  count : t.nodeCount = count
  whole : t.Whole

structure PortrayAll (ts shapes : List Tree) (count : Nat) : Prop where
  same : unlabeledAll ts = shapes
  count : nodeCounts ts = count
  whole : WholeAll ts

theorem PortrayAll.node {ts shapes : List Tree} {count : Nat} (all : PortrayAll ts shapes count)
    (n : Node) : (node n ts).Portrays (.node ⟨n.id, ""⟩ shapes) (1 + count) where
  same := by rw [unlabeled, all.same]
  count := by rw [nodeCount, all.count]
  whole := by
    rw [Whole]
    exact all.whole

theorem PortrayAll.nil : PortrayAll [] [] 0 := ⟨rfl, rfl, trivial⟩

theorem PortrayAll.cons {t shape : Tree} {ts shapes : List Tree} {m n : Nat}
    (first : t.Portrays shape m) (others : PortrayAll ts shapes n) :
    PortrayAll (t :: ts) (shape :: shapes) (m + n) where
  same := by rw [unlabeledAll, first.same, others.same]
  count := by rw [nodeCounts, first.count, others.count]
  whole := ⟨first.whole, others.whole⟩

theorem isEmpty_unlabeled (t : Tree) : t.unlabeled.isEmpty = t.isEmpty := by
  cases t <;> simp [unlabeled, isEmpty]

end Tree

theorem no_way_back {r : ObjId → ObjId → Prop} {id : ObjId} (acc : Acc (fun b a => r a b) id) :
    ¬ Relation.TransGen r id id := by
  induction acc with
  | intro a _ ih =>
    intro loop
    obtain ⟨b, step, back⟩ := Relation.TransGen.head'_iff.1 loop
    exact ih b step (.tail' back step)

/-! ### Binary trees -/

namespace Heap

-- What is on a side of a node; a field that is missing counts as one with nothing in it.
def side (h : Heap) (id : ObjId) (name : String) : Value := (h.field? id name).getD .none

def Side (h : Heap) (a b : ObjId) : Prop :=
  h.side a leftField = .ref b ∨ h.side a rightField = .ref b

-- The tree in the field of a copy is that of the field's value.
theorem ofField_capture {h : Heap} {id : ObjId} {room : Nat} {path : List ObjId}
    {fields : List (String × Snapshot)} {name : String}
    (lookup : fields.lookup name = (h.field? id name).map (h.captureWithin (room + 1) path))
    (branching : Branching) (seen : List String) :
    Tree.ofField branching seen name fields =
      Tree.ofSnapshot branching seen (h.captureWithin (room + 1) path (h.side id name)) := by
  rw [Tree.ofField_eq, lookup, side]
  cases h.field? id name <;> rfl

end Heap

/-- A binary tree of objects. -/
inductive BinaryTree
  | missing
  | node (id : ObjId) (left right : BinaryTree)

namespace BinaryTree

-- The nodes, every one as often as there are ways to it.
def size : BinaryTree → Nat
  | missing => 0
  | node _ left right => 1 + (left.size + right.size)

-- A node is at a depth of a tree.
def At : BinaryTree → Nat → ObjId → Prop
  | missing, _, _ => False
  | node id _ _, 0, n => n = id
  | node _ left right, depth + 1, n => left.At depth n ∨ right.At depth n

/-- The tree stands on the heap at a value. -/
def In (h : Heap) : BinaryTree → Value → Prop
  | missing, v => v = .none
  | node id left right, v => v = .ref id ∧ (∃ i, h.get? id = some (.instance i)) ∧
      left.In h (h.side id leftField) ∧ right.In h (h.side id rightField)

/-- How a tree should be drawn: a node with one child has an empty side, a leaf has no sides. -/
def drawn : BinaryTree → Tree
  | missing => .empty
  | node id missing missing => .node ⟨toString id, ""⟩ []
  | node id left right => .node ⟨toString id, ""⟩ [left.drawn, right.drawn]

theorem isEmpty_drawn (t : BinaryTree) : t.drawn.isEmpty = true ↔ t = missing := by
  cases t with
  | missing => simp [drawn, Tree.isEmpty]
  | node id left right => cases left <;> cases right <;> simp [drawn, Tree.isEmpty]

theorem portrayed_sides {l r : Tree} {left right : BinaryTree}
    (hl : l.Portrays left.drawn left.size) (hr : r.Portrays right.drawn right.size) (id : ObjId)
    (label : String) :
    (Tree.node ⟨toString id, label⟩ (Tree.sides l r)).Portrays (node id left right).drawn
      (node id left right).size := by
  have emptyLeft := isEmpty_drawn left
  have emptyRight := isEmpty_drawn right
  rw [← hl.same, Tree.isEmpty_unlabeled] at emptyLeft
  rw [← hr.same, Tree.isEmpty_unlabeled] at emptyRight
  by_cases bare : left = missing ∧ right = missing
  next =>
    obtain ⟨rfl, rfl⟩ := bare
    have none : Tree.sides l r = [] := by simp [Tree.sides, emptyLeft, emptyRight]
    rw [none]
    exact Tree.PortrayAll.nil.node _
  next =>
    have sides : Tree.sides l r = [l, r] := by
      simp only [Tree.sides, Bool.and_eq_true, emptyLeft, emptyRight, bare, if_false]
    have both : (node id left right).drawn =
        .node ⟨toString id, ""⟩ [left.drawn, right.drawn] := by
      rw [drawn]
      simpa using bare
    rw [sides, both]
    exact (Tree.PortrayAll.cons hl (.cons hr .nil)).node _

variable {h : Heap}

-- A tree is finite, so no way down from its root comes back.
theorem In.acc {t : BinaryTree} {v : Value} (stands : t.In h v) {id : ObjId} (here : v = .ref id) :
    Acc (fun b a => h.Side a b) id := by
  induction t generalizing v id with
  | missing =>
    rw [In] at stands
    rw [stands] at here
    cases here
  | node n left right ihl ihr =>
    obtain ⟨rfl, -, hl, hr⟩ := stands
    cases here
    constructor
    rintro b (side | side)
    · exact ihl hl side
    · exact ihr hr side

theorem In.portrayed {t : BinaryTree} {v : Value} (stands : t.In h v) {room : Nat}
    (deep : ∀ depth n, t.At depth n → depth < room) {path : List ObjId} {seen : List String}
    (above : Above h.Side path v) (known : seen ⊆ path.map toString) :
    (Tree.ofSnapshot .sides seen (h.captureWithin (room + 1) path v)).Portrays
      t.drawn t.size := by
  induction t generalizing v room path seen with
  | missing =>
    obtain rfl : v = .none := stands
    exact ⟨rfl, rfl, trivial⟩
  | node id left right ihl ihr =>
    have acc : v = .ref id → Acc (fun b a => h.Side a b) id := stands.acc
    obtain ⟨rfl, ⟨i, found⟩, hl, hr⟩ := stands
    have fresh := above.fresh (no_way_back (acc rfl))
    have root : 0 < room := deep 0 id rfl
    obtain ⟨room, rfl⟩ := Nat.exists_eq_add_of_le' root
    have below : ∀ depth n, left.At depth n ∨ right.At depth n → depth < room := by
      intro depth n here
      have := deep (depth + 1) n here
      omega
    have l := ihl hl (fun depth n here => below depth n (.inl here)) (above.step fun b => .inl)
      (List.cons_subset_cons _ known)
    have r := ihr hr (fun depth n here => below depth n (.inr here)) (above.step fun b => .inr)
      (List.cons_subset_cons _ known)
    obtain ⟨fields, copy, lookup⟩ := Heap.captureWithin_instance fresh (room + 1) found
    rw [copy, Tree.ofSnapshot, if_neg (by simpa using unseen fresh known)]
    rw [Heap.ofField_capture (lookup _ (Heap.visible _ (by simp))),
      Heap.ofField_capture (lookup _ (Heap.visible _ (by simp)))]
    exact portrayed_sides l r id _

end BinaryTree

/-! ### Trees with any number of children -/

namespace Heap

-- From a node to its children there are two steps: one to their sequence, one to an item.
def Child (h : Heap) (a b : ObjId) : Prop :=
  h.field? a childrenField = some (.ref b) ∨ ∃ items, h.sequence? a = some items ∧ .ref b ∈ items

variable {h : Heap} {a b c : ObjId}

-- An object has fields or items, so a node leads to its sequence only.
theorem child_of_field (field : h.field? a childrenField = some (.ref c)) (child : h.Child a b) :
    b = c := by
  rcases child with field' | ⟨items, listed, -⟩
  · rw [field] at field'
    cases field'
    rfl
  · rw [field?_of_collection? (collection?_of_sequence? listed)] at field
    cases field

theorem child_of_sequence {items : List Value} (listed : h.sequence? a = some items)
    (child : h.Child a b) : .ref b ∈ items := by
  rcases child with field | ⟨items', listed', here⟩
  · rw [field?_of_collection? (collection?_of_sequence? listed)] at field
    cases field
  · rw [listed] at listed'
    cases listed'
    exact here

end Heap

/-- A tree of objects with any number of children. -/
inductive RoseTree
  | node (id : ObjId) (children : List RoseTree)

namespace RoseTree

mutual

-- The nodes, every one as often as there are ways to it.
def size : RoseTree → Nat
  | node _ children => 1 + sizes children

def sizes : List RoseTree → Nat
  | [] => 0
  | t :: rest => t.size + sizes rest

end

mutual

-- A node is at a depth of a tree.
def At : RoseTree → Nat → ObjId → Prop
  | node id _, 0, n => n = id
  | node _ children, depth + 1, n => AnyAt children depth n

def AnyAt : List RoseTree → Nat → ObjId → Prop
  | [], _, _ => False
  | t :: rest, depth, n => t.At depth n ∨ AnyAt rest depth n

end

mutual

/-- The tree stands on the heap at a value. -/
def In (h : Heap) : RoseTree → Value → Prop
  | node id children, v => v = .ref id ∧ ∃ c items, h.field? id childrenField = some (.ref c) ∧
      h.sequence? c = some items ∧ AllIn h children items

def AllIn (h : Heap) : List RoseTree → List Value → Prop
  | [], items => items = []
  | t :: rest, items => ∃ v others, items = v :: others ∧ t.In h v ∧ AllIn h rest others

end

mutual

/-- How a tree should be drawn. -/
def drawn : RoseTree → Tree
  | node id children => .node ⟨toString id, ""⟩ (drawnAll children)

def drawnAll : List RoseTree → List Tree
  | [] => []
  | t :: rest => t.drawn :: drawnAll rest

end

variable {h : Heap}

mutual

theorem In.acc (t : RoseTree) {id : ObjId} (stands : t.In h (.ref id)) :
    Acc (fun b a => h.Child a b) id := by
  obtain ⟨n, children⟩ := t
  obtain ⟨here, c, items, field, listed, all⟩ := stands
  cases here
  refine ⟨id, fun b child => ?_⟩
  obtain rfl := Heap.child_of_field field child
  exact ⟨b, fun b child => AllIn.acc children all (Heap.child_of_sequence listed child)⟩

theorem AllIn.acc (ts : List RoseTree) {items : List Value} (all : AllIn h ts items) {id : ObjId}
    (here : .ref id ∈ items) : Acc (fun b a => h.Child a b) id := by
  cases ts with
  | nil =>
    rw [AllIn] at all
    rw [all] at here
    cases here
  | cons t rest =>
    obtain ⟨v, others, rfl, first, others⟩ := all
    rcases List.mem_cons.1 here with rfl | here
    · exact In.acc t first
    · exact AllIn.acc rest others here

end

mutual

theorem In.portrayed (t : RoseTree) {v : Value} (stands : t.In h v) {room : Nat}
    (deep : ∀ depth n, t.At depth n → 2 * depth + 2 ≤ room) {path : List ObjId}
    {seen : List String} (above : Above h.Child path v) (known : seen ⊆ path.map toString) :
    (Tree.ofSnapshot .children seen (h.captureWithin room path v)).Portrays t.drawn t.size := by
  obtain ⟨id, children⟩ := t
  have acc : v = .ref id → Acc (fun b a => h.Child a b) id := by
    rintro rfl
    exact In.acc _ stands
  obtain ⟨rfl, c, items, field, listed, all⟩ := stands
  have acc := acc rfl
  have fresh := above.fresh (no_way_back acc)
  have child : h.Child id c := .inl field
  have aboveList : Above h.Child (id :: path) (.ref c) := above.step fun b same => by
    cases same
    exact child
  have freshList := aboveList.fresh (no_way_back (acc.inv child))
  -- one level is for the node and one for the sequence of its children
  have root : 2 ≤ room := deep 0 id rfl
  obtain ⟨room, rfl⟩ := Nat.exists_eq_add_of_le' root
  have below : ∀ depth n, AnyAt children depth n → 2 * depth + 2 ≤ room := by
    intro depth n here
    have := deep (depth + 1) n here
    omega
  have aboveItems : ∀ v ∈ items, Above h.Child (c :: id :: path) v := by
    intro v here
    exact aboveList.step fun b same => .inr ⟨items, listed, same ▸ here⟩
  have portrayed := AllIn.portrayed children all below aboveItems
    (List.subset_cons_of_subset _ (List.cons_subset_cons _ known))
  obtain ⟨i, found⟩ := Heap.exists_instance_of_field? field
  obtain ⟨fields, copy, lookup⟩ := Heap.captureWithin_instance fresh (room + 1) found
  have itemsCopy : (fields.lookup childrenField).bind Snapshot.sequenceItems? =
      some (items.map (h.captureWithin room (c :: id :: path))) := by
    rw [lookup _ (Heap.visible _ (by simp)), field]
    exact Heap.sequenceItems?_capture freshList room listed
  rw [copy, Tree.ofSnapshot, if_neg (by simpa using unseen fresh known)]
  rw [Tree.ofChildren_eq, itemsCopy]
  exact portrayed.node _

theorem AllIn.portrayed (ts : List RoseTree) {items : List Value} (all : AllIn h ts items)
    {room : Nat} (deep : ∀ depth n, AnyAt ts depth n → 2 * depth + 2 ≤ room)
    {path : List ObjId} {seen : List String} (above : ∀ v ∈ items, Above h.Child path v)
    (known : seen ⊆ path.map toString) :
    Tree.PortrayAll (Tree.ofItems .children seen (items.map (h.captureWithin room path)))
      (drawnAll ts) (sizes ts) := by
  cases ts with
  | nil =>
    obtain rfl : items = [] := all
    exact .nil
  | cons t rest =>
    obtain ⟨v, others, rfl, first, others⟩ := all
    obtain ⟨aboveFirst, aboveOthers⟩ := List.forall_mem_cons.1 above
    have here := In.portrayed t first (fun depth n here => deep depth n (.inl here)) aboveFirst
      known
    have behind := AllIn.portrayed rest others (fun depth n here => deep depth n (.inr here))
      aboveOthers known
    exact .cons here behind

end

end RoseTree

/--
The tree of the copy of a tree has the nodes of it in their places and nothing else: no branch is
cut. A node of a binary tree takes one level, and one in a sequence of children takes two.
-/
theorem trees_survive_copying (h : Heap) (maxDepth : Nat) :
    (∀ (t : BinaryTree) v, t.In h v → (∀ depth n, t.At depth n → depth < maxDepth) →
      (Tree.ofSnapshot .sides [] (h.capture maxDepth v)).Portrays t.drawn t.size) ∧
    (∀ (t : RoseTree) v, t.In h v → (∀ depth n, t.At depth n → 2 * depth + 1 ≤ maxDepth) →
      (Tree.ofSnapshot .children [] (h.capture maxDepth v)).Portrays t.drawn t.size) := by
  constructor
  · intro t v stands deep
    exact stands.portrayed deep (.nil v) (List.nil_subset _)
  · intro t v stands deep
    have room : ∀ depth n, t.At depth n → 2 * depth + 2 ≤ maxDepth + 1 := by
      intro depth n here
      have := deep depth n here
      omega
    exact RoseTree.In.portrayed t stands room (.nil v) (List.nil_subset _)

theorem trees_survive_copying_one_child :
    let h : Heap :=
      { objects := #[.class ⟨"Node", none, none, .empty⟩,
          .instance ⟨0, { entries := #[("left", .none), ("right", .ref 2)] }⟩,
          .instance ⟨0, { entries := #[("left", .none), ("right", .none)] }⟩,
          .instance ⟨0, { entries := #[("children", .ref 5)] }⟩,
          .instance ⟨0, { entries := #[("children", .ref 6)] }⟩,
          .list ⟨#[.ref 4], none⟩, .list ⟨#[], none⟩]
        limit := 7 }
    (Tree.ofSnapshot .sides [] (h.capture 2 (.ref 1))).unlabeled =
        .node ⟨"1", ""⟩ [.empty, .node ⟨"2", ""⟩ []] ∧
      (Tree.ofSnapshot .children [] (h.capture 3 (.ref 3))).unlabeled =
        .node ⟨"3", ""⟩ [.node ⟨"4", ""⟩ []] := by
  intro h
  have binary : (BinaryTree.node 1 .missing (.node 2 .missing .missing)).In h (.ref 1) := by
    simp [h, BinaryTree.In, Heap.side, Heap.field?, Heap.get?, Ordered.get?, leftField, rightField]
  have rose : (RoseTree.node 3 [.node 4 []]).In h (.ref 3) := by
    simp [h, RoseTree.In, RoseTree.AllIn, Heap.field?, Heap.sequence?, Heap.get?, Ordered.get?,
      Object.sequenceItems?, childrenField]
  have shallow : ∀ depth n, (BinaryTree.node 1 .missing (.node 2 .missing .missing)).At depth n →
      depth < 2 := by
    rintro (_ | _ | depth) n <;> simp [BinaryTree.At]
  have shallow' : ∀ depth n, (RoseTree.node 3 [.node 4 []]).At depth n → 2 * depth + 1 ≤ 3 := by
    rintro (_ | _ | depth) n <;> simp [RoseTree.At, RoseTree.AnyAt]
  exact ⟨((trees_survive_copying h 2).1 _ _ binary shallow).same,
    ((trees_survive_copying h 3).2 _ _ rose shallow').same⟩

end StepTrace
