import StepTrace.View.Reconstruction

/-!
The structures of copies. A copy has a structure if its shape is one that is drawn, and then the
structure is of the kind that the shape calls for: no part that a builder needs is ever missing.
-/

set_option autoImplicit false

namespace StepTrace

/-! ### Linked lists -/

namespace Chain

-- The nodes of a chain are different from each other and from those that have come before.
structure Fresh (seen : List String) (c : Chain) : Prop where
  distinct : (c.nodes.map Node.id).Nodup
  new : ∀ n ∈ c.nodes, n.id ∉ seen

theorem Fresh.ended (seen : List String) (finish : ChainEnd) : Fresh seen ⟨[], finish⟩ :=
  ⟨.nil, List.forall_mem_nil _⟩

theorem Fresh.cons {seen : List String} {rest : Chain} {n : Node} (first : n.id ∉ seen)
    (fresh : Fresh (n.id :: seen) rest) : Fresh seen { rest with nodes := n :: rest.nodes } where
  distinct := by
    rw [List.map_cons, List.nodup_cons, List.mem_map]
    refine ⟨?_, fresh.distinct⟩
    rintro ⟨m, here, same⟩
    exact fresh.new m here (same ▸ List.mem_cons_self)
  new := by
    rw [List.forall_mem_cons]
    exact ⟨first, fun m here old => fresh.new m here (List.mem_cons_of_mem _ old)⟩

mutual

theorem fresh_ofSnapshot (seen : List String) (v : Snapshot) : Fresh seen (ofSnapshot seen v) := by
  cases v with
  | object id cls fields =>
    rw [ofSnapshot]
    split
    next => exact .ended seen _
    next unseen =>
      have first : id ∉ seen := by simpa using unseen
      exact (fresh_ofNext (id :: seen) fields).cons (n := ⟨id, _⟩) first
  | _ => exact .ended seen _

theorem fresh_ofNext (seen : List String) (fields : List (String × Snapshot)) :
    Fresh seen (ofNext seen fields) := by
  match fields with
  | [] => exact .ended seen _
  | (k, v) :: rest =>
    rw [ofNext]
    split
    next => exact fresh_ofSnapshot seen v
    next => exact fresh_ofNext seen rest

end

end Chain

/-! ### Trees -/

namespace Tree

/-- The nodes on a way from the root of a tree to one of its ends. -/
inductive Branch : Tree → List String → Prop
  | last (n : Node) : Branch (node n []) [n.id]
  | down (n : Node) {children : List Tree} {t : Tree} {ids : List String} (child : t ∈ children)
    (below : Branch t ids) : Branch (node n children) (n.id :: ids)
  | empty : Branch empty []
  | cycle (id : String) : Branch (cycle id) []
  | leaf (text : String) : Branch (leaf text) []

-- On no branch is a node twice, or one of the nodes above the tree.
def Fresh (path : List String) (t : Tree) : Prop :=
  ∀ ids, t.Branch ids → ids.Nodup ∧ ∀ id ∈ ids, id ∉ path

variable {path : List String}

theorem Fresh.empty : Fresh path empty := by
  rintro _ ⟨⟩
  simp

theorem Fresh.cycle (id : String) : Fresh path (cycle id) := by
  rintro _ ⟨⟩
  simp

theorem Fresh.leaf (text : String) : Fresh path (leaf text) := by
  rintro _ ⟨⟩
  simp

theorem Fresh.node {n : Node} {children : List Tree} (first : n.id ∉ path)
    (below : ∀ t ∈ children, Fresh (n.id :: path) t) : Fresh path (node n children) := by
  intro _ branch
  cases branch with
  | last => simpa using first
  | down _ child branch =>
    obtain ⟨distinct, new⟩ := below _ child _ branch
    refine ⟨List.nodup_cons.2 ⟨fun here => new _ here List.mem_cons_self, distinct⟩, ?_⟩
    rw [List.forall_mem_cons]
    exact ⟨first, fun id here old => new id here (List.mem_cons_of_mem _ old)⟩

theorem mem_sides {left right t : Tree} (here : t ∈ sides left right) : t = left ∨ t = right := by
  unfold sides at here
  split at here
  next => cases here
  next => simpa using here

mutual

theorem fresh_ofSnapshot (branching : Branching) (path : List String) (v : Snapshot) :
    Fresh path (ofSnapshot branching path v) := by
  cases v with
  | none => exact .empty
  | cyclic id => exact .cycle id
  | object id cls fields =>
    rw [ofSnapshot.eq_def]
    dsimp only
    split
    next => exact .cycle id
    next unseen =>
      refine .node (by simpa using unseen) fun t child => ?_
      cases branching with
      | sides =>
        rcases mem_sides child with rfl | rfl
        · exact fresh_ofField .sides (id :: path) leftField fields
        · exact fresh_ofField .sides (id :: path) rightField fields
      | children => exact fresh_ofChildren .children (id :: path) fields t child
  | _ => exact .leaf _

theorem fresh_ofField (branching : Branching) (path : List String) (name : String)
    (fields : List (String × Snapshot)) : Fresh path (ofField branching path name fields) := by
  match fields with
  | [] => exact .empty
  | (k, v) :: rest =>
    rw [ofField]
    split
    next => exact fresh_ofSnapshot branching path v
    next => exact fresh_ofField branching path name rest

theorem fresh_ofChildren (branching : Branching) (path : List String)
    (fields : List (String × Snapshot)) :
    ∀ t ∈ ofChildren branching path fields, Fresh path t := by
  match fields with
  | [] => exact List.forall_mem_nil _
  | (k, v) :: rest =>
    rw [ofChildren.eq_def]
    dsimp only
    split
    next =>
      cases v with
      | plainList items | list _ items | tuple items => exact fresh_ofItems branching path items
      | _ => exact List.forall_mem_nil _
    next => exact fresh_ofChildren branching path rest

theorem fresh_ofItems (branching : Branching) (path : List String) (items : List Snapshot) :
    ∀ t ∈ ofItems branching path items, Fresh path t := by
  match items with
  | [] => exact List.forall_mem_nil _
  | v :: rest =>
    rw [ofItems, List.forall_mem_cons]
    exact ⟨fresh_ofSnapshot branching path v, fresh_ofItems branching path rest⟩

end

end Tree

/-! ### Graphs -/

theorem Graph.exists_nodes_ofObject (id cls : String) (fields : List (String × Snapshot)) :
    ∃ label others, (ofObject (.object id cls fields)).nodes = ⟨id, label⟩ :: others := by
  rw [ofObject, expansions, if_neg (by simp)]
  simp only [List.flatMap_cons, Expansion.of, List.cons_append, distinct, List.eraseDupsBy_cons]
  exact ⟨_, _, rfl⟩

/-! ### The structure for a shape -/

/-- What is drawn for a copy of a shape: a structure of the kind that the shape calls for. -/
inductive Drawn (v : Snapshot) : Shape → Option Structure → Prop
  | cells {shape : Shape} {items : List Snapshot} {a : ArrayView}
    (row : shape = .array ∨ shape = .deque) (listed : v.items? = some items)
    (texts : a.cells.map Cell.text = items.map Snapshot.text) : Drawn v shape (some (.array a))
  | chain {c : Chain} (filled : c.nodes ≠ []) (distinct : (c.nodes.map Node.id).Nodup) :
    Drawn v .chain (some (.chain c))
  | tree {shape : Shape} {n : Node} {children : List Tree}
    (branching : shape = .binaryTree ∨ shape = .tree) (root : v.identity? = some n.id)
    (distinct : ∀ ids, (Tree.node n children).Branch ids → ids.Nodup) :
    Drawn v shape (some (.tree (.node n children)))
  | graph {g : Graph}
    (first : ∀ id cls fields, v = .object id cls fields → g.nodes.head?.map Node.id = some id) :
    Drawn v .graph (some (.graph g))
  | table {entries : List (String × Snapshot)} (whole : v = .mapping entries) :
    Drawn v .table (some (.table (entries.map fun (k, w) => (k, w.text))))
  | nothing {shape : Shape} (plain : shape.isStructural = false) : Drawn v shape none

section

variable (b : Binding) (before : Option Snapshot) (accesses : List Access)

theorem texts_cellsOf (items old : List Snapshot) (id : Option String) :
    (ArrayView.cellsOf items old id accesses).map Cell.text = items.map Snapshot.text := by
  apply List.ext_getElem <;> simp [ArrayView.cellsOf]

theorem drawn_row {shape : Shape} (row : shape = .array ∨ shape = .deque)
    (has : b.value.shape = shape) {items : List Snapshot} (listed : b.value.items? = some items) :
    Drawn b.value b.value.shape (Structure.of? b before accesses) := by
  have drawn : Structure.of? b before accesses = some (.array (.ofItems (.of b.value) items
      ((before.bind Snapshot.items?).getD []) b.id accesses)) := by
    rcases row with rfl | rfl <;> simp [Structure.of?, has, listed]
  rw [drawn, has]
  exact .cells row listed (texts_cellsOf ..)

theorem drawn_tree {shape : Shape} {branching : Branching} {id cls : String}
    {fields : List (String × Snapshot)} (node : b.value = .object id cls fields)
    (branches : shape = .binaryTree ∨ shape = .tree) (has : b.value.shape = shape)
    (drawn : Structure.of? b before accesses = some (.tree (.ofSnapshot branching [] b.value))) :
    Drawn b.value b.value.shape (Structure.of? b before accesses) := by
  obtain ⟨n, children, root, tree⟩ : ∃ n children, n.id = id ∧
      Tree.ofSnapshot branching [] b.value = .node n children := by
    rw [node, Tree.ofSnapshot.eq_def]
    exact ⟨_, _, rfl, rfl⟩
  have fresh := Tree.fresh_ofSnapshot branching [] b.value
  rw [tree] at fresh
  rw [drawn, tree, has]
  refine .tree branches ?_ fun ids branch => (fresh ids branch).1
  rw [node, root]
  rfl

-- The fields that the classification finds are those that the builders read.
theorem drawn_object {id cls : String} {fields : List (String × Snapshot)}
    (node : b.value = .object id cls fields) :
    Drawn b.value b.value.shape (Structure.of? b before accesses) := by
  have has : b.value.shape = Snapshot.objectShape fields := by rw [node, Snapshot.shape]
  unfold Snapshot.objectShape at has
  split at has
  next =>
    have drawn : Structure.of? b before accesses = some (.chain (.ofSnapshot [] b.value)) := by
      simp [Structure.of?, has]
    rw [drawn, has]
    refine .chain ?_ (Chain.fresh_ofSnapshot [] b.value).distinct
    rw [node, Chain.ofSnapshot]
    simp
  next =>
  split at has
  next => exact drawn_tree b before accesses node (.inl rfl) has (by rw [Structure.of?, has])
  next =>
  split at has
  next => exact drawn_tree b before accesses node (.inr rfl) has (by rw [Structure.of?, has])
  next =>
  split at has
  next neighbors =>
    have drawn : Structure.of? b before accesses = some (.graph (.ofObject b.value)) := by
      rw [Structure.of?, has, node]
      simp [Graph.ofSnapshot?, neighbors]
    rw [drawn, has]
    refine .graph fun id' cls' fields' same => ?_
    obtain ⟨label, others, nodes⟩ := Graph.exists_nodes_ofObject id' cls' fields'
    rw [same, nodes]
    rfl
  next =>
    have drawn : Structure.of? b before accesses = none := by simp [Structure.of?, has]
    rw [drawn, has]
    exact .nothing rfl

theorem drawn_mapping {entries : List (String × Snapshot)} (whole : b.value = .mapping entries) :
    Drawn b.value b.value.shape (Structure.of? b before accesses) := by
  by_cases adjacency : Snapshot.isAdjacency entries = true
  next =>
    have has : b.value.shape = .graph := by rw [whole, Snapshot.shape, if_pos adjacency]
    have drawn : Structure.of? b before accesses = some (.graph (.ofAdjacency entries)) := by
      rw [Structure.of?, has, whole]
      simp [Graph.ofSnapshot?, adjacency]
    rw [drawn, has]
    refine .graph fun id cls fields same => ?_
    rw [whole] at same
    cases same
  next =>
    have has : b.value.shape = .table := by rw [whole, Snapshot.shape, if_neg adjacency]
    have drawn : Structure.of? b before accesses =
        some (.table (entries.map fun (k, w) => (k, w.text))) := by
      rw [Structure.of?, has, whole]
    rw [drawn, has]
    exact .table whole

theorem drawn_of_shape : Drawn b.value b.value.shape (Structure.of? b before accesses) := by
  obtain ⟨typeName, v, id⟩ := b
  cases v with
  | plainList | list | tuple | set => exact drawn_row _ before accesses (.inl rfl) rfl rfl
  | deque => exact drawn_row _ before accesses (.inr rfl) rfl rfl
  | object => exact drawn_object _ before accesses rfl
  | mapping => exact drawn_mapping _ before accesses rfl
  | none | bool | int | float | str | cyclic => exact .nothing rfl

end

theorem Drawn.isSome_iff {v : Snapshot} {shape : Shape} {drawn : Option Structure}
    (h : Drawn v shape drawn) : drawn.isSome = true ↔ shape.isStructural = true := by
  cases h with
  | cells row => rcases row with rfl | rfl <;> simp [Shape.isStructural]
  | tree branching => rcases branching with rfl | rfl <;> simp [Shape.isStructural]
  | nothing plain => simp [plain]
  | _ => simp [Shape.isStructural]

/--
A variable has a structure if and only if its copy has a structural shape, and then it is the one
for the shape: a row of cells with the texts of all items, a list of different nodes, a tree that
begins at the object itself and never comes back to a node on the way down, a graph that begins at
the object itself, or a row for every entry.
-/
theorem structures_agree_with_shapes (b : Binding) (before : Option Snapshot)
    (accesses : List Access) :
    ((Structure.of? b before accesses).isSome = true ↔ b.value.shape.isStructural = true) ∧
      Drawn b.value b.value.shape (Structure.of? b before accesses) :=
  have drawn := drawn_of_shape b before accesses
  ⟨drawn.isSome_iff, drawn⟩

end StepTrace
