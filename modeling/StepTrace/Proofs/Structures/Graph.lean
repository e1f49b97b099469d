import StepTrace.Proofs.Structures.BreadthFirst
import StepTrace.Proofs.Structures.Fields
import StepTrace.View.Graph

/-!
Graphs of objects on the heap, and the graphs that are drawn for them. The copy of a node unfolds
the graph along ways, so that a node is in it many times, with more or fewer neighbors. The search
of the copy expands a node where the copy has all its neighbors, and it is a search of the graph.
-/

set_option autoImplicit false

namespace StepTrace

namespace Heap

-- What an instance has in the first of the fields for neighbors that it has.
def neighbors? (h : Heap) (n : ObjId) : Option Value := neighborFields.findSome? (h.field? n)

def neighbors (h : Heap) (n : ObjId) : List ObjId :=
  match h.neighbors? n with
  | some (.ref c) => ((h.collection? c).getD []).filterMap Value.ref?
  | _ => []

/-- Every node has a collection of its own with its neighbors, and these are nodes too. -/
structure ObjectGraph (h : Heap) (IsNode : ObjId → Prop) : Prop where
  container : ∀ n, IsNode n → ∃ c items, h.neighbors? n = some (.ref c) ∧
    h.collection? c = some items ∧ ∀ v ∈ items, ∃ m, IsNode m ∧ v = .ref m
  own : ∀ n m c, IsNode n → IsNode m → h.neighbors? n = some (.ref c) →
    h.neighbors? m = some (.ref c) → n = m

variable {h : Heap} {IsNode : ObjId → Prop}

theorem neighbors?_capture {n : ObjId} {f : Value → Snapshot} {fields : List (String × Snapshot)}
    (lookup : ∀ name, name.startsWith "__" = false →
      fields.lookup name = (h.field? n name).map f) :
    Snapshot.neighbors? fields = (h.neighbors? n).map f := by
  have visible : ∀ name ∈ neighborFields, fields.lookup name = (h.field? n name).map f :=
    fun name known => lookup name (Heap.visible name (List.mem_append_right _ known))
  rw [Snapshot.neighbors?, neighbors?, List.map_findSome?]
  generalize neighborFields = names at visible ⊢
  induction names with
  | nil => rfl
  | cons name rest ih =>
    obtain ⟨first, others⟩ := List.forall_mem_cons.1 visible
    simp only [List.findSome?_cons, first, ih others, Function.comp_apply]

theorem refs_of_all {items : List Value} (all : ∀ v ∈ items, ∃ m, IsNode m ∧ v = .ref m) :
    items = (items.filterMap Value.ref?).map .ref ∧
      ∀ m ∈ items.filterMap Value.ref?, IsNode m := by
  constructor
  · induction items with
    | nil => rfl
    | cons v rest ih =>
      obtain ⟨⟨m, -, rfl⟩, others⟩ := List.forall_mem_cons.1 all
      exact congrArg (Value.ref m :: ·) (ih others)
  · intro m here
    obtain ⟨v, listed, same⟩ := List.mem_filterMap.1 here
    obtain ⟨_, node, rfl⟩ := all v listed
    cases same
    exact node

namespace ObjectGraph

variable {n c : ObjId} (graph : h.ObjectGraph IsNode) (node : IsNode n)
include graph node

theorem members : ∃ c, h.neighbors? n = some (.ref c) ∧
    h.collection? c = some ((h.neighbors n).map .ref) ∧ ∀ m ∈ h.neighbors n, IsNode m := by
  obtain ⟨c, items, container, listed, all⟩ := graph.container n node
  obtain ⟨same, nodes⟩ := refs_of_all all
  have neighbors : h.neighbors n = items.filterMap Value.ref? := by
    simp [Heap.neighbors, container, listed]
  rw [neighbors]
  exact ⟨c, container, listed.trans (congrArg some same), nodes⟩

theorem has_field : ∃ name v, h.field? n name = some v := by
  obtain ⟨c, container, -⟩ := graph.members node
  obtain ⟨name, -, field⟩ := List.exists_of_findSome?_eq_some container
  exact ⟨name, _, field⟩

theorem not_node (container : h.neighbors? n = some (.ref c)) : ¬ IsNode c := by
  intro node'
  obtain ⟨name, v, field⟩ := graph.has_field node'
  obtain ⟨c', container', listed, -⟩ := graph.members node
  rw [container] at container'
  cases container'
  rw [field?_of_collection? listed] at field
  cases field

end ObjectGraph

/-! ### Where the nodes are in a copy -/

-- Around a copy there are expanded nodes and their collections, which no other node has.
inductive Trail (h : Heap) (IsNode : ObjId → Prop) (done : List ObjId) : List ObjId → Prop
  | root : Trail h IsNode done []
  | step {path : List ObjId} {n c : ObjId} (before : Trail h IsNode done path) (node : IsNode n)
    (past : n ∈ done) (container : h.neighbors? n = some (.ref c)) :
    Trail h IsNode done (c :: n :: path)

namespace Trail

variable {done path : List ObjId} {n c : ObjId}

theorem mono (trail : Trail h IsNode done path) (more : List ObjId) :
    Trail h IsNode (done ++ more) path := by
  induction trail with
  | root => exact .root
  | step _ node past container ih => exact .step ih node (List.mem_append_left _ past) container

theorem expanded (trail : Trail h IsNode done path) (graph : h.ObjectGraph IsNode)
    (node : IsNode n) (around : n ∈ path) : n ∈ done := by
  induction trail with
  | root => cases around
  | step _ node' past container ih =>
    rcases List.mem_cons.1 around with rfl | around
    · exact absurd node (graph.not_node node' container)
    rcases List.mem_cons.1 around with rfl | around
    · exact past
    · exact ih around

theorem fresh (trail : Trail h IsNode done path) (graph : h.ObjectGraph IsNode) (node : IsNode n)
    (new : n ∉ path) (container : h.neighbors? n = some (.ref c)) : c ∉ path := by
  induction trail with
  | root => simp
  | @step path n' c' _ node' past container' ih =>
    intro around
    rcases List.mem_cons.1 around with rfl | around
    · obtain rfl := graph.own n n' c node node' container container'
      simp at new
    rcases List.mem_cons.1 around with rfl | around
    · exact graph.not_node node container node'
    · exact ih (by grind) around

end Trail

section

variable (graph : h.ObjectGraph IsNode) {n : ObjId} (node : IsNode n)
include graph node

theorem copy_of_node (room : Nat) (path : List ObjId) :
    h.captureWithin (room + 1) path (.ref n) = .cyclic (toString n) ∧ n ∈ path ∨
    n ∉ path ∧
      ∃ cls fields, h.captureWithin (room + 1) path (.ref n) = .object (toString n) cls fields := by
  by_cases around : n ∈ path
  · exact .inl ⟨captureWithin_around around room, around⟩
  · obtain ⟨name, v, field⟩ := graph.has_field node
    obtain ⟨i, found⟩ := exists_instance_of_field? field
    obtain ⟨fields, copy, -⟩ := captureWithin_instance around room found
    exact .inr ⟨around, _, _, copy⟩

theorem id_of_copy {room : Nat} {path : List ObjId} {id cls : String}
    {fields : List (String × Snapshot)}
    (copy : h.captureWithin room path (.ref n) = .object id cls fields) : id = toString n := by
  cases room with
  | zero => cases copy
  | succ room =>
    rcases copy_of_node graph node room path with ⟨copy', -⟩ | ⟨-, cls', fields', copy'⟩
    · rw [copy'] at copy
      cases copy
    · rw [copy'] at copy
      cases copy
      rfl

-- With three levels the copy of a node has the copies of all its neighbors.
theorem neighborItems_of_copy {path : List ObjId} (fresh : n ∉ path) {done : List ObjId}
    (trail : Trail h IsNode done path) (room : Nat) :
    ∃ cls fields c, h.captureWithin (room + 3) path (.ref n) = .object (toString n) cls fields ∧
      (Snapshot.neighbors? fields).isSome ∧ h.neighbors? n = some (.ref c) ∧
      Graph.neighborItems fields =
        (h.neighbors n).map fun m => h.captureWithin (room + 1) (c :: n :: path) (.ref m) := by
  obtain ⟨c, container, listed, -⟩ := graph.members node
  obtain ⟨name, v, field⟩ := graph.has_field node
  obtain ⟨i, found⟩ := exists_instance_of_field? field
  obtain ⟨fields, copy, lookup⟩ := captureWithin_instance fresh (room + 2) found
  have here := neighbors?_capture lookup
  rw [container] at here
  have new : c ∉ n :: path := by
    rw [List.mem_cons, not_or]
    refine ⟨?_, trail.fresh graph node fresh container⟩
    rintro rfl
    exact graph.not_node node container node
  refine ⟨_, fields, c, copy, by simp [here], container, ?_⟩
  rw [Graph.neighborItems, here]
  simp [items?_capture new (room + 1) listed, Function.comp_def]

end

-- A copy of a node that waits in the search, with the level of the node and what is around it.
structure Occurrence where
  node : ObjId
  level : Nat
  path : List ObjId

namespace Occurrence

-- Every level of the graph takes two levels of the copy.
def copy (h : Heap) (maxDepth : Nat) (o : Occurrence) : Snapshot :=
  h.captureWithin (maxDepth + 1 - 2 * o.level) o.path (.ref o.node)

def entry (o : Occurrence) : ObjId × Nat := (o.node, o.level)

structure Fits (h : Heap) (IsNode : ObjId → Prop) (done : List ObjId) (o : Occurrence) : Prop where
  node : IsNode o.node
  trail : Trail h IsNode done o.path

end Occurrence

end Heap

/-! ### The search of a copy -/

namespace Graph

-- The edges from a node, when nodes are expanded in the order `order`.
def edgesFrom (next : ObjId → List ObjId) (order : List ObjId) (n : ObjId) : List Edge :=
  (next n).map fun m => ⟨toString n, toString m, decide (order.idxOf m ≤ order.idxOf n)⟩

theorem idxOf_le_idxOf {before after : List ObjId} {n : ObjId} (new : n ∉ before) (m : ObjId) :
    (before ++ n :: after).idxOf m ≤ (before ++ n :: after).idxOf n ↔ m ∈ before ++ [n] := by
  rw [List.idxOf_append, List.idxOf_append, if_neg new, List.idxOf_cons_self]
  by_cases old : m ∈ before
  · have := List.idxOf_lt_length_of_mem old
    simp [old]
    omega
  · by_cases same : m = n
    · simp [same, new]
    · have other : (n == m) = false := by simpa using Ne.symm same
      simp [old, same, List.idxOf_cons, other]

theorem mem_expanded {done : List ObjId} {expanded : List String}
    (past : expanded = (done.map toString).reverse) {m : ObjId} :
    toString m ∈ expanded ↔ m ∈ done := by
  rw [past, List.mem_reverse, List.mem_map_of_injective toString_injective]

-- What a graph takes from an expansion apart from the text of the node.
def Expansion.content (e : Expansion) : String × List Node × List Edge :=
  (e.node.id, e.values, e.edges)

def Expansion.contentFor (next : ObjId → List ObjId) (order : List ObjId) (n : ObjId) :
    String × List Node × List Edge :=
  (toString n, [], edgesFrom next order n)

section

variable {h : Heap} {IsNode : ObjId → Prop} (graph : h.ObjectGraph IsNode)
include graph

theorem edgeTo_copy {done path : List ObjId} (trail : Heap.Trail h IsNode done path)
    {expanded : List String} (past : expanded = (done.map toString).reverse) {m : ObjId}
    (node : IsNode m) (source : String) (room : Nat) :
    edgeTo expanded source (h.captureWithin (room + 1) path (.ref m)) =
      ⟨source, toString m, decide (m ∈ done)⟩ ∧
    ownNode? (h.captureWithin (room + 1) path (.ref m)) = none := by
  rcases Heap.copy_of_node graph node room path with ⟨copy, around⟩ | ⟨-, cls, fields, copy⟩
  · rw [copy]
    simp [edgeTo, ownNode?, trail.expanded graph node around]
  · have known := mem_expanded past (m := m)
    rw [copy]
    simp only [edgeTo, ownNode?, and_true, Edge.mk.injEq, true_and]
    rw [Bool.eq_iff_iff]
    simpa using known

theorem content_of_copy {before after path : List ObjId} {n c : ObjId} (new : n ∉ before)
    (trail : Heap.Trail h IsNode (before ++ [n]) (c :: n :: path)) {expanded : List String}
    (past : expanded = ((before ++ [n]).map toString).reverse) {cls : String}
    {fields : List (String × Snapshot)} {room : Nat} (nodes : ∀ m ∈ h.neighbors n, IsNode m)
    (items : neighborItems fields =
      (h.neighbors n).map fun m => h.captureWithin (room + 1) (c :: n :: path) (.ref m)) :
    (Expansion.of expanded (toString n) cls fields).content =
      Expansion.contentFor h.neighbors (before ++ n :: after) n := by
  have edge : ∀ m ∈ h.neighbors n, _ := fun m member =>
    edgeTo_copy graph trail past (nodes m member) (toString n) room
  simp only [Expansion.content, Expansion.contentFor, Expansion.of, items, List.map_map,
    List.filterMap_map, edgesFrom, Prod.mk.injEq, true_and]
  constructor
  · exact List.filterMap_eq_nil_iff.2 fun m member => (edge m member).2
  · refine List.map_congr_left fun m member => (edge m member).1.trans ?_
    rw [decide_eq_decide.2 (idxOf_le_idxOf new m)]

end

/--
The queue of a search, with what is known of it: it is the queue of a search of the graph, and it
has the copies of the nodes that wait.
-/
structure Tracks (h : Heap) (IsNode : ObjId → Prop) (root : ObjId) (maxDepth : Nat)
    (done : List (ObjId × Nat)) (occurrences : List Heap.Occurrence) (expanded : List String)
    (queue : List Snapshot) : Prop where
  searching : Searching h.neighbors root done (occurrences.map Heap.Occurrence.entry)
  fits : ∀ o ∈ occurrences, o.Fits h IsNode (done.map Prod.fst)
  copies : occurrences.map (Heap.Occurrence.copy h maxDepth) = queue
  past : expanded = ((done.map Prod.fst).map toString).reverse

section

variable {h : Heap} {IsNode : ObjId → Prop} {root : ObjId} {maxDepth : Nat}
  {done : List (ObjId × Nat)} {o : Heap.Occurrence} {occurrences others : List Heap.Occurrence}
  {expanded : List String} {queue : List Snapshot}

theorem Tracks.initial (node : IsNode root) :
    Tracks h IsNode root maxDepth [] [⟨root, 0, []⟩] [] [h.capture maxDepth (.ref root)] where
  searching := .initial h.neighbors root
  fits := List.forall_mem_singleton.2 ⟨node, .root⟩
  copies := rfl
  past := rfl

theorem Tracks.skip {s : Snapshot}
    (tracks : Tracks h IsNode root maxDepth done (o :: others) expanded (s :: queue))
    (old : o.node ∈ done.map Prod.fst) :
    Tracks h IsNode root maxDepth done others expanded queue where
  searching := tracks.searching.skip old
  fits := (List.forall_mem_cons.1 tracks.fits).2
  copies := (List.cons.inj tracks.copies).2
  past := tracks.past

section

variable (graph : h.ObjectGraph IsNode)
  (deep : ∀ n d, IsDistance h.neighbors root d n → 2 * d + 2 ≤ maxDepth)
include graph deep

-- A node that is expanded is as near as it can be, so there are levels enough for its neighbors.
theorem Tracks.expand {s : Snapshot}
    (tracks : Tracks h IsNode root maxDepth done (o :: others) expanded (s :: queue))
    (new : o.node ∉ done.map Prod.fst) :
    ∃ cls fields met, s = .object (toString o.node) cls fields ∧
      (Snapshot.neighbors? fields).isSome ∧
      Tracks h IsNode root maxDepth (done ++ [o.entry]) (others ++ met)
        (toString o.node :: expanded) (queue ++ neighborItems fields) ∧
      ∀ after, (Expansion.of (toString o.node :: expanded) (toString o.node) cls fields).content =
        Expansion.contentFor h.neighbors (done.map Prod.fst ++ o.node :: after) o.node := by
  obtain ⟨searching, fits, copies, past⟩ := tracks
  obtain ⟨copy, copies⟩ := List.cons.inj copies
  obtain ⟨⟨node, trail⟩, fits⟩ := List.forall_mem_cons.1 fits
  have near := deep _ _ (searching.distance new)
  have fresh : o.node ∉ o.path := fun around => new (trail.expanded graph node around)
  obtain ⟨room, enough⟩ : ∃ room, maxDepth + 1 - 2 * o.level = room + 3 :=
    ⟨maxDepth - 2 - 2 * o.level, by omega⟩
  have below : maxDepth + 1 - 2 * (o.level + 1) = room + 1 := by omega
  obtain ⟨cls, fields, c, whole, shaped, container, items⟩ :=
    Heap.neighborItems_of_copy graph node fresh trail room
  obtain ⟨-, -, -, nodes⟩ := graph.members node
  have grown : (done ++ [o.entry]).map Prod.fst = done.map Prod.fst ++ [o.node] := by
    simp [Heap.Occurrence.entry]
  have past : toString o.node :: expanded =
      ((done.map Prod.fst ++ [o.node]).map toString).reverse := by simp [past]
  have trail : Heap.Trail h IsNode (done.map Prod.fst ++ [o.node]) (c :: o.node :: o.path) :=
    .step (trail.mono [o.node]) node (by simp) container
  -- the copies of the neighbors go behind those that wait, with the node around them
  let met : List Heap.Occurrence :=
    (h.neighbors o.node).map fun m => ⟨m, o.level + 1, c :: o.node :: o.path⟩
  refine ⟨cls, fields, met, ?_, shaped, ⟨?searching, ?fits, ?copies, ?past⟩,
    fun after => content_of_copy graph new trail past nodes items⟩
  · rw [← copy, Heap.Occurrence.copy, enough, whole]
  case searching =>
    simpa [met, Function.comp_def, Heap.Occurrence.entry] using searching.expand new
  case fits =>
    intro p here
    rw [grown]
    rcases List.mem_append.1 here with waits | added
    · exact ⟨(fits p waits).node, (fits p waits).trail.mono [o.node]⟩
    · obtain ⟨m, member, rfl⟩ := List.mem_map.1 added
      exact ⟨nodes m member, trail⟩
  case copies =>
    simp [met, copies, items, Heap.Occurrence.copy, below, Function.comp_def]
  case past => rw [grown, past]

/--
The search of the copies goes on as a search of the graph does, and it expands the nodes with the
edges to all their neighbors.
-/
theorem expansions_follow
    (tracks : Tracks h IsNode root maxDepth done occurrences expanded queue) :
    ∃ later, Searching h.neighbors root (done ++ later) [] ∧
      (expansions expanded queue).map Expansion.content =
        (later.map Prod.fst).map
          (Expansion.contentFor h.neighbors ((done ++ later).map Prod.fst)) := by
  induction expanded, queue using expansions.induct generalizing done occurrences with
  | case1 expanded =>
    obtain rfl := List.map_eq_nil_iff.1 tracks.copies
    exact ⟨[], by simpa using tracks.searching, by simp [expansions]⟩
  | case2 expanded id cls fields rest known ih =>
    obtain ⟨o, others, rfl, copy, -⟩ := List.map_eq_cons_iff.1 tracks.copies
    obtain rfl := Heap.id_of_copy graph (tracks.fits o List.mem_cons_self).node copy
    have old := (mem_expanded tracks.past).1 (List.contains_iff_mem.1 known)
    obtain ⟨later, searched, found⟩ := ih (tracks.skip old)
    refine ⟨later, searched, ?_⟩
    rw [expansions, if_pos known]
    exact found
  | case3 expanded id cls fields rest unknown ih =>
    obtain ⟨o, others, rfl, copy, -⟩ := List.map_eq_cons_iff.1 tracks.copies
    obtain rfl := Heap.id_of_copy graph (tracks.fits o List.mem_cons_self).node copy
    have new : o.node ∉ done.map Prod.fst := fun old =>
      unknown (List.contains_iff_mem.2 ((mem_expanded tracks.past).2 old))
    obtain ⟨_, _, met, ⟨⟩, -, tracks, content⟩ := tracks.expand graph deep new
    obtain ⟨later, searched, found⟩ := ih tracks
    rw [List.append_assoc] at searched found
    refine ⟨o.entry :: later, searched, ?_⟩
    have head := content (later.map Prod.fst)
    rw [expansions, if_neg unknown, List.map_cons, head, found, List.map_append]
    simp [Heap.Occurrence.entry]
  | case4 expanded s rest other ih =>
    obtain ⟨o, others, rfl, -, -⟩ := List.map_eq_cons_iff.1 tracks.copies
    have old : o.node ∈ done.map Prod.fst := by
      refine Decidable.byContradiction fun new => ?_
      obtain ⟨cls, fields, -, copy, -⟩ := tracks.expand graph deep new
      exact other _ cls fields copy
    obtain ⟨later, searched, found⟩ := ih (tracks.skip old)
    refine ⟨later, searched, ?_⟩
    rw [expansions]
    · exact found
    · exact other

end

end

theorem distinct_of_nodup {nodes : List Node} (once : (nodes.map Node.id).Nodup) :
    distinct nodes = nodes := by
  induction nodes with
  | nil => rfl
  | cons n rest ih =>
    obtain ⟨new, once⟩ := List.nodup_cons.1 once
    have kept : (rest.filter fun m => (m.id == n.id) = false) = rest := by
      refine List.filter_eq_self.2 fun m here => ?_
      have other : m.id ≠ n.id := fun same => new (same ▸ List.mem_map_of_mem here)
      simpa using other
    rw [distinct, List.eraseDupsBy_cons, kept]
    exact congrArg (n :: ·) (ih once)

theorem ofObject_of_contents {s : Snapshot} {next : ObjId → List ObjId} {order : List ObjId}
    (once : order.Nodup) (found : (expansions [] [s]).map Expansion.content =
      order.map (Expansion.contentFor next order)) :
    (ofObject s).nodes.map Node.id = order.map toString ∧
      (ofObject s).edges = order.flatMap (edgesFrom next order) := by
  have nodes := congrArg (List.flatMap fun c => c.1 :: c.2.1.map Node.id) found
  have edges := congrArg (List.flatMap fun c => c.2.2) found
  simp only [List.flatMap_map, Expansion.content, Expansion.contentFor] at nodes edges
  refine ⟨?_, edges⟩
  have ids : ((expansions [] [s]).flatMap fun e => e.node :: e.values).map Node.id =
      order.map toString := by
    rw [List.map_flatMap, List.map_eq_flatMap]
    exact nodes
  rw [ofObject, distinct_of_nodup, ids]
  rw [ids]
  exact once.map toString_injective

theorem indexOf?_isSome {g : Graph} {id : String} :
    (g.indexOf? id).isSome ↔ id ∈ g.nodes.map Node.id := by
  simp [indexOf?]

end Graph

/--
The graph of the copy of a node has all nodes that can be reached from it, once each and in
breadth-first order, with an edge for every neighbor that one of them has. An edge goes back if its
target comes no later than its source, so that it had been expanded when the edge was found. Two
levels for every step are enough, and two more.
-/
theorem graphs_survive_copying {h : Heap} {IsNode : ObjId → Prop} (graph : h.ObjectGraph IsNode)
    {root : ObjId} (node : IsNode root) {maxDepth : Nat}
    (deep : ∀ n d, IsDistance h.neighbors root d n → 2 * d + 2 ≤ maxDepth) :
    ∃ g order, Graph.ofSnapshot? (h.capture maxDepth (.ref root)) = some g ∧
      BreadthFirst h.neighbors root order ∧ g.nodes.map Node.id = order.map toString ∧
      g.edges = order.flatMap (Graph.edgesFrom h.neighbors order) ∧
      ∀ e ∈ g.edges, (g.indexOf? e.source).isSome ∧ (g.indexOf? e.target).isSome := by
  have tracks : Graph.Tracks h IsNode root maxDepth [] _ [] _ := .initial node
  obtain ⟨cls, fields, -, copy, shaped, -⟩ := tracks.expand graph deep (by simp)
  obtain ⟨later, searched, found⟩ := Graph.expansions_follow graph deep tracks
  rw [List.nil_append] at searched found
  have order := searched.finished
  obtain ⟨nodes, edges⟩ := Graph.ofObject_of_contents order.distinct found
  refine ⟨_, later.map Prod.fst, ?_, order, nodes, edges, ?_⟩
  · rw [copy, Graph.ofSnapshot?, if_pos shaped]
  · intro e here
    rw [edges] at here
    obtain ⟨n, source, here⟩ := List.mem_flatMap.1 here
    obtain ⟨m, member, rfl⟩ := List.mem_map.1 here
    obtain ⟨k, way⟩ := (order.reached n).1 source
    rw [Graph.indexOf?_isSome, Graph.indexOf?_isSome, nodes]
    exact ⟨List.mem_map_of_mem source,
      List.mem_map_of_mem ((order.reached m).2 ⟨k + 1, way.step member⟩)⟩

theorem graphs_survive_copying_double_edge :
    let h : Heap :=
      { objects := #[.class ⟨"Node", none, none, .empty⟩,
          .instance ⟨0, { entries := #[("adj", .ref 3)] }⟩,
          .instance ⟨0, { entries := #[("neighbors", .ref 4)] }⟩,
          .list ⟨#[.ref 2, .ref 2], none⟩, .tuple #[.ref 1]]
        limit := 5 }
    ∃ g, Graph.ofSnapshot? (h.capture 4 (.ref 1)) = some g ∧ g.nodes.map Node.id = ["1", "2"] ∧
      g.edges = [⟨"1", "2", false⟩, ⟨"1", "2", false⟩, ⟨"2", "1", true⟩] := by
  intro h
  have field₁ : h.neighbors? 1 = some (.ref 3) := by
    simp [h, Heap.neighbors?, neighborFields, Heap.field?, Heap.get?, Ordered.get?]
  have field₂ : h.neighbors? 2 = some (.ref 4) := by
    simp [h, Heap.neighbors?, neighborFields, Heap.field?, Heap.get?, Ordered.get?]
  have next₁ : h.neighbors 1 = [2, 2] := by
    rw [Heap.neighbors, field₁]
    rfl
  have next₂ : h.neighbors 2 = [1] := by
    rw [Heap.neighbors, field₂]
    rfl
  have graph : h.ObjectGraph fun n => n = 1 ∨ n = 2 := by
    constructor
    · rintro n (rfl | rfl)
      · exact ⟨3, [.ref 2, .ref 2], field₁, rfl, by simp⟩
      · exact ⟨4, [.ref 1], field₂, rfl, by simp⟩
    · rintro n m c (rfl | rfl) (rfl | rfl) <;> grind
  have inside : ∀ k n, Steps h.neighbors 1 k n → n = 1 ∨ n = 2 := by
    intro k n way
    induction way with
    | here => exact .inl rfl
    | step _ last ih => rcases ih with rfl | rfl <;> simp_all
  have way₂ : Steps h.neighbors 1 1 2 := .step .here (by simp [next₁])
  have deep : ∀ n d, IsDistance h.neighbors 1 d n → 2 * d + 2 ≤ 4 := by
    intro n d distance
    rcases inside d n distance.1 with rfl | rfl
    · have := distance.2 0 .here
      omega
    · have := distance.2 1 way₂
      omega
  obtain ⟨g, order, drawn, search, nodes, edges, -⟩ :=
    graphs_survive_copying graph (.inl rfl) deep
  have found : order = [1, 2] := by
    have member : ∀ n, n ∈ order ↔ n = 1 ∨ n = 2 := by
      intro n
      rw [search.reached]
      constructor
      · rintro ⟨k, way⟩
        exact inside k n way
      · rintro (rfl | rfl)
        · exact ⟨0, .here⟩
        · exact ⟨1, way₂⟩
    obtain ⟨rest, rfl⟩ : ∃ rest, order = 1 :: rest :=
      ⟨_, search.met.trans List.eraseDups_cons⟩
    have distinct := search.distinct
    rcases rest with _ | ⟨a, _ | ⟨b, rest⟩⟩
    · exact absurd ((member 2).2 (.inr rfl)) (by simp)
    · rcases (member a).1 (by simp) with rfl | rfl
      · simp at distinct
      · rfl
    · rcases (member a).1 (by simp) with rfl | rfl <;>
        rcases (member b).1 (by simp) with rfl | rfl <;> simp at distinct
  subst found
  refine ⟨g, drawn, nodes, edges.trans ?_⟩
  rw [List.flatMap_cons, List.flatMap_cons, Graph.edgesFrom, Graph.edgesFrom, next₁, next₂]
  rfl

end StepTrace
