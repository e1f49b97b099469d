import StepTrace.View.Shape

/-!
Graphs. A mapping whose values are sequences has its keys as nodes, and what the sequences hold as
their neighbors. A graph of objects is searched breadth first: every object is expanded once, and
every neighbor of an expanded object gives an edge.
-/

set_option autoImplicit false

namespace StepTrace

structure Edge where
  source : String
  target : String
  /-- The target was expanded before the edge was found. -/
  back : Bool
deriving DecidableEq, Repr

structure Graph where
  nodes : List Node
  edges : List Edge
deriving DecidableEq, Repr

namespace Graph

def indexOf? (g : Graph) (id : String) : Option Nat := g.nodes.findIdx? (·.id == id)

def distinct (nodes : List Node) : List Node := nodes.eraseDupsBy (·.id == ·.id)

/-! ### Mappings -/

def itemLabels (v : Snapshot) : List String := (v.sequenceItems?.getD []).map Snapshot.label

/-- The graph of a mapping to sequences. -/
def ofAdjacency (entries : List (String × Snapshot)) : Graph where
  nodes := distinct
    ((entries.map Prod.fst ++ entries.flatMap fun (_, v) => itemLabels v).map fun l => ⟨l, l⟩)
  edges := entries.flatMap fun (k, v) => (itemLabels v).map fun l => ⟨k, l, false⟩

/-! ### Objects -/

def neighborItems (fields : List (String × Snapshot)) : List Snapshot :=
  ((Snapshot.neighbors? fields).bind Snapshot.items?).getD []

/-- The node for a neighbor that is no object. -/
def valueNode (v : Snapshot) : Node := ⟨"value:" ++ v.label, v.label⟩

/-- The edge from an object to a neighbor, when the objects in `expanded` are expanded. -/
def edgeTo (expanded : List String) (source : String) : Snapshot → Edge
  | .cyclic id => ⟨source, id, true⟩
  | .object id _ _ => ⟨source, id, expanded.contains id⟩
  | v => ⟨source, (valueNode v).id, false⟩

/-- The node that a neighbor has before it is expanded: only what is no object has one. -/
def ownNode? : Snapshot → Option Node
  | .cyclic _ | .object _ _ _ => none
  | v => some (valueNode v)

theorem sizeOf_lookup_lt {fields : List (String × Snapshot)} {name : String} {v : Snapshot}
    (h : fields.lookup name = some v) : sizeOf v < sizeOf fields := by
  induction fields with
  | nil => simp at h
  | cons e rest ih =>
    obtain ⟨k, w⟩ := e
    rw [List.lookup_cons] at h
    split at h
    · obtain rfl := Option.some.inj h
      simp only [List.cons.sizeOf_spec, Prod.mk.sizeOf_spec]
      omega
    · have := ih h
      simp only [List.cons.sizeOf_spec]
      omega

theorem sizeOf_items_lt {v : Snapshot} {items : List Snapshot} (h : v.items? = some items) :
    sizeOf items < sizeOf v := by
  cases v <;> simp [Snapshot.items?, Snapshot.sequenceItems?] at h
  all_goals
    subst h
    simp only [Snapshot.plainList.sizeOf_spec, Snapshot.list.sizeOf_spec,
      Snapshot.tuple.sizeOf_spec, Snapshot.set.sizeOf_spec, Snapshot.deque.sizeOf_spec]
    omega

theorem sizeOf_nil_le {α : Type} [SizeOf α] (fields : List α) :
    sizeOf ([] : List Snapshot) ≤ sizeOf fields := by
  cases fields <;> simp only [List.nil.sizeOf_spec, List.cons.sizeOf_spec] <;> omega

theorem sizeOf_neighborItems_le (fields : List (String × Snapshot)) :
    sizeOf (neighborItems fields) ≤ sizeOf fields := by
  unfold neighborItems
  cases h : Snapshot.neighbors? fields with
  | none => exact sizeOf_nil_le fields
  | some v =>
    obtain ⟨name, _, hv⟩ := List.exists_of_findSome?_eq_some h
    have hv := sizeOf_lookup_lt hv
    cases hi : v.items? with
    | none => simpa [hi] using sizeOf_nil_le fields
    | some items =>
      have := sizeOf_items_lt hi
      simp [hi]
      omega

theorem sizeOf_append (xs ys : List Snapshot) :
    sizeOf (xs ++ ys) + 1 = sizeOf xs + sizeOf ys := by
  induction xs with
  | nil => simp; omega
  | cons x rest ih => simp; omega

/-- An expanded object, and the neighbors that were found from it. -/
structure Expansion where
  node : Node
  values : List Node
  edges : List Edge

def Expansion.of (expanded : List String) (id cls : String) (fields : List (String × Snapshot)) :
    Expansion where
  node := ⟨id, (Node.label? fields).getD cls⟩
  values := (neighborItems fields).filterMap ownNode?
  edges := (neighborItems fields).map (edgeTo expanded id)

/-- The expansions of the objects in a queue and of those behind them. -/
def expansions (expanded : List String) : List Snapshot → List Expansion
  | [] => []
  | .object id cls fields :: rest =>
    if expanded.contains id then expansions expanded rest
    else
      .of (id :: expanded) id cls fields ::
        expansions (id :: expanded) (rest ++ neighborItems fields)
  | _ :: rest => expansions expanded rest
termination_by queue => sizeOf queue
decreasing_by
  · simp only [List.cons.sizeOf_spec]
    omega
  · have := sizeOf_append rest (neighborItems fields)
    have := sizeOf_neighborItems_le fields
    simp only [List.cons.sizeOf_spec, Snapshot.object.sizeOf_spec]
    omega
  · simp only [List.cons.sizeOf_spec]
    omega

def ofObject (root : Snapshot) : Graph :=
  let found := expansions [] [root]
  { nodes := distinct (found.flatMap fun e => e.node :: e.values)
    edges := found.flatMap Expansion.edges }

/-- The graph of a copy that has the shape of one. -/
def ofSnapshot? : Snapshot → Option Graph
  | .mapping entries => if Snapshot.isAdjacency entries then some (ofAdjacency entries) else none
  | v@(.object _ _ fields) =>
    if (Snapshot.neighbors? fields).isSome then some (ofObject v) else none
  | _ => none

end Graph

end StepTrace
