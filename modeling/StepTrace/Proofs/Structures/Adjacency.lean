import Mathlib.Data.List.Induction
import StepTrace.Proofs.Structures.Graph
import StepTrace.View.Layout

/-!
Graphs of mappings to sequences. Every key is a node, and every item of a sequence is one that has
its text as identity, so that an item with the text of a key, or of another item, is the same node.
-/

set_option autoImplicit false

namespace StepTrace

section

variable {α : Type} [DecidableEq α]

theorem nodup_eraseDups (as : List α) : as.eraseDups.Nodup := by
  induction as using List.reverseRecOn with
  | nil => exact .nil
  | append_singleton as a ih =>
    rw [eraseDups_concat]
    split
    next => exact ih
    next new => simpa using ih.concat (mt List.mem_eraseDups.1 new)

theorem eraseDups_of_nodup {as : List α} (once : as.Nodup) : as.eraseDups = as := by
  induction as using List.reverseRecOn with
  | nil => rfl
  | append_singleton as a ih =>
    rw [List.nodup_append] at once
    have new : a ∉ as := fun here => once.2.2 a here a List.mem_cons_self rfl
    rw [eraseDups_concat, if_neg new, ih once.1]

end

namespace Graph

theorem ids_distinct (nodes : List Node) :
    (distinct nodes).map Node.id = (nodes.map Node.id).eraseDups := by
  induction length : nodes.length using Nat.strongRecOn generalizing nodes with
  | ind count ih =>
    cases nodes with
    | nil => rfl
    | cons n rest =>
      let others := rest.filter fun m => (m.id == n.id) = false
      have fewer : others.length < count := by
        rw [← length, List.length_cons]
        exact Nat.lt_succ_of_le (List.length_filter_le _ rest)
      have ids : others.map Node.id = (rest.map Node.id).filter fun id => !id == n.id := by
        rw [List.filter_map]
        refine congrArg (List.map Node.id) (List.filter_congr fun m _ => ?_)
        cases h : m.id == n.id <;> simp [h]
      calc
        (distinct (n :: rest)).map Node.id
        _ = n.id :: (distinct others).map Node.id := by
          rw [distinct, List.eraseDupsBy_cons]
          rfl
        _ = n.id :: (others.map Node.id).eraseDups := by rw [ih _ fewer others rfl]
        _ = ((n :: rest).map Node.id).eraseDups := by
          rw [ids, List.map_cons, List.eraseDups_cons]

/-- Every key of a mapping with each of its neighbors. -/
def links (m : Ordered String Snapshot) : List (String × Snapshot) :=
  m.toList.flatMap fun (k, v) => (v.sequenceItems?.getD []).map (k, ·)

-- The labels of neighbors that are no keys, in the order in which one meets them first.
def foreign (m : Ordered String Snapshot) : List String :=
  (((links m).map fun (_, n) => n.label).filter (· ∉ m.keys)).eraseDups

/-- There is a node with this identity, and a place for it in the layout. -/
def Located (g : Graph) (id : String) : Prop :=
  ∃ i n, g.indexOf? id = some i ∧ g.nodes[i]? = some n ∧ n.id = id ∧
    ∀ width height, ((circularLayout g.nodes.length width height)[i]?).isSome

theorem located_of_mem {g : Graph} {id : String} (here : id ∈ g.nodes.map Node.id) :
    g.Located id := by
  obtain ⟨i, found⟩ := Option.isSome_iff_exists.1 (indexOf?_isSome.2 here)
  obtain ⟨inside, same, -⟩ := List.findIdx?_eq_some_iff_getElem.1 found
  refine ⟨i, g.nodes[i], found, List.getElem?_eq_getElem inside, by simpa using same, ?_⟩
  intro width height
  simpa [circularLayout] using inside

theorem labels_eq (m : Ordered String Snapshot) :
    (m.toList.flatMap fun (_, v) => itemLabels v) = (links m).map fun (_, n) => n.label := by
  simp [links, itemLabels, List.map_flatMap, Function.comp_def]

theorem ids_ofAdjacency (m : Ordered String Snapshot) :
    (ofAdjacency m.toList).nodes.map Node.id = m.keys ++ foreign m := by
  have same : ∀ ls : List String, (ls.map fun l => (⟨l, l⟩ : Node)).map Node.id = ls := by
    simp [Function.comp_def]
  have others : ∀ ls : List String, ls.removeAll m.keys = ls.filter (· ∉ m.keys) := fun ls =>
    List.filter_congr fun l _ => by simp
  rw [ofAdjacency, ids_distinct, same, labels_eq, List.eraseDups_append]
  change m.keys.eraseDups ++ (List.removeAll _ m.keys).eraseDups = _
  rw [eraseDups_of_nodup m.keys_nodup, others]
  rfl

theorem edges_ofAdjacency (m : Ordered String Snapshot) :
    (ofAdjacency m.toList).edges = (links m).map fun (k, n) => ⟨k, n.label, false⟩ := by
  simp [ofAdjacency, links, itemLabels, List.map_flatMap, Function.comp_def]

theorem isAdjacency_toList {m : Ordered String Snapshot} (filled : m.isEmpty = false)
    (sequences : ∀ v ∈ m.values, v.sequenceItems?.isSome) :
    Snapshot.isAdjacency m.toList = true := by
  rw [Snapshot.isAdjacency, Bool.and_eq_true, List.all_eq_true]
  constructor
  next => simpa [Ordered.isEmpty, Ordered.toList] using filled
  next => exact fun e here => sequences e.2 (List.mem_map_of_mem here)

end Graph

/--
The graph of a mapping to sequences has its keys as nodes, and behind them what its sequences have
besides. There is an edge for every item of a sequence, in order, from the key to the item, and a
place for both of its ends.
-/
theorem mappings_become_graphs {m : Ordered String Snapshot} (filled : m.isEmpty = false)
    (sequences : ∀ v ∈ m.values, v.sequenceItems?.isSome) :
    ∃ g, Graph.ofSnapshot? (.mapping m.toList) = some g ∧
      (g.nodes.map Node.id).Nodup ∧ g.nodes.map Node.id = m.keys ++ Graph.foreign m ∧
      g.edges = (Graph.links m).map (fun (k, n) => ⟨k, n.label, false⟩) ∧
      ∀ e ∈ g.edges, g.Located e.source ∧ g.Located e.target := by
  have ids := Graph.ids_ofAdjacency m
  have edges := Graph.edges_ofAdjacency m
  refine ⟨_, if_pos (Graph.isAdjacency_toList filled sequences), ?_, ids, edges, ?_⟩
  · rw [Graph.ofAdjacency, Graph.ids_distinct]
    exact nodup_eraseDups _
  · intro e here
    obtain ⟨⟨k, n⟩, link, rfl⟩ := List.mem_map.1 (edges ▸ here)
    obtain ⟨⟨_, v⟩, entry, item⟩ := List.mem_flatMap.1 link
    obtain ⟨_, -, ⟨⟩⟩ := List.mem_map.1 item
    have key : k ∈ m.keys := List.mem_map_of_mem entry
    have label : n.label ∈ m.keys ++ Graph.foreign m := by
      by_cases known : n.label ∈ m.keys
      next => exact List.mem_append_left _ known
      next =>
        refine List.mem_append_right _ (List.mem_eraseDups.2 (List.mem_filter.2 ⟨?_, by simpa⟩))
        exact List.mem_map_of_mem (f := fun (l : String × Snapshot) => l.2.label) link
    exact ⟨Graph.located_of_mem (ids ▸ List.mem_append_left _ key),
      Graph.located_of_mem (ids ▸ label)⟩

-- The number 2 has the text of a key, and two of the other items have the same text.
theorem mappings_become_graphs_shared_texts :
    let m : Ordered String Snapshot :=
      { entries := #[("1", .plainList [.int 2, .str "x", .str "1"]),
          ("2", .tuple [.none, .str "None", .str "x"])] }
    ∃ g, Graph.ofSnapshot? (.mapping m.toList) = some g ∧
      g.nodes.map Node.id = ["1", "2", "x", "None"] ∧ g.edges.length = 6 := by
  intro m
  obtain ⟨g, drawn, -, ids, edges, -⟩ :=
    mappings_become_graphs (m := m) rfl
      (by simp [m, Ordered.values, Ordered.toList, Snapshot.sequenceItems?])
  exact ⟨g, drawn, ids.trans (by decide +kernel), by rw [edges]; decide +kernel⟩

end StepTrace
