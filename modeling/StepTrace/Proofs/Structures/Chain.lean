import StepTrace.Proofs.Structures.Fields
import StepTrace.View.Shape

/-!
Linked lists on the heap, and the chains that are drawn for them. A copy of the first node has as
many of the nodes in it as there are levels, and the chain ends as the list does when it has all of
them.
-/

set_option autoImplicit false

namespace StepTrace

namespace Heap

-- Where a way along nodes starts, when `last` comes behind them.
def linkTo (last : Value) : List ObjId → Value
  | [] => last
  | n :: _ => .ref n

/-- Every node is an instance that has the way to the nodes behind it under `next`. -/
def Linked (h : Heap) (last : Value) : List ObjId → Prop
  | [] => True
  | n :: rest => h.field? n nextField = some (linkTo last rest) ∧ h.Linked last rest

end Heap

def ChainEnd.of : Value → ChainEnd
  | .ref id => .cycle (toString id)
  | _ => .null

theorem elided_text : elided.text = "'...'" := by decide

-- A chain shows the nodes that there is room for, and how the way along them ends if there is more.
structure Chain.Follows (chain : Chain) (way : List ObjId) (last : Value) (room : Nat) : Prop where
  nodes : chain.nodes.map Node.id = (way.take room).map toString
  finish : chain.finish = if room ≤ way.length then .value "'...'" else .of last

theorem Chain.follows_elided (seen : List String) (way : List ObjId) (last : Value) :
    Chain.Follows (.ofSnapshot seen elided) way last 0 :=
  ⟨rfl, by simp [elided, Chain.ofSnapshot, ← elided_text]⟩

-- The nodes before the way are the objects around the copy, and those that the chain has seen.
theorem Heap.Linked.chain {h : Heap} {last : Value} {nodes path : List ObjId}
    (linked : h.Linked last nodes) (distinct : nodes.Nodup) (fresh : ∀ n ∈ nodes, n ∉ path)
    (closing : last = .none ∨ ∃ n ∈ path ++ nodes, last = .ref n) (room : Nat) :
    Chain.Follows (.ofSnapshot (path.map toString) (h.captureWithin room path (linkTo last nodes)))
      nodes last room := by
  induction nodes generalizing path room with
  | nil =>
    cases room with
    | zero => exact Chain.follows_elided ..
    | succ room =>
      rcases closing with rfl | ⟨n, around, rfl⟩
      · exact ⟨rfl, rfl⟩
      · rw [List.append_nil] at around
        rw [linkTo, captureWithin_around around]
        exact ⟨rfl, rfl⟩
  | cons n rest ih =>
    cases room with
    | zero => exact Chain.follows_elided ..
    | succ room =>
      obtain ⟨next, linked⟩ := linked
      obtain ⟨new, distinct⟩ := List.nodup_cons.1 distinct
      obtain ⟨first, fresh⟩ := List.forall_mem_cons.1 fresh
      obtain ⟨i, found⟩ := exists_instance_of_field? next
      obtain ⟨fields, copy, lookup⟩ := captureWithin_instance first room found
      have apart : ∀ m ∈ rest, m ∉ n :: path := by grind
      have behind : last = .none ∨ ∃ m ∈ n :: path ++ rest, last = .ref m := by grind
      have after := ih linked distinct apart behind room
      have absent := unseen first (List.Subset.refl (path.map toString))
      rw [linkTo, copy, Chain.ofSnapshot, if_neg (by simpa using absent), Chain.ofNext_eq,
        lookup _ (visible _ (by simp)), next]
      exact ⟨by simpa using after.nodes, by simpa using after.finish⟩

/--
The chain of the copy of a linked list has its nodes in order, as far as the levels reach. It ends
with the list, at a node that has come already if the list does, unless there are too few levels:
then it ends at what stands for the nodes that are left out.
-/
theorem chains_survive_copying {h : Heap} {first : ObjId} {rest : List ObjId} {last : Value}
    (linked : h.Linked last (first :: rest)) (distinct : (first :: rest).Nodup)
    (closing : last = .none ∨ ∃ n ∈ first :: rest, last = .ref n) (maxDepth : Nat) :
    let chain := Chain.ofSnapshot [] (h.capture maxDepth (.ref first))
    let length := (first :: rest).length
    chain.nodes.map Node.id =
      ((first :: rest).take (min length (maxDepth + 1))).map toString ∧
    (length ≤ maxDepth → last = .none → chain.finish = .null) ∧
    (length ≤ maxDepth → ∀ n, last = .ref n → chain.finish = .cycle (toString n)) ∧
    (maxDepth < length → chain.finish = .value "'...'") := by
  have fresh : ∀ n ∈ first :: rest, n ∉ ([] : List ObjId) := by simp
  obtain ⟨nodes, finish⟩ := linked.chain distinct fresh closing (maxDepth + 1)
  refine ⟨?_, ?_, ?_, ?_⟩
  · rw [Nat.min_comm, ← List.take_eq_take_min]
    exact nodes
  · rintro short rfl
    exact finish.trans (if_neg (by omega))
  · rintro short n rfl
    exact finish.trans (if_neg (by omega))
  · intro long
    exact finish.trans (if_pos long)

theorem chains_survive_copying_rho :
    let h : Heap :=
      { objects := #[.class ⟨"Node", none, none, .empty⟩,
          .instance ⟨0, { entries := #[("next", .ref 2)] }⟩,
          .instance ⟨0, { entries := #[("next", .ref 3)] }⟩,
          .instance ⟨0, { entries := #[("val", .int 5), ("next", .ref 2)] }⟩]
        limit := 4 }
    (Chain.ofSnapshot [] (h.capture 3 (.ref 1))).finish = .cycle "2" ∧
      (Chain.ofSnapshot [] (h.capture 2 (.ref 1))).finish = .value "'...'" := by
  intro h
  have linked : h.Linked (.ref 2) [1, 2, 3] := by
    simp [h, Heap.Linked, Heap.linkTo, Heap.field?, Heap.get?, Ordered.get?, nextField]
  have chains := chains_survive_copying linked (by decide) (.inr ⟨2, by decide, rfl⟩)
  exact ⟨(chains 3).2.2.1 (by decide) 2 rfl, (chains 2).2.2.2 (by decide)⟩

end StepTrace
