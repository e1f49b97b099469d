import StepTrace.Step
import StepTrace.View.Array
import StepTrace.View.Shape
import StepTrace.View.Graph
import StepTrace.View.Tree

/-!
What a step shows: a row for every visible variable, and the structures of those that have one. A
name keeps its place once it has been seen, whether a step has a variable of the name or not, until
it is moved.
-/

set_option autoImplicit false

namespace StepTrace

/-! ### The order of variables -/

/-- The names seen so far, every name once. -/
structure VariableOrder where
  names : List String
  nodup : names.Nodup := by simp

namespace VariableOrder

/-- The order before any step is seen. -/
def empty : VariableOrder where
  names := []

instance : Inhabited VariableOrder := ⟨empty⟩

/-- Puts a name at the end, unless it has been seen. -/
def see (o : VariableOrder) (name : String) : VariableOrder :=
  if h : name ∈ o.names then o
  else
    { names := o.names ++ [name]
      nodup := by
        rw [List.nodup_append]
        refine ⟨o.nodup, by simp, ?_⟩
        rintro x hx y hy rfl
        exact h (List.mem_singleton.1 hy ▸ hx) }

theorem names_see (o : VariableOrder) (name : String) :
    (o.see name).names = if name ∈ o.names then o.names else o.names ++ [name] := by
  unfold see
  split <;> rfl

def observe (o : VariableOrder) (s : Step) : VariableOrder := s.bindings.keys.foldl see o

def placed (names : List String) (name : String) (i : Nat) : List String :=
  let rest := names.erase name
  rest.take i ++ name :: rest.drop i

theorem placed_perm {names : List String} {name : String} (h : name ∈ names) (i : Nat) :
    (placed names name i).Perm names := by
  unfold placed
  refine List.perm_middle.trans ?_
  rw [List.take_append_drop]
  exact (List.perm_cons_erase h).symm

/--
Moves a name to the place of another one; the names between them close up. A name does not move if
one of the two has not been seen or if they are the same.
-/
def move? (o : VariableOrder) (name target : String) : Option VariableOrder :=
  if h : name ∈ o.names ∧ target ∈ o.names ∧ name ≠ target then
    some
      { names := placed o.names name (o.names.idxOf target)
        nodup := (placed_perm h.1 _).nodup_iff.2 o.nodup }
  else none

def visible (o : VariableOrder) (s : Step) : List String := o.names.filter s.bindings.contains

/-- Moves a name by some places among those that are visible in a step. -/
def shift? (o : VariableOrder) (name : String) (s : Step) (offset : Int) :
    Option VariableOrder := do
  let shown := o.visible s
  let i ← shown.idxOf? name
  let place := (i : Int) + offset
  if place < 0 then none
  else o.move? name (← shown[place.toNat]?)

end VariableOrder

/-! ### Structures -/

-- What is drawn for a copy of its shape.
inductive Structure
  | array (a : ArrayView)
  | chain (c : Chain)
  | tree (t : Tree)
  | graph (g : Graph)
  /-- A row for every entry: its key, and the text of its value. -/
  | table (rows : List (String × String))

/--
The structure of a variable, given the copy of it in the step before and the accesses since then.
Copies of no structural shape have none.
-/
def Structure.of? (b : Binding) (before : Option Snapshot) (accesses : List Access) :
    Option Structure :=
  match b.value.shape, b.value with
  | .array, v | .deque, v =>
    v.items?.map fun items =>
      .array (.ofItems (.of v) items ((before.bind Snapshot.items?).getD []) b.id accesses)
  | .chain, v => some (.chain (.ofSnapshot [] v))
  | .binaryTree, v => some (.tree (.ofSnapshot .sides [] v))
  | .tree, v => some (.tree (.ofSnapshot .children [] v))
  | .graph, v => (Graph.ofSnapshot? v).map .graph
  | .table, .mapping entries => some (.table (entries.map fun (k, v) => (k, v.text)))
  | _, _ => none

/-! ### What a step shows -/

structure VariableView where
  name : String
  binding : Binding
  drawn : Structure

namespace Step

/-- The variables of a step, in an order. -/
def shown (s : Step) (o : VariableOrder) : List (String × Binding) :=
  (o.visible s).filterMap fun name => (s.bindings.get? name).map fun b => (name, b)

/-- The structures of a step; array cells are compared with those of the step before. -/
def views (s : Step) (before : Option Step) (o : VariableOrder) : List VariableView :=
  (s.shown o).filterMap fun (name, b) =>
    let old := (before.bind fun p => p.bindings.get? name).map Binding.value
    (Structure.of? b old s.accesses).map fun drawn => ⟨name, b, drawn⟩

end Step

def reconstruct (steps : Array Step) (index : Nat) (o : VariableOrder) : List VariableView :=
  match steps[index]? with
  | some s => s.views (if index = 0 then none else steps[index - 1]?) o
  | none => []

end StepTrace
