import StepTrace.Machine
import StepTrace.Proofs.Likeness.Operators

/-!
Steps without what the marks of lists add to them: the accesses, and the tags of lists.
-/

set_option autoImplicit false

namespace StepTrace

namespace Snapshot

mutual

/-- A copy with every list read as a plain one. -/
def plain : Snapshot → Snapshot
  | list _ items => plainList (plainItems items)
  | plainList items => plainList (plainItems items)
  | tuple items => tuple (plainItems items)
  | set items => set (plainItems items)
  | deque items => deque (plainItems items)
  | mapping entries => mapping (plainFields entries)
  | object id cls fields => object id cls (plainFields fields)
  | v => v

def plainItems : List Snapshot → List Snapshot
  | [] => []
  | v :: rest => v.plain :: plainItems rest

def plainFields : List (String × Snapshot) → List (String × Snapshot)
  | [] => []
  | (k, v) :: rest => (k, v.plain) :: plainFields rest

end

theorem plainItems_eq_map (items : List Snapshot) : plainItems items = items.map plain :=
  eq_map_of_cons rfl (fun _ _ => rfl) items

theorem plainFields_eq_map (fields : List (String × Snapshot)) :
    plainFields fields = fields.map fun (k, v) => (k, v.plain) :=
  eq_map_of_cons rfl (fun _ _ => rfl) fields

end Snapshot

def Binding.plain (b : Binding) : Binding := { b with value := b.value.plain }

/-- A step without its accesses, with every list read as a plain one. -/
def Step.plain (s : Step) : Step :=
  { s with bindings := s.bindings.mapValues Binding.plain, accesses := [] }

namespace Heap.Alike

variable {marks : Bool} {h h' : Heap}

theorem captureObject (H : h.Alike marks h') {item item' : Value → Snapshot}
    (items : ∀ v, (item' v).plain = (item v).plain) (id : ObjId) {o o' : Object}
    (ho : o.Alike marks o') :
    (h'.captureObject item' id o').plain = (h.captureObject item id o).plain := by
  have mapped : ∀ vs : List Value, Snapshot.plainItems (vs.map item') =
      Snapshot.plainItems (vs.map item) := by
    intro vs
    simp only [Snapshot.plainItems_eq_map, List.map_map]
    exact List.map_congr_left fun v _ => items v
  have listed : ∀ (h : Heap) (item : Value → Snapshot) (vs : Array Value) (t : Option ObjId),
      (h.captureObject item id (.list ⟨vs, t⟩)).plain =
        .plainList (Snapshot.plainItems (vs.toList.map item)) := by
    intro h item vs t
    cases t <;> simp only [Heap.captureObject, Snapshot.plain, Option.isSome, if_true,
      Bool.false_eq_true, if_false]
  cases ho with
  | list vs => rw [listed, listed, mapped]
  | function f => simp only [Heap.captureObject, Snapshot.plain, H.repr]
  | same =>
    cases o with
    | list l => rw [listed, listed, mapped]
    | tuple | set | deque => simp only [Heap.captureObject, Snapshot.plain, mapped]
    | dict d =>
      have fields : ∀ entries : Ordered String Snapshot,
          Snapshot.plainFields entries.toList = (entries.mapValues Snapshot.plain).toList := by
        intro entries
        rw [Snapshot.plainFields_eq_map, Ordered.toList_mapValues]
      simp only [Heap.captureObject, Snapshot.plain, fields, Ordered.mapValues_ofList,
        List.map_map, Function.comp_def, H.str, items]
    | «instance» i =>
      simp only [Heap.captureObject, Snapshot.plain, Snapshot.plainFields_eq_map, List.map_map,
        Function.comp_def, H.className, items]
    | _ => simp only [Heap.captureObject, Snapshot.plain, H.repr]

theorem captureWithin (H : h.Alike marks h') (room : Nat) (path : List ObjId) (v : Value) :
    (h'.captureWithin room path v).plain = (h.captureWithin room path v).plain := by
  induction room generalizing path v with
  | zero => rfl
  | succ room ih =>
    cases v with
    | none | bool | int | float | str => rfl
    | builtin b => simp only [Heap.captureWithin, Snapshot.plain, H.repr]
    | ref id =>
      obtain ⟨o, o', left, right, related⟩ := H.entries id
      simp only [Heap.captureWithin]
      split
      · rfl
      · rw [left, right]
        cases related with
        | none => rfl
        | some ho => exact H.captureObject (ih _) id ho

theorem capture (H : h.Alike marks h') (maxDepth : Nat) (v : Value) :
    (h'.capture maxDepth v).plain = (h.capture maxDepth v).plain :=
  H.captureWithin (maxDepth + 1) [] v

end Heap.Alike

end StepTrace
