import Mathlib.Data.List.Nodup
import StepTrace.Snapshot
import StepTrace.View.Shape

/-!
What the copies of instances and of sequences show. The fields of an instance and the items of a
sequence are found again in the copy, each as the copy of its value.
-/

set_option autoImplicit false

namespace StepTrace

theorem toString_injective : Function.Injective (toString : ObjId → String) :=
  fun _ _ => eq_of_toString_eq

theorem unseen {id : ObjId} {path : List ObjId} {seen : List String} (fresh : id ∉ path)
    (known : seen ⊆ path.map toString) : toString id ∉ seen :=
  fun here => fresh ((List.mem_map_of_injective toString_injective).1 (known here))

-- The items of what is drawn as an array.
def Object.sequenceItems? : Object → Option (List Value)
  | .list l => some l.items.toList
  | .tuple items => some items.toList
  | _ => none

-- The items of what may hold neighbors.
def Object.items? : Object → Option (List Value)
  | .set s => some s.values
  | .deque items => some items.toList
  | o => o.sequenceItems?

namespace Heap

-- The value of a field of an instance.
def field? (h : Heap) (id : ObjId) (name : String) : Option Value :=
  match h.get? id with
  | some (.instance i) => i.fields.get? name
  | _ => none

def sequence? (h : Heap) (id : ObjId) : Option (List Value) :=
  (h.get? id).bind Object.sequenceItems?

def collection? (h : Heap) (id : ObjId) : Option (List Value) := (h.get? id).bind Object.items?

variable {h : Heap}

theorem exists_instance_of_field? {id : ObjId} {name : String} {v : Value}
    (here : h.field? id name = some v) : ∃ i, h.get? id = some (.instance i) := by
  unfold field? at here
  split at here
  · next i found => exact ⟨i, found⟩
  · cases here

-- What has items has no fields.
theorem field?_of_collection? {c : ObjId} {items : List Value}
    (listed : h.collection? c = some items) (name : String) : h.field? c name = none := by
  obtain ⟨o, found, listed⟩ := Option.bind_eq_some_iff.1 listed
  cases o with
  | «instance» => cases listed
  | _ => simp [field?, found]

theorem collection?_of_sequence? {c : ObjId} {items : List Value}
    (listed : h.sequence? c = some items) : h.collection? c = some items := by
  obtain ⟨o, found, listed⟩ := Option.bind_eq_some_iff.1 listed
  cases o with
  | list | tuple => simpa [collection?, found, Object.items?] using listed
  | _ => cases listed

-- The fields that the structures are read from are not among those that copies leave out.
theorem visible : ∀ name ∈ [nextField, leftField, rightField, childrenField] ++ neighborFields,
    name.startsWith "__" = false := by
  simp [nextField, leftField, rightField, childrenField, neighborFields, Bool.eq_false_iff,
    String.startsWith_string_iff]

theorem sequenceItems?_captureObject (item : Value → Snapshot) (id : ObjId) (o : Object) :
    (h.captureObject item id o).sequenceItems? = o.sequenceItems?.map (·.map item) := by
  cases o with
  | list l =>
    by_cases tracked : l.tracker.isSome <;>
      simp [captureObject, tracked, Snapshot.sequenceItems?, Object.sequenceItems?]
  | _ => rfl

theorem items?_captureObject (item : Value → Snapshot) (id : ObjId) (o : Object) :
    (h.captureObject item id o).items? = o.items?.map (·.map item) := by
  cases o with
  | list l =>
    by_cases tracked : l.tracker.isSome <;>
      simp [captureObject, tracked, Snapshot.items?, Object.items?, Snapshot.sequenceItems?,
        Object.sequenceItems?]
  | _ => rfl

section

variable {path : List ObjId} {id : ObjId} (fresh : id ∉ path) (room : Nat)
include fresh

theorem captureWithin_instance {i : Instance} (found : h.get? id = some (.instance i)) :
    ∃ fields, h.captureWithin (room + 1) path (.ref id) =
        .object (toString id) (h.className i.cls) fields ∧
      ∀ name, name.startsWith "__" = false →
        fields.lookup name = (h.field? id name).map (h.captureWithin room (id :: path)) := by
  refine ⟨_, captureWithin_fresh fresh room found, fun name visible => ?_⟩
  rw [← Ordered.toList_mapValues, Ordered.lookup_toList, Ordered.get?_mapValues,
    Ordered.get?_filter (by simp [visible])]
  simp [field?, found]

theorem sequenceItems?_capture {items : List Value} (listed : h.sequence? id = some items) :
    (h.captureWithin (room + 1) path (.ref id)).sequenceItems? =
      some (items.map (h.captureWithin room (id :: path))) := by
  obtain ⟨o, found, listed⟩ := Option.bind_eq_some_iff.1 listed
  rw [captureWithin_fresh fresh room found, sequenceItems?_captureObject, listed]
  rfl

theorem items?_capture {items : List Value} (listed : h.collection? id = some items) :
    (h.captureWithin (room + 1) path (.ref id)).items? =
      some (items.map (h.captureWithin room (id :: path))) := by
  obtain ⟨o, found, listed⟩ := Option.bind_eq_some_iff.1 listed
  rw [captureWithin_fresh fresh room found, items?_captureObject, listed]
  rfl

end

end Heap

end StepTrace
