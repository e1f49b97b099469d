import StepTrace.Proofs.Displays
import StepTrace.Proofs.Structures.Fields
import StepTrace.Snapshot

/-!
The texts of values and the texts of their copies. What a program sees of a list, a tuple, a set or
a deque is what is shown of its copy, as long as nothing is left out of the copy.
-/

set_option autoImplicit false

namespace StepTrace

namespace Heap

variable {h : Heap} {v : Value} {id id' : ObjId} {o : Object} {items : List Value} {depth : Nat}

theorem elements_of_items? (holds : o.items? = some items) : o.elements = items := by
  cases o <;> simp_all [Object.items?, Object.sequenceItems?, Object.elements]

theorem displays_iff (holds : h.collection? id = some items) :
    h.Displays id id' ↔ .ref id' ∈ items := by
  obtain ⟨o, found, holds⟩ := Option.bind_eq_some_iff.1 holds
  simp [Displays, found, elements_of_items? holds]

/--
Values made of scalars, lists, tuples, sets and deques, with no item more than `depth` levels below
the value itself. None of them is inside of itself: it would be there on all levels.
-/
inductive Composed (h : Heap) : Nat → Value → Prop
  | none (depth : Nat) : Composed h depth .none
  | bool (depth : Nat) (b : Bool) : Composed h depth (.bool b)
  | int (depth : Nat) (n : Int64) : Composed h depth (.int n)
  | float (depth : Nat) (f : Float) : Composed h depth (.float f)
  | str (depth : Nat) (s : String) : Composed h depth (.str s)
  | empty (depth : Nat) {id : ObjId} (holds : h.collection? id = some []) :
    Composed h depth (.ref id)
  | items {depth : Nat} {id : ObjId} {items : List Value} (holds : h.collection? id = some items)
    (inside : ∀ v ∈ items, Composed h depth v) : Composed h (depth + 1) (.ref id)

namespace Composed

theorem of_displays (composed : h.Composed depth (.ref id)) (shown : h.Displays id id') :
    ∃ inner, depth = inner + 1 ∧ h.Composed inner (.ref id') := by
  cases composed with
  | empty _ holds => cases (displays_iff holds).1 shown
  | items holds inside => exact ⟨_, rfl, inside _ ((displays_iff holds).1 shown)⟩

theorem of_way (composed : h.Composed depth (.ref id)) (way : Relation.TransGen h.Displays id id') :
    ∃ inner < depth, h.Composed inner (.ref id') := by
  induction way with
  | single step =>
    obtain ⟨inner, rfl, below⟩ := composed.of_displays step
    exact ⟨inner, Nat.lt_succ_self inner, below⟩
  | tail _ step ih =>
    obtain ⟨outer, less, above⟩ := ih
    obtain ⟨inner, rfl, below⟩ := above.of_displays step
    exact ⟨inner, by omega, below⟩

-- On a way round a value would come with ever fewer levels below it.
theorem no_way_round (composed : h.Composed depth (.ref id)) :
    ¬ Relation.TransGen h.Displays id id := by
  intro way
  induction depth using Nat.strongRecOn with
  | ind depth ih =>
    obtain ⟨inner, less, composed⟩ := composed.of_way way
    exact ih inner less composed

theorem unfolds (composed : h.Composed depth v) : h.Unfolds v := by
  rintro start id rfl way
  rcases Relation.reflTransGen_iff_eq_or_transGen.1 way with rfl | way
  · exact composed.no_way_round
  · obtain ⟨inner, -, composed⟩ := composed.of_way way
    exact composed.no_way_round

end Composed

theorem text_captureObject (holds : o.items? = some items) (item : Value → Snapshot) (id : ObjId) :
    (h.captureObject item id o).text = h.objectText (fun v => (item v).text) o := by
  have listed : ∀ vs : List Value, ∀ out,
      appendSeparated (fun out v => out ++ (item v).text) out vs =
        out ++ ", ".intercalate (Snapshot.texts (vs.map item)) := by
    intro vs out
    rw [Snapshot.texts_eq_map, List.map_map]
    exact appendSeparated_map (fun _ _ _ => rfl) out
  unfold objectText
  cases o with
  | list l =>
    by_cases tracked : l.tracker.isSome <;>
      simp [captureObject, tracked, Snapshot.text, appendObject, listed]
  | tuple vs =>
    unfold captureObject appendObject
    dsimp only
    -- a single item is followed by a comma
    rcases vs.toList with _ | ⟨v, _ | ⟨w, rest⟩⟩ <;>
      simp [Snapshot.text, Snapshot.texts, listed]
  | set s =>
    unfold captureObject appendObject
    dsimp only
    rw [← Ordered.isEmpty_values]
    rcases s.values with _ | ⟨v, rest⟩ <;> simp [Snapshot.text, Snapshot.texts, listed]
  | deque vs => simp [captureObject, Snapshot.text, appendObject, listed]
  | _ => cases holds

theorem text_captureWithin_ref (holds : h.collection? id = some items)
    (unfolds : h.Unfolds (.ref id)) {path : List ObjId} (above : Above h.Displays path (.ref id))
    {room : Nat}
    (inside : ∀ v ∈ items, (h.captureWithin room (id :: path) v).text = h.repr v) :
    (h.captureWithin (room + 1) path (.ref id)).text = h.repr (.ref id) := by
  obtain ⟨o, found, holds⟩ := Option.bind_eq_some_iff.1 holds
  have fresh := above.fresh (unfolds id id rfl .refl)
  rw [captureWithin_fresh fresh room found, text_captureObject holds,
    h.repr_eq_objectText unfolds found]
  apply objectText_congr
  rwa [elements_of_items? holds]

theorem Composed.text_captureWithin (composed : h.Composed depth v) {path : List ObjId}
    (above : Above h.Displays path v) :
    (h.captureWithin (depth + 1) path v).text = h.repr v := by
  induction composed generalizing path with
  | none | bool | int | float | str =>
    simp [captureWithin, Snapshot.text, repr, appendValue]
  | empty depth holds =>
    have unfolds := (Composed.empty depth holds).unfolds
    exact text_captureWithin_ref holds unfolds above (by simp)
  | items holds inside ih =>
    have unfolds := (Composed.items holds inside).unfolds
    apply text_captureWithin_ref holds unfolds above
    intro u hu
    apply ih u hu
    apply above.step
    rintro b rfl
    exact (displays_iff holds).2 hu

end Heap

/--
A value made of scalars, lists, tuples, sets and deques is written in the same way as its copy, if
the copy is deep enough to hold all items.
-/
theorem renderings_agree (h : Heap) (depth : Nat) (v : Value) (composed : h.Composed depth v) :
    (h.capture depth v).text = h.repr v :=
  composed.text_captureWithin (.nil v)

-- A tuple is an item of a list, and on the next level of a deque in it.
theorem renderings_agree_shared_tuple :
    let h : Heap := ⟨#[.list ⟨#[.ref 1, .ref 2, .ref 3], some 0⟩, .tuple #[.str "it's"],
      .set .empty, .deque #[.none, .ref 1]], 4⟩
    h.Composed 3 (.ref 0) ∧ (h.capture 3 (.ref 0)).text = h.repr (.ref 0) ∧
      h.repr (.ref 0) = "[(\"it's\",), set(), deque([None, (\"it's\",)])]" := by
  intro h
  have tuple : ∀ depth, h.Composed (depth + 1) (.ref 1) := by
    intro depth
    apply Heap.Composed.items rfl
    simp [Heap.Composed.str]
  have set : h.Composed 2 (.ref 2) := .empty 2 rfl
  have deque : h.Composed 2 (.ref 3) := by
    apply Heap.Composed.items rfl
    simp [Heap.Composed.none, tuple]
  have composed : h.Composed 3 (.ref 0) := by
    apply Heap.Composed.items rfl
    simp [tuple, set, deque]
  exact ⟨composed, renderings_agree h 3 (.ref 0) composed, by decide +kernel⟩

end StepTrace
