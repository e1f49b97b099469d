import StepTrace.Proofs.Sorting.Stable
import StepTrace.Proofs.TracedRun

/-!
Rearranging the items of a list. What the program does to the list meanwhile makes no difference to
its items afterwards: they are the new ones, or exactly the old ones if the run stops.
-/

set_option autoImplicit false

namespace StepTrace

section

variable {α : Type} {m m₁ : Machine} {id : ObjId} {l : ListObject}

-- A list stays a list, with the same tracker.
theorem Heap.Grows.list {h h' : Heap} (g : h.Grows h') (found : h.get? id = some (.list l)) :
    ∃ items, h'.get? id = some (.list { l with items }) := by
  obtain ⟨o, found', same⟩ := g.object found
  cases o with
  | list l' =>
    simp only [Object.shell, Object.list.injEq, ListObject.mk.injEq, true_and] at same
    exact ⟨l'.items, by rw [found', ← same]⟩
  | _ => cases same

theorem Run.items_of_putItems {items : Array Value}
    (found : (putItems id items m).heap.get? id = some (.list l)) : l.items = items := by
  rw [putItems, Heap.get?_modify, if_pos rfl, Option.map_eq_some_iff] at found
  obtain ⟨o, -, put⟩ := found
  cases o with
  | list => cases put; rfl
  | _ => cases put

-- How it ends to rearrange the items of a list, which is empty meanwhile.
inductive Rearranged (id : ObjId) (l : ListObject) (x : Run (Array Value × α)) (m : Machine) :
    EStateM.Result Stop Machine α → Prop
  | done {items : Array Value} {a : α} {m₁ : Machine}
    (body : x (Run.putItems id #[] m) = .ok (items, a) m₁)
    (found : (Run.putItems id items m₁).heap.get? id = some (.list { l with items })) :
    Rearranged id l x m (.ok a (Run.putItems id items m₁))
  | stopped {e : Stop} {m₁ : Machine} (body : x (Run.putItems id #[] m) = .error e m₁)
    (found : (Run.putItems id l.items m₁).heap.get? id = some (.list l)) :
    Rearranged id l x m (.error e (Run.putItems id l.items m₁))

theorem Run.rearranged {x : Array Value → Run (Array Value × α)}
    (found : m.heap.get? id = some (.list l))
    (grows : m.heap.Grows (state (rearrange id x m)).heap) :
    Rearranged id l (x l.items) m (rearrange id x m) := by
  obtain ⟨items, stays⟩ := grows.list found
  rw [rearrange_of_list found] at stays ⊢
  cases body : x l.items (putItems id #[] m) with
  | ok a m₁ =>
    rw [body] at stays
    obtain rfl : items = a.1 := items_of_putItems stays
    exact .done body stays
  | error e m₁ =>
    rw [body] at stays
    obtain rfl : items = l.items := items_of_putItems stays
    exact .stopped body stays

end

theorem Sound.grows {α : Type} {m : Machine} {A : Machine → α → Prop} {x : Run α}
    (sound : Sound m A x) (intact : m.Intact) : m.heap.Grows (Run.state (x m)).heap := by
  obtain ⟨_, _, course, _⟩ := sound.history intact
  exact (course.sound intact).2.toGrows

namespace Interp

variable {m : Machine} {id : ObjId} {l : ListObject}

theorem sortMethod_eq (r : Interp) {keywords : Keywords}
    (known : keywords.without ["key", "reverse"] = []) :
    r.sortMethod id [] keywords m = Run.rearrange id (fun items => do
      return (← r.sorted items (keywords.lookup "key")
        ((keywords.lookup "reverse").any m.heap.truthy), .none)) m := by
  unfold sortMethod
  rw [known]
  rfl

-- Arguments that are refused leave the state as it is.
theorem sortMethod_refused (r : Interp) (m : Machine) (id : ObjId) {args : List Value}
    {keywords : Keywords}
    (refused : args ≠ [] ∨ keywords.without ["key", "reverse"] ≠ []) :
    ∃ e, r.sortMethod id args keywords m = .error e m := by
  cases args with
  | cons => exact ⟨_, rfl⟩
  | nil =>
    obtain ⟨⟨name, v⟩, rest, left⟩ := List.exists_cons_of_ne_nil (refused.resolve_left (by simp))
    refine ⟨.fault (.unexpectedKeyword "sort" name), ?_⟩
    unfold sortMethod
    rw [left]
    rfl

-- How it ends to call the method `sort` of a list.
inductive ListSort (r : Interp) (id : ObjId) (l : ListObject) (keywords : Keywords) (m : Machine) :
    EStateM.Result Stop Machine Value → Prop
  | done {items : Array Value} {m₁ : Machine}
    (sorted : r.sorted l.items (keywords.lookup "key")
      ((keywords.lookup "reverse").any m.heap.truthy) (Run.putItems id #[] m) = .ok items m₁)
    (found : (Run.putItems id items m₁).heap.get? id = some (.list { l with items })) :
    ListSort r id l keywords m (.ok .none (Run.putItems id items m₁))
  | stopped {e : Stop} {m' : Machine} (found : m'.heap.get? id = some (.list l)) :
    ListSort r id l keywords m (.error e m')

theorem sortMethod_run {r : Interp} (R : r.Sound) (args : List Value) {keywords : Keywords}
    (intact : m.Intact) (home : m.heap.Hosts keywords) (found : m.heap.get? id = some (.list l)) :
    ListSort r id l keywords m (r.sortMethod id args keywords m) := by
  by_cases refused : args ≠ [] ∨ keywords.without ["key", "reverse"] ≠ []
  · obtain ⟨e, refused⟩ := sortMethod_refused r m id refused
    rw [refused]
    exact .stopped found
  · simp only [not_or, not_not] at refused
    obtain ⟨rfl, known⟩ := refused
    have safe : Safe m (r.sortMethod id [] keywords) := R.sortMethod id home
    have grows := safe.grows intact
    rw [sortMethod_eq r known] at grows ⊢
    have ended := Run.rearranged found grows
    generalize Run.rearrange id _ m = result at ended
    cases ended with
    | stopped _ found => exact .stopped found
    | done done found =>
      cases sorted : r.sorted l.items (keywords.lookup "key")
          ((keywords.lookup "reverse").any m.heap.truthy) (Run.putItems id #[] m) with
      | error e m₁ => cases (Run.bind_error sorted).symm.trans done
      | ok items m₁ =>
        cases (Run.bind_ok sorted).symm.trans done
        exact .done sorted found

theorem listMethod_sort (r : Interp) (id : ObjId) (args : List Value) (keywords : Keywords) :
    r.listMethod id "sort" args keywords = r.sortMethod id args keywords := by
  unfold listMethod
  rw [if_pos rfl]

end Interp

/--
To sort asks for all keys before any comparison, gives a permutation whatever the comparisons say,
and a stably sorted one if they say a preorder. The method `sort` of a list puts it into the list,
or leaves the list with exactly its old items if a call fails.
-/
theorem sorting_is_stable :
    (∀ (r : Interp) (key : Option Value) (reverse : Bool) (items : Array Value) (m : Machine),
      r.SortRun key reverse items m (r.sorted items key reverse m)) ∧
    ∀ (fuel : Nat) (args : List Value) (keywords : Keywords) (m : Machine) (id : ObjId)
      (l : ListObject), m.Intact → m.heap.Hosts keywords → m.heap.get? id = some (.list l) →
      (interp fuel).ListSort id l keywords m
        ((interp fuel).listMethod id "sort" args keywords m) := by
  refine ⟨Interp.sorted_run, fun fuel args keywords m id l intact home found => ?_⟩
  rw [Interp.listMethod_sort]
  exact Interp.sortMethod_run (interp_sound fuel) args intact home found

-- A list of two numbers.
def Machine.sorting : Machine := Run.state (Run.allocList #[.int 2, .int 1] (.start {} []))

theorem Machine.intact_sorting : Machine.sorting.Intact := by
  have numbers : (Machine.start {} []).heap.Hosts #[Value.int 2, .int 1] := by
    intro v hv
    rcases List.mem_pair.1 (Array.mem_toList_iff.2 hv) with rfl | rfl <;> trivial
  have safe := Sound.alloc (o := .list ⟨#[.int 2, .int 1], none⟩) (m := .start {} []) numbers rfl
  obtain ⟨_, _, course, _⟩ := safe.history (Machine.intact_start {} [])
  exact (course.sound (Machine.intact_start {} [])).1

theorem sorting_is_stable_two_numbers :
    let l : ListObject := ⟨#[.int 2, .int 1], none⟩
    let keywords : Keywords := [("reverse", .bool false)]
    Machine.sorting.Intact ∧ Machine.sorting.heap.Hosts keywords ∧
      Machine.sorting.heap.get? 0 = some (.list l) ∧
      (interp 0).ListSort 0 l keywords .sorting
        ((interp 0).listMethod 0 "sort" [] keywords .sorting) ∧
      (Run.state ((interp 0).listMethod 0 "sort" [] keywords .sorting)).heap.repr (.ref 0) =
        "[1, 2]" := by
  intro l keywords
  have home : Machine.sorting.heap.Hosts keywords := by
    intro e he
    obtain rfl : e = ("reverse", .bool false) := List.mem_singleton.1 he
    exact ⟨trivial, trivial⟩
  refine ⟨Machine.intact_sorting, home, rfl, ?_, ?_⟩
  · exact sorting_is_stable.2 0 [] keywords .sorting 0 l Machine.intact_sorting home rfl
  · decide +kernel

end StepTrace
