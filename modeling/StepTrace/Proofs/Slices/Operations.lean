import StepTrace.Iteration
import StepTrace.Proofs.Runs
import StepTrace.Proofs.Slices.Items

/-!
Slices that are read, written and deleted.
-/

set_option autoImplicit false

namespace StepTrace

theorem Heap.modify_congr {h : Heap} {id : ObjId} {f g : Object → Object}
    (same : ∀ o, h.get? id = some o → f o = g o) : h.modify id f = h.modify id g := by
  refine congrArg (fun objects => { h with objects }) (Array.ext_getElem? fun i => ?_)
  rw [Array.getElem?_modify, Array.getElem?_modify]
  by_cases here : id = i
  · subst here
    rw [if_pos rfl, if_pos rfl]
    exact Option.map_congr same
  · rw [if_neg here, if_neg here]

theorem Run.changeItems_list {m : Machine} {id : ObjId} {l : ListObject}
    (found : m.heap.get? id = some (.list l)) (f : Array Value → Array Value) :
    changeItems id f m = .ok () (putItems id (f l.items) m) := by
  have same : m.heap.modify id (Object.mapList fun l => { l with items := f l.items }) =
      m.heap.modify id (Object.mapList fun l' => { l' with items := f l.items }) := by
    refine Heap.modify_congr fun o here => ?_
    cases found.symm.trans here
    rfl
  exact congrArg (fun heap => EStateM.Result.ok () { m with heap }) same

namespace Interp

variable {r : Interp} {m m₁ : Machine} {id : ObjId} {l l₁ : ListObject} {b : SliceBounds}
  {s : Slice}

theorem sliceOf_ok {n : Nat} (given : Slice.of? n b = some s) (m : Machine) :
    sliceOf n b m = .ok s m := by
  rw [sliceOf, given]
  rfl

theorem deref?_ref {o : Object} (found : m.heap.get? id = some o) :
    Run.deref? (.ref id) m = .ok (some o) m :=
  congrArg (EStateM.Result.ok · m) found

theorem listOf_list (found : m.heap.get? id = some (.list l)) :
    listOf (.ref id) m = .ok (id, l) m :=
  Run.bind_ok (deref?_ref found)

/-! ### Reading -/

theorem getSlice_text {t : String} (given : Slice.of? t.toList.toArray.size b = some s) :
    getSlice (.str t) b m = .ok (.str (String.ofList (s.select t.toList.toArray).toList)) m :=
  Run.bind_ok (sliceOf_ok given m)

theorem getSlice_list (found : m.heap.get? id = some (.list l))
    (given : Slice.of? l.items.size b = some s) :
    getSlice (.ref id) b m = Run.allocList (s.select l.items) m :=
  (Run.bind_ok (deref?_ref found)).trans (Run.bind_ok (sliceOf_ok given m))

theorem getSlice_tuple {items : Array Value} (found : m.heap.get? id = some (.tuple items))
    (given : Slice.of? items.size b = some s) :
    getSlice (.ref id) b m = Run.allocTuple (s.select items) m :=
  (Run.bind_ok (deref?_ref found)).trans (Run.bind_ok (sliceOf_ok given m))

theorem getSlice_range {p : Progression} (found : m.heap.get? id = some (.range p))
    (given : Slice.of? p.size b = some s) :
    getSlice (.ref id) b m = Run.alloc (.range (p.sliced s)) m :=
  (Run.bind_ok (deref?_ref found)).trans (Run.bind_ok (sliceOf_ok given m))

/-! ### Writing and deleting -/

theorem deleteSlice_list (found : m.heap.get? id = some (.list l))
    (given : Slice.of? l.items.size b = some s) :
    deleteSlice (.ref id) b m = .ok () (Run.putItems id (s.remove l.items) m) := by
  rw [deleteSlice, Run.bind_ok (listOf_list found)]
  exact (Run.bind_ok (sliceOf_ok given m)).trans (Run.changeItems_list found s.remove)

theorem setSlice_list {value : Value} {new : Array Value} (found : m.heap.get? id = some (.list l))
    (collected : r.collect value m = .ok new m₁) (found' : m₁.heap.get? id = some (.list l₁))
    (given : Slice.of? l₁.items.size b = some s) :
    r.setSlice (.ref id) b value m =
      if s.step = 1 then
        .ok () (Run.putItems id (spliced l₁.items s.start.toNat s.count new) m₁)
      else if new.size = s.count then .ok () (Run.putItems id (s.replace l₁.items new) m₁)
      else .error (.fault (.sliceLength new.size s.count)) m₁ := by
  refine (Run.bind_ok (listOf_list found)).trans ((Run.bind_ok collected).trans ?_)
  refine (Run.bind_ok (listOf_list found')).trans ((Run.bind_ok (sliceOf_ok given m₁)).trans ?_)
  by_cases one : s.step = 1
  · rw [if_pos one, if_pos one]
    exact Run.changeItems_list found' _
  · rw [if_neg one, if_neg one]
    by_cases fits : new.size = s.count
    · rw [if_pos fits, if_pos fits]
      exact Run.changeItems_list found' _
    · rw [if_neg fits, if_neg fits]
      rfl

end Interp

/-! ### Slices of sequences -/

-- Items are read at the positions that bounds select, in their order.
def SliceBounds.Reads {α : Type} (b : SliceBounds) (items picked : List α) : Prop :=
  ∃ indices, b.Selects items.length indices ∧ ItemsAt items indices picked

-- The items as a program sees them, when it goes through a progression.
def Progression.items (p : Progression) (h : Heap) : List Value :=
  ((Iteration.progression p.start p.step p.size).toArray h).toList

-- Slices with these bounds are those of the language.
structure SlicesFollow (b : SliceBounds) : Prop where
  -- The positions, which are counted without leaving the words.
  positions : ∀ n : Nat, ∃ s, Slice.of? n b = some s ∧ b.Selects n s.indices ∧
    (n ≤ 2 ^ 62 → b.stride.natAbs ≤ 2 ^ 62 →
      Number.FitsWord ((b.stop n - b.start n).natAbs + b.stride.natAbs - 1))
  text : ∀ (m : Machine) (t : String), ∃ picked, b.Reads t.toList picked ∧
    Interp.getSlice (.str t) b m = .ok (.str (String.ofList picked)) m
  list : ∀ (m : Machine) (id : ObjId) (l : ListObject), m.heap.get? id = some (.list l) →
    ∃ picked : Array Value, b.Reads l.items.toList picked.toList ∧
      Interp.getSlice (.ref id) b m = Run.allocList picked m
  tuple : ∀ (m : Machine) (id : ObjId) (items : Array Value),
    m.heap.get? id = some (.tuple items) → ∃ picked : Array Value,
      b.Reads items.toList picked.toList ∧
        Interp.getSlice (.ref id) b m = Run.allocTuple picked m
  range : ∀ (m : Machine) (id : ObjId) (p : Progression), m.heap.get? id = some (.range p) →
    p.Short → HalfWord b.stride → ∃ q : Progression,
      b.Reads (p.items m.heap) (q.items m.heap) ∧
        Interp.getSlice (.ref id) b m = Run.alloc (.range q) m
  deleted : ∀ (m : Machine) (id : ObjId) (l : ListObject), m.heap.get? id = some (.list l) →
    ∃ (indices : List Nat) (kept : Array Value), b.Selects l.items.size indices ∧
      kept.toList = without l.items.toList indices ∧
      Interp.deleteSlice (.ref id) b m = .ok () (Run.putItems id kept m)
  -- What is written is collected first, which may change the list.
  written : ∀ (r : Interp) (m m₁ : Machine) (id : ObjId) (l l₁ : ListObject) (value : Value)
    (new : Array Value), m.heap.get? id = some (.list l) → r.collect value m = .ok new m₁ →
    m₁.heap.get? id = some (.list l₁) → ∃ indices, b.Selects l₁.items.size indices ∧
      if b.stride = 1 then ∃ items : Array Value,
        Spliced (b.start l₁.items.size).toNat indices new.toList l₁.items.toList items.toList ∧
          r.setSlice (.ref id) b value m = .ok () (Run.putItems id items m₁)
      else if new.size = indices.length then ∃ items : Array Value,
        Replaced indices new.toList l₁.items.toList items.toList ∧
          r.setSlice (.ref id) b value m = .ok () (Run.putItems id items m₁)
      else
        (Fault.sliceLength new.size indices.length).kind.label = "ValueError" ∧
          r.setSlice (.ref id) b value m =
            .error (.fault (.sliceLength new.size indices.length)) m₁

namespace SliceBounds

variable {b : SliceBounds}

theorem reads_select {α : Type} {items : Array α} {s : Slice}
    (given : Slice.of? items.size b = some s) : b.Reads items.toList (s.select items).toList := by
  have selects := selects given
  exact ⟨s.indices, by simpa using selects, Slice.itemsAt_select selects.inside⟩

theorem reads_range {p : Progression} {s : Slice} (given : Slice.of? p.size b = some s)
    (short : p.Short) (shortStep : HalfWord b.stride) (h : Heap) :
    b.Reads (p.items h) ((p.sliced s).items h) := by
  obtain ⟨nonzero, fields⟩ := fields_of_slice given
  have step : s.step = b.stride := by rw [fields]
  have inside := fun (k : Nat) (hk : k < s.count) => place_inside given hk
  have sizes := Progression.size_sliced inside short (step ▸ shortStep) (step ▸ nonzero)
  have length : (p.items h).length = p.size := by simp [Progression.items, Iteration.toArray]
  exact ⟨s.indices, length ▸ selects given, Progression.values_sliced inside sizes⟩

end SliceBounds

/--
A slice with a step that is not zero selects the positions that the language defines. Reading,
deleting and writing act on the items there and on no others.
-/
theorem slices_follow_reference (b : SliceBounds) (nonzero : b.stride ≠ 0) : SlicesFollow b := by
  have given (n : Nat) : ∃ s, Slice.of? n b = some s := ⟨_, b.slice_eq n nonzero⟩
  constructor
  case positions =>
    intro n
    obtain ⟨s, given⟩ := given n
    exact ⟨s, given, SliceBounds.selects given, b.distance_fits n⟩
  case text =>
    intro m t
    obtain ⟨s, given⟩ := given t.toList.toArray.size
    exact ⟨_, SliceBounds.reads_select given, Interp.getSlice_text given⟩
  case list =>
    intro m id l found
    obtain ⟨s, given⟩ := given l.items.size
    exact ⟨_, SliceBounds.reads_select given, Interp.getSlice_list found given⟩
  case tuple =>
    intro m id items found
    obtain ⟨s, given⟩ := given items.size
    exact ⟨_, SliceBounds.reads_select given, Interp.getSlice_tuple found given⟩
  case range =>
    intro m id p found short shortStep
    obtain ⟨s, given⟩ := given p.size
    exact ⟨p.sliced s, SliceBounds.reads_range given short shortStep m.heap,
      Interp.getSlice_range found given⟩
  case deleted =>
    intro m id l found
    obtain ⟨s, given⟩ := given l.items.size
    exact ⟨s.indices, _, SliceBounds.selects given, s.toList_remove l.items,
      Interp.deleteSlice_list found given⟩
  case written =>
    intro r m m₁ id l l₁ value new found collected found'
    obtain ⟨s, given⟩ := given l₁.items.size
    have selects := SliceBounds.selects given
    have count : s.indices.length = s.count := by simp [Slice.indices]
    obtain ⟨-, fields⟩ := SliceBounds.fields_of_slice given
    have step : s.step = b.stride := by rw [fields]
    have start : s.start = b.start l₁.items.size := by rw [fields]
    refine ⟨s.indices, selects, ?_⟩
    rw [Interp.setSlice_list found collected found' given, ← step, ← start, count]
    by_cases one : s.step = 1
    · rw [if_pos one, if_pos one]
      have edges := b.start_mem l₁.items.size
      rw [SliceBounds.first, SliceBounds.last, if_neg (by omega), if_neg (by omega), ← start]
        at edges
      exact ⟨_, Slice.spliced one edges.1 edges.2 selects.inside new, rfl⟩
    · rw [if_neg one, if_neg one]
      by_cases fits : new.size = s.count
      · rw [if_pos fits, if_pos fits]
        exact ⟨_, Slice.replaced selects.nodup selects.inside (fits.trans count.symm), rfl⟩
      · rw [if_neg fits, if_neg fits]
        exact ⟨rfl, rfl⟩

theorem slices_follow_reference_backwards :
    let b : SliceBounds := ⟨none, none, some (-2)⟩
    b.stride ≠ 0 ∧ SlicesFollow b ∧ (Slice.of? 4 b).map Slice.indices = some [3, 1] :=
  ⟨by decide, slices_follow_reference _ (by decide), by decide⟩

end StepTrace
