import StepTrace.Proofs.Documents.RoundTrip
import StepTrace.View.Reconstruction

/-!
The marks of array cells. A cell tells that its item differs from the one before it, or that it was
read or written, exactly when this is so.
-/

set_option autoImplicit false

namespace StepTrace

namespace Snapshot

/-! ### Copies that are the same -/

-- Of a copy itself, not of its parts: it is no fractional number. Fractional numbers are the same
-- if they compare as equal, so two zeros are, whatever their signs, and so are two undefined
-- numbers.
def NotFloat : Snapshot → Prop
  | float _ => False
  | _ => True

theorem sameItems_iff {xs ys : List Snapshot}
    (members : ∀ y ∈ ys, ∀ x : Snapshot, x.same y = true ↔ x = y) :
    sameItems xs ys = true ↔ xs = ys := by
  induction ys generalizing xs with
  | nil => cases xs <;> simp [sameItems]
  | cons y ys ih =>
    obtain ⟨first, others⟩ := List.forall_mem_cons.1 members
    cases xs with
    | nil => simp [sameItems]
    | cons x xs => simp [sameItems, first, ih others]

theorem sameFields_iff {xs ys : List (String × Snapshot)}
    (members : ∀ y ∈ ys.map Prod.snd, ∀ x : Snapshot, x.same y = true ↔ x = y) :
    sameFields xs ys = true ↔ xs = ys := by
  induction ys generalizing xs with
  | nil => cases xs <;> simp [sameFields]
  | cons entry ys ih =>
    obtain ⟨first, others⟩ := List.forall_mem_cons.1 members
    cases xs with
    | nil => simp [sameFields]
    | cons entry' xs => simp [sameFields, first, ih others, Prod.ext_iff]

/-- Without fractional numbers, the same copies are those that are equal. -/
theorem same_iff {y : Snapshot} (noFloats : y.All NotFloat) (x : Snapshot) :
    x.same y = true ↔ x = y := by
  induction noFloats generalizing x with
  | @intro y here _ members =>
    cases y with
    | float f => cases here
    | plainList ys | list _ ys | tuple ys | set ys | deque ys =>
      have items : ∀ xs, sameItems xs ys = true ↔ xs = ys := fun xs => sameItems_iff members
      cases x <;> simp [same, items]
    | mapping ys | object _ _ ys =>
      have fields : ∀ xs, sameFields xs ys = true ↔ xs = ys := fun xs => sameFields_iff members
      cases x <;> simp [same, fields, and_assoc]
    | _ => cases x <;> simp [same]

theorem parts_of_items? {v : Snapshot} {items : List Snapshot} (listed : v.items? = some items) :
    v.parts = items := by
  cases v <;> simp_all [items?, sequenceItems?, parts]

end Snapshot

/-! ### Cells -/

def Cell.isMarked (c : Cell) : AccessKind → Bool
  | .read => c.read
  | .write => c.write

-- What a cell tells of the item in its place.
structure Cell.Exact (c : Cell) (b : Binding) (before : Option Snapshot) (accesses : List Access)
    (i : Nat) (item : Snapshot) : Prop where
  text : c.text = item.text
  changed : c.changed = true ↔ ∃ v items old,
    before = some v ∧ v.items? = some items ∧ items[i]? = some old ∧ old ≠ item
  marked : ∀ kind, c.isMarked kind = true ↔
    ∃ a ∈ accesses, a.kind = kind ∧ b.id = some a.container ∧ a.index = i

namespace ArrayView

theorem isChanged_iff {before : List Snapshot} {i : Nat} {item : Snapshot}
    (noFloats : item.All Snapshot.NotFloat) :
    isChanged before.toArray i item = true ↔ ∃ old, before[i]? = some old ∧ old ≠ item := by
  unfold isChanged
  cases there : before[i]? with
  | none => simp [there]
  | some old => simp [there, ← Snapshot.same_iff noFloats]

theorem isAccessed_iff {accesses : List Access} {id : Option String} {kind : AccessKind} {i : Nat} :
    isAccessed accesses id kind i = true ↔
      ∃ a ∈ accesses, a.kind = kind ∧ id = some a.container ∧ a.index = i := by
  simp [isAccessed, and_assoc]

theorem getElem?_cellsOf (items before : List Snapshot) (id : Option String)
    (accesses : List Access) (i : Nat) :
    (cellsOf items before id accesses)[i]? = items[i]?.map fun item =>
      { text := item.text
        changed := isChanged before.toArray i item
        read := isAccessed accesses id .read i
        write := isAccessed accesses id .write i } := by
  simp [cellsOf]

-- Accesses to other containers and to places outside leave no mark.
theorem cellsOf_filter (items before : List Snapshot) (id : Option String)
    (accesses : List Access) :
    cellsOf items before id (accesses.filter fun a =>
        id = some a.container ∧ 0 ≤ a.index ∧ a.index < items.length) =
      cellsOf items before id accesses := by
  apply List.ext_getElem?
  intro i
  simp only [getElem?_cellsOf]
  by_cases inside : i < items.length
  next =>
    have accessed : ∀ kind, isAccessed (accesses.filter fun a =>
          id = some a.container ∧ 0 ≤ a.index ∧ a.index < items.length) id kind i =
        isAccessed accesses id kind i := by
      intro kind
      rw [Bool.eq_iff_iff, isAccessed_iff, isAccessed_iff]
      grind
    simp only [accessed]
  next => simp [List.getElem?_eq_none (Nat.le_of_not_lt inside)]

theorem exact_cellsOf {b : Binding} {before : Option Snapshot} {accesses : List Access}
    {items : List Snapshot} {i : Nat} {item : Snapshot} (here : items[i]? = some item)
    (noFloats : item.All Snapshot.NotFloat) :
    ∃ c, (cellsOf items ((before.bind Snapshot.items?).getD []) b.id accesses)[i]? = some c ∧
      c.Exact b before accesses i item := by
  rw [getElem?_cellsOf, here]
  refine ⟨_, rfl, ?_⟩
  constructor
  next => rfl
  next =>
    rw [isChanged_iff noFloats]
    cases before with
    | none => simp
    | some v => cases listed : v.items? <;> simp [listed]
  next =>
    intro kind
    cases kind <;> exact isAccessed_iff

end ArrayView

theorem Structure.of?_items {b : Binding} {items : List Snapshot}
    (listed : b.value.items? = some items) (before : Option Snapshot) (accesses : List Access) :
    Structure.of? b before accesses = some (.array (.ofItems (.of b.value) items
      ((before.bind Snapshot.items?).getD []) b.id accesses)) := by
  obtain ⟨typeName, value, id⟩ := b
  cases value <;> simp_all [Structure.of?, Snapshot.shape, Snapshot.items?, Snapshot.sequenceItems?]

/--
A list, tuple, set or deque without fractional numbers is drawn with one cell for every item, in
order. A cell is marked as changed exactly if another item was in its place before, and as read or
written exactly if an access of this kind names the container and the place; all other accesses make
no difference.
-/
theorem highlights_are_exact (b : Binding) (before : Option Snapshot) (accesses : List Access)
    (items : List Snapshot) (listed : b.value.items? = some items)
    (noFloats : b.value.All Snapshot.NotFloat) :
    ∃ view : ArrayView, Structure.of? b before accesses = some (.array view) ∧
      view.brackets = .of b.value ∧ view.cells.length = items.length ∧
      (∀ (i : Nat) (item : Snapshot), items[i]? = some item →
        ∃ c : Cell, view.cells[i]? = some c ∧ c.Exact b before accesses i item) ∧
      Structure.of? b before (accesses.filter fun a =>
        b.id = some a.container ∧ 0 ≤ a.index ∧ a.index < items.length) = some (.array view) := by
  refine ⟨_, Structure.of?_items listed before accesses, rfl, ?_, ?_, ?_⟩
  next => simp [ArrayView.ofItems, ArrayView.cellsOf]
  next =>
    intro i item here
    have inner : item.All Snapshot.NotFloat := by
      apply noFloats.inside
      rw [Snapshot.parts_of_items? listed]
      exact List.mem_of_getElem? here
    exact ArrayView.exact_cellsOf here inner
  next =>
    rw [Structure.of?_items listed]
    simp only [ArrayView.ofItems, ArrayView.cellsOf_filter]

-- The fields of the object come in another order than before, and a third item is new. Of the
-- accesses one is to another list and one before the first place.
theorem highlights_are_exact_nested :
    let items : List Snapshot := [.tuple [.int 1, .str "a"],
      .object "3" "A" [("y", .none), ("x", .int 1)], .cyclic "7"]
    let b : Binding := ⟨"list", .list "7" items, some "7"⟩
    let before : Snapshot := .tuple [.tuple [.int 1, .str "a"],
      .object "3" "A" [("x", .int 1), ("y", .none)]]
    let accesses : List Access := [⟨.read, "7", 0⟩, ⟨.write, "9", 1⟩, ⟨.write, "7", -1⟩]
    ∃ view : ArrayView, Structure.of? b (some before) accesses = some (.array view) ∧
      (view.cells.map fun c => (c.changed, c.read, c.write)) =
        [(false, true, false), (true, false, false), (false, false, false)] ∧
      ∀ (i : Nat) (item : Snapshot), items[i]? = some item →
        ∃ c : Cell, view.cells[i]? = some c ∧ c.Exact b (some before) accesses i item := by
  intro items b before accesses
  have tuple : (Snapshot.tuple [.int 1, .str "a"]).All Snapshot.NotFloat :=
    .intro trivial (by simpa [Snapshot.parts] using ⟨.leaf trivial rfl, .leaf trivial rfl⟩)
  have object : (Snapshot.object "3" "A" [("y", .none), ("x", .int 1)]).All Snapshot.NotFloat :=
    .intro trivial (by simpa [Snapshot.parts] using ⟨.leaf trivial rfl, .leaf trivial rfl⟩)
  have noFloats : b.value.All Snapshot.NotFloat :=
    .intro trivial (by simpa [b, items, Snapshot.parts] using ⟨tuple, object, .leaf trivial rfl⟩)
  obtain ⟨view, drawn, -, -, cells, -⟩ :=
    highlights_are_exact b (some before) accesses items rfl noFloats
  refine ⟨view, drawn, ?_, cells⟩
  rw [Structure.of?_items rfl] at drawn
  obtain rfl := Structure.array.inj (Option.some.inj drawn)
  decide +kernel

end StepTrace
