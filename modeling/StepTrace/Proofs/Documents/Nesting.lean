import StepTrace.Proofs.Documents.RoundTrip
import StepTrace.Proofs.Pictures

/-!
How deep the document of a trace nests. A level of a value takes two brackets at most, the one of
its tag and the one of what is in it, and five more are around every value.
-/

set_option autoImplicit false

namespace StepTrace

namespace Json

mutual

/-- How deep arrays and objects nest in a document. -/
def nesting : Json → Nat
  | arr items => nestingOfItems items + 1
  | obj members => nestingOfMembers members + 1
  | _ => 0

def nestingOfItems : List Json → Nat
  | [] => 0
  | j :: rest => max j.nesting (nestingOfItems rest)

def nestingOfMembers : List (String × Json) → Nat
  | [] => 0
  | (_, j) :: rest => max j.nesting (nestingOfMembers rest)

end

variable {n : Nat}

theorem nestingOfItems_le {items : List Json} :
    nestingOfItems items ≤ n ↔ ∀ j ∈ items, j.nesting ≤ n := by
  induction items with
  | nil => simp [nestingOfItems]
  | cons j rest ih => rw [nestingOfItems, Nat.max_le, ih, List.forall_mem_cons]

theorem nestingOfMembers_le {members : List (String × Json)} :
    nestingOfMembers members ≤ n ↔ ∀ j ∈ members.map Prod.snd, j.nesting ≤ n := by
  induction members with
  | nil => simp [nestingOfMembers]
  | cons member rest ih =>
    rw [nestingOfMembers, Nat.max_le, ih, List.map_cons, List.forall_mem_cons]

theorem nesting_le_succ {j : Json} : j.nesting ≤ n + 1 ↔ ∀ part ∈ j.parts, part.nesting ≤ n := by
  cases j with
  | arr items => simp [nesting, nestingOfItems_le, parts]
  | obj members => simp [nesting, nestingOfMembers_le, parts]
  | _ => simp [nesting, parts]

@[simp] theorem nesting_str (s : String) : (str s).nesting = 0 := by simp [nesting]

@[simp] theorem nesting_int (i : Int) : (int i).nesting = 0 := by simp [nesting]

@[simp] theorem nesting_bool (b : Bool) : (bool b).nesting = 0 := by simp [nesting]

end Json

/-! ### Values -/

namespace Snapshot

variable {n : Nat}

theorem nesting_items {items : List Snapshot} (h : ∀ v ∈ items, v.toJson.nesting ≤ n) :
    (Json.arr (itemsToJson items)).nesting ≤ n + 1 := by
  simpa [Json.nesting_le_succ, Json.parts] using h

theorem parts_fieldsToJson (fields : List (String × Snapshot)) :
    (Json.obj (fieldsToJson fields)).parts = (fields.map Prod.snd).map toJson := by
  simp [Json.parts]

theorem nesting_fields {fields : List (String × Snapshot)}
    (h : ∀ v ∈ fields.map Prod.snd, v.toJson.nesting ≤ n) :
    (Json.obj (fieldsToJson fields)).nesting ≤ n + 1 := by
  rw [Json.nesting_le_succ, parts_fieldsToJson]
  simpa only [List.forall_mem_map] using h

-- A container takes at most two brackets more than what is in it.
theorem nesting_toJson {v : Snapshot} (h : ∀ part ∈ v.parts, part.toJson.nesting ≤ n) :
    v.toJson.nesting ≤ n + 2 := by
  cases v with
  | none | bool | int | str => simp [toJson, Json.nesting]
  | float f =>
    rw [toJson]
    split <;> simp [Json.nesting]
  | plainList items =>
    have inner := nesting_items h
    rw [toJson]
    exact Nat.le_succ_of_le inner
  | list _ items | tuple items | set items | deque items =>
    have inner : (Json.arr (itemsToJson items)).nesting ≤ n + 1 := nesting_items h
    simp only [toJson, tagged, Json.nesting_le_succ (n := n + 1), Json.parts]
    simpa using inner
  | mapping entries =>
    have inner := nesting_fields h
    rw [toJson]
    exact Nat.le_succ_of_le inner
  | object _ _ fields =>
    have inner := nesting_fields h
    simp only [toJson, tagged, Json.nesting_le_succ (n := n + 1), Json.parts]
    simpa using inner
  | cyclic => simp [toJson, tagged, Json.nesting_le_succ (n := n + 1), Json.parts]

end Snapshot

namespace Heap

-- A copy has nothing in it, or it is that of an object.
theorem captureWithin_cases (h : Heap) (room : Nat) (path : List ObjId) (v : Value) :
    ((h.captureWithin (room + 1) path v).parts = [] ∧
        (h.captureWithin (room + 1) path v).fields? = none) ∨
      ∃ id o, h.captureWithin (room + 1) path v =
        h.captureObject (h.captureWithin room (id :: path)) id o := by
  cases v with
  | ref id =>
    by_cases around : id ∈ path
    next => simp [captureWithin_around around, Snapshot.parts, Snapshot.fields?]
    next =>
      cases found : h.get? id with
      | none => simp [captureWithin, around, found, Snapshot.parts, Snapshot.fields?]
      | some o =>
        right
        exact ⟨id, o, captureWithin_fresh around room found⟩
  | _ => simp [captureWithin, Snapshot.parts, Snapshot.fields?]

theorem captureWithin_parts (h : Heap) (room : Nat) (path : List ObjId) (v : Value) :
    ∀ part ∈ (h.captureWithin (room + 1) path v).parts,
      ∃ path' w, part = h.captureWithin room path' w := by
  intro part here
  rcases h.captureWithin_cases room path v with ⟨alone, -⟩ | ⟨id, o, object⟩
  · simp [alone] at here
  · rw [object, parts_captureObject, List.mem_map] at here
    obtain ⟨w, -, rfl⟩ := here
    exact ⟨_, w, rfl⟩

theorem nesting_captureWithin (h : Heap) (room : Nat) (path : List ObjId) (v : Value) :
    (h.captureWithin room path v).toJson.nesting ≤ 2 * room := by
  induction room generalizing path v with
  | zero => simp [captureWithin, elided, Snapshot.toJson]
  | succ room ih =>
    apply Snapshot.nesting_toJson
    intro part here
    obtain ⟨path', w, rfl⟩ := h.captureWithin_parts room path v part here
    exact ih path' w

end Heap

/-! ### Traces -/

theorem Access.nesting_toJson (a : Access) : a.toJson.nesting ≤ 1 := by
  simp [Access.toJson, Json.nesting_le_succ (n := 0), Json.parts]

theorem Binding.nesting_toJson {b : Binding} {n : Nat} (h : b.value.toJson.nesting ≤ n) :
    b.toJson.nesting ≤ n + 1 := by
  cases id : b.id <;> simp [Binding.toJson, id, Json.nesting_le_succ, Json.parts, h]

theorem Step.nesting_toJson {s : Step} {n : Nat}
    (h : ∀ b ∈ s.bindings.values, b.value.toJson.nesting ≤ n) : s.toJson.nesting ≤ n + 3 := by
  have shown : (Json.obj (s.bindings.toList.map fun b => (b.1, b.2.toJson))).nesting ≤ n + 2 := by
    have values : (s.bindings.toList.map fun b => (b.1, b.2.toJson)).map Prod.snd =
        s.bindings.values.map Binding.toJson := by
      simp [Ordered.values]
    rw [Json.nesting_le_succ, Json.parts, values, List.forall_mem_map]
    exact fun b hb => Binding.nesting_toJson (h b hb)
  have accesses : (Json.arr (s.accesses.map Access.toJson)).nesting ≤ n + 2 := by
    rw [Json.nesting_le_succ, Json.parts, List.forall_mem_map]
    intro a _
    have inner := a.nesting_toJson
    omega
  rw [Step.toJson, Json.nesting_le_succ]
  simpa [Json.parts] using ⟨shown, accesses⟩

theorem RawTrace.nesting_toJson {t : RawTrace} {n : Nat}
    (h : ∀ s ∈ t.steps, ∀ b ∈ s.bindings.values, b.value.toJson.nesting ≤ n) :
    t.toJson.nesting ≤ n + 5 := by
  have steps : (Json.arr (t.steps.map Step.toJson)).nesting ≤ n + 4 := by
    rw [Json.nesting_le_succ, Json.parts, List.forall_mem_map]
    exact fun s hs => Step.nesting_toJson (h s hs)
  rw [RawTrace.toJson, Json.nesting_le_succ]
  simpa [Json.parts] using steps

theorem Traces.nesting {config : Config} {source : String} {inputs : List String} {t : RawTrace}
    (h : Traces config source inputs t) : t.toJson.nesting ≤ 7 + 2 * config.maxDepth := by
  have values : t.toJson.nesting ≤ 2 * (config.maxDepth + 1) + 5 := by
    apply RawTrace.nesting_toJson
    intro s hs b hb
    obtain ⟨heap, v, copied⟩ := h.captured s hs b hb
    rw [copied]
    exact heap.nesting_captureWithin (config.maxDepth + 1) [] v
  omega

end StepTrace
