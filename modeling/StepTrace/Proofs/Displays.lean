import StepTrace.Grammar.Statement
import StepTrace.Proofs.Copies
import StepTrace.Proofs.Literals.Printing
import StepTrace.Proofs.Methods

/-!
The texts of containers. A text is put together from the texts that the heap gives to the elements;
for those no method of the program is asked.
-/

set_option autoImplicit false

namespace StepTrace

namespace Object

-- The values that the text of an object shows.
def elements : Object → List Value
  | .list l => l.items.toList
  | .tuple items | .deque items => items.toList
  | .set s => s.values
  | .dict d => d.factory.toList ++ d.entries.values.flatMap fun e => [e.1, e.2]
  | _ => []

/--
How a list, a tuple, a set or a dictionary without a factory is written, with the texts of its
elements.
-/
def written? (text : Value → String) : Object → Option String
  | .list l => some ("[" ++ ", ".intercalate (l.items.toList.map text) ++ "]")
  | .tuple items =>
    match items.toList with
    | [v] => some ("(" ++ text v ++ ",)")
    | vs => some ("(" ++ ", ".intercalate (vs.map text) ++ ")")
  | .set s =>
    match s.values with
    | [] => some "set()"
    | vs => some ("\x7b" ++ ", ".intercalate (vs.map text) ++ "\x7d")
  | .dict d =>
    if d.factory.isNone then
      let entries := d.entries.values.map fun e => text e.1 ++ ": " ++ text e.2
      some ("\x7b" ++ ", ".intercalate entries ++ "\x7d")
    else none
  | _ => none

end Object

theorem appendSeparated_map {α : Type} {item : String → α → String} {text : α → String}
    {as : List α} (same : ∀ a ∈ as, ∀ out, item out a = out ++ text a) (out : String) :
    appendSeparated item out as = out ++ ", ".intercalate (as.map text) := by
  refine appendSeparated_eq ?_ out
  rw [List.forall₂_map_right_iff, List.forall₂_same]
  exact same

theorem appendSeparated_pairs {item : String → Value → String} {text : Value → String}
    {entries : List (Value × Value)}
    (same : ∀ e ∈ entries, ∀ v ∈ [e.1, e.2], ∀ out, item out v = out ++ text v) (out : String) :
    appendSeparated (fun out (e : Value × Value) => item (item out e.1 ++ ": ") e.2) out entries =
      out ++ ", ".intercalate (entries.map fun e => text e.1 ++ ": " ++ text e.2) := by
  refine appendSeparated_map (fun e he out => ?_) out
  rw [same e he e.1 (by simp), same e he e.2 (by simp)]
  simp only [String.append_assoc]

namespace Heap

variable {h : Heap} {id : ObjId} {o : Object} {v : Value} {path path' : List ObjId}

/-! ### Texts of objects -/

-- The text of an object, with the texts of its elements.
def objectText (h : Heap) (text : Value → String) (o : Object) : String :=
  h.appendObject (fun out v => out ++ text v) "" o

theorem appendObject_eq {item : String → Value → String} {text : Value → String}
    (same : ∀ v ∈ o.elements, ∀ out, item out v = out ++ text v) (out : String) :
    h.appendObject item out o = out ++ h.objectText text o := by
  have listed : ∀ vs : List Value, (∀ v ∈ vs, v ∈ o.elements) → ∀ out,
      appendSeparated item out vs = out ++ ", ".intercalate (vs.map text) := fun vs among =>
    appendSeparated_map fun v hv => same v (among v hv)
  have plain : ∀ vs : List Value, ∀ out, appendSeparated (fun out v => out ++ text v) out vs =
      out ++ ", ".intercalate (vs.map text) := fun vs => appendSeparated_map fun _ _ _ => rfl
  unfold objectText
  cases o with
  | list l =>
    have items := listed l.items.toList fun _ => id
    simp [appendObject, items, plain, String.append_assoc]
  | tuple items =>
    have several := listed items.toList fun _ => id
    unfold appendObject
    dsimp only
    split
    · next v single => simp [same v (by simp [Object.elements, single]), String.append_assoc]
    · simp [several, plain, String.append_assoc]
  | deque items =>
    have items := listed items.toList fun _ => id
    simp [appendObject, items, plain, String.append_assoc]
  | set s =>
    have items := listed s.values fun _ => id
    by_cases empty : s.isEmpty <;> simp [appendObject, empty, items, plain, String.append_assoc]
  | dict d =>
    have parts : ∀ e ∈ d.entries.values, ∀ v ∈ [e.1, e.2], v ∈ (Object.dict d).elements :=
      fun e he v hv => List.mem_append_right _ (List.mem_flatMap.2 ⟨e, he, hv⟩)
    have entries := appendSeparated_pairs fun e he v hv => same v (parts e he v hv)
    have plainEntries := @appendSeparated_pairs (fun out v => out ++ text v) text d.entries.values
      fun _ _ _ _ _ => rfl
    unfold appendObject
    dsimp only at plainEntries ⊢
    split
    · next f given =>
      have factory := same f (by simp [Object.elements, given])
      rw [entries, plainEntries, factory]
      simp only [String.append_assoc, String.empty_append]
    · rw [entries, plainEntries]
      simp only [String.append_assoc, String.empty_append]
  | _ => simp [appendObject, String.append_assoc]

theorem objectText_congr {text text' : Value → String} (same : ∀ v ∈ o.elements, text v = text' v) :
    h.objectText text o = h.objectText text' o := by
  have written := @appendObject_eq h o (fun out v => out ++ text v) text'
    (fun v hv out => by rw [same v hv]) ""
  rwa [String.empty_append] at written

theorem objectText_of_written? {text : Value → String} {whole : String}
    (written : o.written? text = some whole) : h.objectText text o = whole := by
  have listed : ∀ vs : List Value, ∀ out, appendSeparated (fun out v => out ++ text v) out vs =
      out ++ ", ".intercalate (vs.map text) := fun vs => appendSeparated_map fun _ _ _ => rfl
  unfold objectText
  cases o with
  | list l =>
    cases written
    simp [appendObject, listed]
  | tuple items =>
    unfold Object.written? at written
    unfold appendObject
    dsimp only at written ⊢
    generalize items.toList = vs at written ⊢
    rcases vs with _ | ⟨v, _ | ⟨w, rest⟩⟩ <;> cases written <;> simp [listed]
  | set s =>
    unfold Object.written? at written
    rw [appendObject, ← Ordered.isEmpty_values]
    dsimp only at written
    split at written <;> cases written
    · next none => simp [none]
    · next some =>
      have filled : s.values.isEmpty = false := List.isEmpty_eq_false_iff.2 some
      simp [filled, listed]
  | dict d =>
    unfold Object.written? at written
    dsimp only at written
    split at written
    · next plain =>
      cases written
      have entries := @appendSeparated_pairs (fun out v => out ++ text v) text d.entries.values
        fun _ _ _ _ _ => rfl
      rw [appendObject, Option.isNone_iff_eq_none.1 plain]
      dsimp only at entries ⊢
      rw [entries, String.empty_append]
    · cases written
  | _ => cases written

theorem appendValue_append (h : Heap) (room : Nat) (path : List ObjId) (out : String) (v : Value) :
    h.appendValue room path out v = out ++ h.appendValue room path "" v := by
  induction room generalizing path out v with
  | zero => simp [appendValue]
  | succ room ih =>
    cases v with
    | ref id =>
      cases found : h.get? id with
      | none => simp [appendValue, found]
      | some o =>
        have object := @appendObject_eq h o (h.appendValue room (id :: path))
          (h.appendValue room (id :: path) "") fun v _ out => ih (id :: path) out v
        by_cases around : id ∈ path <;> simp [appendValue, found, around, object]
    | builtin b => by_cases type : b.isType <;> simp [appendValue, type, String.append_assoc]
    | _ => simp [appendValue]

/-! ### Containers inside each other -/

-- The text of an object goes into another one.
def Displays (h : Heap) (a b : ObjId) : Prop := ∃ o, h.get? a = some o ∧ .ref b ∈ o.elements

-- The text of a value comes to no object that it is inside of.
def Unfolds (h : Heap) (v : Value) : Prop :=
  ∀ start id, v = .ref start → Relation.ReflTransGen h.Displays start id →
    ¬ Relation.TransGen h.Displays id id

theorem Unfolds.element (unfolds : h.Unfolds (.ref id)) (found : h.get? id = some o)
    (hv : v ∈ o.elements) : h.Unfolds v := by
  rintro start far rfl way
  exact unfolds id far rfl (.head ⟨o, found, hv⟩ way)

theorem Unfolds.of_lt (down : ∀ a b, h.Displays a b → b < a) (v : Value) : h.Unfolds v := by
  intro start id _ _ loop
  have below : ∀ b, Relation.TransGen h.Displays id b → b < id := by
    intro b way
    induction way with
    | single step => exact down _ _ step
    | tail _ step ih => exact Nat.lt_trans (down _ _ step) ih
  exact Nat.lt_irrefl id (below id loop)

-- The containers that have been entered on the way to a value, where there is room to enter all
-- others.
structure Entered (h : Heap) (path : List ObjId) (room : Nat) (v : Value) : Prop where
  above : Above h.Displays path v
  distinct : path.Nodup
  known : ∀ p ∈ path, p < h.size
  room : h.size < room + path.length

theorem Entered.start (h : Heap) (v : Value) : h.Entered [] (h.size + 2) v :=
  ⟨.nil v, .nil, List.forall_mem_nil _, by simp⟩

theorem Entered.room_pos {room : Nat} (entered : h.Entered path room v) :
    ∃ left, room = left + 1 := by
  have few : path.length ≤ h.size := by
    have among : path ⊆ List.range h.size := fun p hp => List.mem_range.2 (entered.known p hp)
    simpa using (entered.distinct.subperm among).length_le
  have := entered.room
  exact ⟨room - 1, by omega⟩

theorem Entered.enter {room : Nat} (entered : h.Entered path (room + 1) (.ref id))
    (unfolds : h.Unfolds (.ref id)) (found : h.get? id = some o) :
    id ∉ path ∧ ∀ v ∈ o.elements, h.Entered (id :: path) room v := by
  have fresh := entered.above.fresh (unfolds id id rfl .refl)
  refine ⟨fresh, fun v hv => ⟨?_, List.nodup_cons.2 ⟨fresh, entered.distinct⟩, ?_, ?_⟩⟩
  · refine entered.above.step ?_
    rintro b rfl
    exact ⟨o, found, hv⟩
  · exact List.forall_mem_cons.2 ⟨lt_size found, entered.known⟩
  · have := entered.room
    rw [List.length_cons]
    omega

-- The text does not depend on what has been entered on the way.
theorem Entered.appendValue_eq {room room' : Nat} (unfolds : h.Unfolds v)
    (entered : h.Entered path room v) (entered' : h.Entered path' room' v) :
    h.appendValue room path "" v = h.appendValue room' path' "" v := by
  induction room generalizing room' path path' v with
  | zero =>
    obtain ⟨left, never⟩ := entered.room_pos
    cases never
  | succ room ih =>
    obtain ⟨room', rfl⟩ := entered'.room_pos
    cases v with
    | ref id =>
      cases found : h.get? id with
      | none => simp [appendValue, found]
      | some o =>
        obtain ⟨fresh, inner⟩ := entered.enter unfolds found
        obtain ⟨fresh', inner'⟩ := entered'.enter unfolds found
        rw [Spells.appendValue_ref found fresh, Spells.appendValue_ref found fresh',
          appendObject_eq fun v _ out => h.appendValue_append room _ out v,
          appendObject_eq fun v _ out => h.appendValue_append room' _ out v,
          objectText_congr fun v hv => ih (unfolds.element found hv) (inner v hv) (inner' v hv)]
    | _ => rfl

theorem repr_eq_objectText (unfolds : h.Unfolds (.ref id)) (found : h.get? id = some o) :
    h.repr (.ref id) = h.objectText h.repr o := by
  obtain ⟨fresh, inner⟩ := (Entered.start h (.ref id)).enter unfolds found
  rw [repr, Spells.appendValue_ref found fresh,
    appendObject_eq fun v _ out => h.appendValue_append _ _ out v, String.empty_append]
  exact objectText_congr fun v hv =>
    (inner v hv).appendValue_eq (unfolds.element found hv) (Entered.start h v)

end Heap

/-! ### What a program sees -/

namespace Interp

variable {r : Interp} {m m' : Machine} {v : Value} {id : ObjId} {o : Object} {s : String}

theorem callValue_repr (shown : r.represent v m = .ok s m') :
    r.callValue (.builtin .repr) [v] [] m = .ok (.str s) m' := by
  have run : r.valueFunction .repr [v] [] m = .ok (.str s) m' := Run.bind_ok shown
  exact Run.bind_ok run

theorem callValue_str (shown : r.display v m = .ok s m') :
    r.callValue (.builtin .str) [v] [] m = .ok (.str s) m' := by
  have run : r.valueFunction .str [v] [] m = .ok (.str s) m' := Run.bind_ok shown
  exact Run.bind_ok run

-- Without a method of its own a value is written as the heap writes it.
theorem represent_plain (missing : m.heap.method? v "__repr__" = none) :
    r.represent v m = .ok (m.heap.repr v) m :=
  (Run.bind_ok (special_of_none missing)).trans (Run.heap_bind _ m)

theorem display_container (found : m.heap.get? id = some o) {text : Value → String}
    (written : o.written? text = some s) :
    r.display (.ref id) m = .ok (m.heap.repr (.ref id)) m := by
  have here : Run.deref? (.ref id) m = .ok (some o) m := congrArg (EStateM.Result.ok · m) found
  refine (Run.bind_ok here).trans ?_
  cases o with
  | list | tuple | set | dict => rfl
  | _ => cases written

end Interp

/--
`str` and `repr` write a container with the texts that the heap gives to its elements. `repr` gives
an element this text unless it is an instance whose class has a `__repr__`.
-/
theorem containers_show_heap_texts (r : Interp) (m : Machine) (id : ObjId) (o : Object)
    (whole : String) (found : m.heap.get? id = some o) (unfolds : m.heap.Unfolds (.ref id))
    (written : o.written? m.heap.repr = some whole) :
    r.callValue (.builtin .str) [.ref id] [] m = .ok (.str whole) m ∧
    r.callValue (.builtin .repr) [.ref id] [] m = .ok (.str whole) m ∧
    ∀ v ∈ o.elements, m.heap.method? v "__repr__" = none →
      r.callValue (.builtin .repr) [v] [] m = .ok (.str (m.heap.repr v)) m := by
  have text : m.heap.repr (.ref id) = whole :=
    (m.heap.repr_eq_objectText unfolds found).trans (Heap.objectText_of_written? written)
  have plain : m.heap.method? (.ref id) "__repr__" = none := by
    rw [Heap.method?, Heap.deref?, found]
    cases o with
    | list | tuple | set | dict => rfl
    | _ => cases written
  refine ⟨?_, ?_, fun v _ missing => Interp.callValue_repr (Interp.represent_plain missing)⟩
  · exact text ▸ Interp.callValue_str (Interp.display_container found written)
  · exact text ▸ Interp.callValue_repr (Interp.represent_plain plain)

-- An instance twice in a tuple that is twice in a list.
def Machine.showing : Machine :=
  { Machine.start {} [] with
    heap := ⟨#[.class ⟨"A", none, none, .empty⟩, .instance ⟨0, .empty⟩, .tuple #[.ref 1, .ref 1],
      .list ⟨#[.ref 2, .int 7, .ref 2], none⟩], 4⟩ }

theorem containers_show_heap_texts_shared_tuple :
    let whole := "[(<A object>, <A object>), 7, (<A object>, <A object>)]"
    let o := Object.list ⟨#[.ref 2, .int 7, .ref 2], none⟩
    Machine.showing.heap.get? 3 = some o ∧ Machine.showing.heap.Unfolds (.ref 3) ∧
      o.written? Machine.showing.heap.repr = some whole ∧
      Machine.showing.heap.method? (.ref 2) "__repr__" = none ∧
      (interp 0).callValue (.builtin .str) [.ref 3] [] .showing = .ok (.str whole) .showing ∧
      (interp 0).callValue (.builtin .repr) [.ref 2] [] .showing =
        .ok (.str "(<A object>, <A object>)") .showing := by
  intro whole o
  have down : ∀ a b, Machine.showing.heap.Displays a b → b < a := by
    rintro (_ | _ | _ | _ | a) b ⟨p, found, shown⟩ <;> cases found
    · exact absurd shown List.not_mem_nil
    · exact absurd shown List.not_mem_nil
    · have among : Value.ref b ∈ [Value.ref 1, .ref 1] := shown
      obtain rfl : b = 1 := by simpa using among
      decide
    · have among : Value.ref b ∈ [Value.ref 2, .int 7, .ref 2] := shown
      obtain rfl : b = 2 := by simpa using among
      decide
  have unfolds := Heap.Unfolds.of_lt down (.ref 3)
  have written : o.written? Machine.showing.heap.repr = some whole := by decide +kernel
  obtain ⟨str, -, elements⟩ :=
    containers_show_heap_texts (interp 0) .showing 3 o whole rfl unfolds written
  have tuple := elements (.ref 2) (by simp [o, Object.elements]) rfl
  have text : Machine.showing.heap.repr (.ref 2) = "(<A object>, <A object>)" := by decide +kernel
  exact ⟨rfl, unfolds, written, rfl, str, text ▸ tuple⟩

-- A program that prints an instance with a text of its own inside containers, and by itself.
theorem containers_ignore_own_texts :
    ((parseProgram ("class A:\n    def __repr__(self):\n        return \"A!\"\na = A()\n" ++
      "print([a], (a,), repr([a]), a)\n")).toOption.map fun p =>
        (Run.state (runProgram 30 p (.start {} []))).output) =
      some "[<A object>] (<A object>,) [<A object>] A!\n" := by
  rw [← String.ofList_append, parseProgram_ofList]
  decide +kernel

end StepTrace
