import Mathlib.Logic.Relation
import StepTrace.Snapshot

/-!
Copies of a heap with cycles. A copy unfolds the heap along every way from its root: a way ends with
a reference back where it comes to an object that is around it, and where it gets too deep. What
lies on several ways is unfolded on each of them. A copy to a smaller depth is a copy to a greater
one with its lower levels cut off.
-/

set_option autoImplicit false

namespace StepTrace

namespace Snapshot

-- The copies right inside a copy.
def parts : Snapshot → List Snapshot
  | plainList items | list _ items | tuple items | set items | deque items => items
  | mapping entries => entries.map Prod.snd
  | object _ _ fields => fields.map Prod.snd
  | _ => []

-- The copy at a place, which tells the part to enter level by level.
def at? (s : Snapshot) : List Nat → Option Snapshot
  | [] => some s
  | i :: place => s.parts[i]?.bind fun part => part.at? place

end Snapshot

section

variable {r : ObjId → ObjId → Prop} {path : List ObjId} {id : ObjId}

-- There is a way from every object in `path` down to a value.
def Above (r : ObjId → ObjId → Prop) (path : List ObjId) (v : Value) : Prop :=
  ∀ p ∈ path, ∀ id, v = .ref id → Relation.TransGen r p id

theorem Above.nil (v : Value) : Above r [] v := fun _ here => nomatch here

theorem Above.fresh (above : Above r path (.ref id)) (acyclic : ¬ Relation.TransGen r id id) :
    id ∉ path :=
  fun around => acyclic (above id around id rfl)

theorem Above.step (above : Above r path (.ref id)) {v : Value}
    (next : ∀ b, v = .ref b → r id b) : Above r (id :: path) v := by
  rintro p around b rfl
  rcases List.mem_cons.1 around with rfl | around
  · exact .single (next b rfl)
  · exact .tail (above p around id rfl) (next b rfl)

end

namespace Heap

-- The values that the copy of an object shows, in its order.
def parts (h : Heap) : Object → List Value
  | .list l => l.items.toList
  | .tuple items | .deque items => items.toList
  | .set s => s.values
  | .dict d => (Ordered.ofList (d.entries.values.map fun (k, v) => (h.str k, v))).values
  | .instance i => (i.fields.filter fun name _ => !name.startsWith "__").values
  | _ => []

/--
The value at a place below the objects in `path`, and the objects around it there, the innermost one
first. The way there may go round in cycles.
-/
def follow? (h : Heap) (path : List ObjId) : Value → List Nat → Option (List ObjId × Value)
  | v, [] => some (path, v)
  | .ref id, i :: place => do
    let o ← h.get? id
    let v ← (h.parts o)[i]?
    h.follow? (id :: path) v place
  | _, _ :: _ => none

variable {h : Heap}

theorem follow?_cons {path path' : List ObjId} {v w : Value} {i : Nat} {place : List Nat} :
    h.follow? path v (i :: place) = some (path', w) ↔
      ∃ id o u, v = .ref id ∧ h.get? id = some o ∧ (h.parts o)[i]? = some u ∧
        h.follow? (id :: path) u place = some (path', w) := by
  cases v <;> simp [follow?, Option.bind_eq_some_iff]

theorem suffix_of_follow? {path path' : List ObjId} {v w : Value} {place : List Nat}
    (there : h.follow? path v place = some (path', w)) : path <:+ path' := by
  induction place generalizing path v with
  | nil => simp_all [follow?]
  | cons i place ih =>
    obtain ⟨id, o, u, rfl, -, -, there⟩ := follow?_cons.1 there
    exact (List.suffix_cons id path).trans (ih there)

theorem parts_captureObject (item : Value → Snapshot) (id : ObjId) (o : Object) :
    (h.captureObject item id o).parts = (h.parts o).map item := by
  cases o with
  | list l =>
    by_cases tracked : l.tracker.isSome <;> simp [captureObject, Snapshot.parts, parts, tracked]
  | dict d =>
    have same : Ordered.ofList (d.entries.values.map fun (k, v) => (h.str k, item v)) =
        (Ordered.ofList (d.entries.values.map fun (k, v) => (h.str k, v))).mapValues item := by
      rw [Ordered.mapValues_ofList, List.map_map]
      rfl
    change (Ordered.ofList (d.entries.values.map fun (k, v) => (h.str k, item v))).values = _
    rw [same, Ordered.values_mapValues]
    rfl
  | _ => simp [captureObject, Snapshot.parts, parts, Ordered.values]

-- A way that comes back to an object around it stays in it.
theorem repeats_of_follow? {path path' : List ObjId} {id : ObjId} {w : Value} {i : Nat}
    {place : List Nat} (around : id ∈ path)
    (there : h.follow? path (.ref id) (i :: place) = some (path', w)) : ¬ path'.Nodup := by
  intro distinct
  obtain ⟨_, o, u, ⟨⟩, -, -, there⟩ := follow?_cons.1 there
  have inner := distinct.sublist (suffix_of_follow? there).sublist
  exact (List.nodup_cons.1 inner).1 around

/--
A copy has at a place the copy of the value there, if the way does not go round and is not too long,
and else nothing.
-/
theorem at?_captureWithin (room : Nat) {path : List ObjId} (distinct : path.Nodup) (v : Value)
    (place : List Nat) :
    (h.captureWithin room path v).at? place =
      (h.follow? path v place).bind fun (path', w) =>
        if path'.Nodup ∧ place.length ≤ room then
          some (h.captureWithin (room - place.length) path' w)
        else none := by
  induction place generalizing room path v with
  | nil => simp [Snapshot.at?, follow?, distinct]
  | cons i place ih =>
    cases room with
    | zero => simp [captureWithin, elided, Snapshot.at?, Snapshot.parts]
    | succ room =>
      cases v with
      | ref id =>
        by_cases around : id ∈ path
        next =>
          -- the copy stops at an object around it, and a way that goes on repeats the object
          rw [captureWithin_around around]
          cases there : h.follow? path (.ref id) (i :: place) with
          | none => simp [Snapshot.at?, Snapshot.parts]
          | some p => simp [Snapshot.at?, Snapshot.parts, repeats_of_follow? around there]
        next =>
          cases found : h.get? id with
          | none => simp [captureWithin, around, found, Snapshot.at?, Snapshot.parts, follow?]
          | some o =>
            rw [captureWithin_fresh around room found]
            cases part : (h.parts o)[i]? with
            | none => simp [Snapshot.at?, parts_captureObject, follow?, found, part]
            | some u =>
              have inside := ih room (List.nodup_cons.2 ⟨around, distinct⟩) u
              simp [Snapshot.at?, parts_captureObject, follow?, found, part, inside]
      | _ => simp [captureWithin, Snapshot.at?, Snapshot.parts, follow?]

/-! ### What a copy shows -/

theorem ne_dots {s t : String} {c : Char} (last : t.toList.getLast? = some c) (other : c ≠ '.') :
    s ++ t ≠ "..." := by
  intro same
  have ends := congrArg (fun s => s.toList.getLast?) same
  simp only [String.toList_append, List.getLast?_append, last] at ends
  exact other (Option.some.inj ends)

theorem repr_builtin_ne_dots (b : Builtin) : h.repr (.builtin b) ≠ "..." := by
  unfold repr appendValue
  dsimp only
  split <;> exact ne_dots (c := '>') rfl (by decide)

-- No object that is written as a text looks like something left out.
theorem captureObject_ne_elided {id : ObjId} {o : Object} (found : h.get? id = some o)
    (item : Value → Snapshot) : h.captureObject item id o ≠ elided := by
  have text : h.appendObject (h.appendValue (h.size + 1) [id]) "" o = h.repr (.ref id) := by
    simp [repr, appendValue, found]
  cases o with
  | list l => by_cases tracked : l.tracker.isSome <;> simp [captureObject, elided, tracked]
  | tuple | dict | set | deque | «instance» => simp [captureObject, elided]
  | range | exception =>
    intro same
    exact ne_dots (c := ')') rfl (by decide) (text.trans (Snapshot.str.inj same))
  | _ =>
    intro same
    exact ne_dots (c := '>') rfl (by decide) (text.trans (Snapshot.str.inj same))

theorem captureObject_ne_cyclic (item : Value → Snapshot) (id : ObjId) (o : Object)
    (name : String) : h.captureObject item id o ≠ .cyclic name := by
  cases o with
  | list l => by_cases tracked : l.tracker.isSome <;> simp [captureObject, tracked]
  | _ => simp [captureObject]

/-- What a copy shows of a value that has the objects in `path` around it. -/
structure Shows (h : Heap) (path : List ObjId) (v : Value) (s : Snapshot) : Prop where
  cyclic : ∀ name, s = .cyclic name ↔ ∃ id ∈ path, v = .ref id ∧ name = toString id
  expanded : ∀ id o, v = .ref id → id ∉ path → h.get? id = some o →
    ∃ item, s = h.captureObject item id o
  -- A program may have the same text itself.
  elided : s = elided ↔ v = .str "..."

theorem shows_around {path : List ObjId} {id : ObjId} (around : id ∈ path) :
    h.Shows path (.ref id) (.cyclic (toString id)) where
  cyclic name := by
    constructor
    · rintro ⟨⟩
      exact ⟨id, around, rfl, rfl⟩
    · rintro ⟨_, -, ⟨⟩, rfl⟩
      rfl
  expanded := by
    rintro _ _ ⟨⟩ fresh
    exact absurd around fresh
  elided := by simp [StepTrace.elided]

theorem shows_fresh {path : List ObjId} {id : ObjId} {s : Snapshot} (fresh : id ∉ path)
    (onward : ∀ name, s ≠ .cyclic name) (shown : s ≠ StepTrace.elided)
    (expanded : ∀ o, h.get? id = some o → ∃ item, s = h.captureObject item id o) :
    h.Shows path (.ref id) s where
  cyclic name := by
    constructor
    · intro same
      exact absurd same (onward name)
    · rintro ⟨_, around, ⟨⟩, -⟩
      exact absurd around fresh
  expanded := by
    rintro _ o ⟨⟩ -
    exact expanded o
  elided := by simp [shown]

theorem shows_scalar {path : List ObjId} {v : Value} {s : Snapshot} (scalar : ∀ id, v ≠ .ref id)
    (onward : ∀ name, s ≠ .cyclic name) (elided : s = StepTrace.elided ↔ v = .str "...") :
    h.Shows path v s where
  cyclic name := by simp [scalar, onward]
  expanded id _ here := absurd here (scalar id)
  elided := elided

theorem shows_captureWithin (room : Nat) (path : List ObjId) (v : Value) :
    h.Shows path v (h.captureWithin (room + 1) path v) := by
  cases v with
  | ref id =>
    by_cases around : id ∈ path
    next =>
      rw [captureWithin_around around]
      exact shows_around around
    next =>
      cases found : h.get? id with
      | none =>
        have dangling : h.captureWithin (room + 1) path (.ref id) =
            .str ("<Error: dangling reference " ++ toString id ++ ">") := by
          simp [captureWithin, around, found]
        rw [dangling]
        refine shows_fresh around (by simp) ?_ (by simp [found])
        exact fun same => ne_dots (c := '>') rfl (by decide) (Snapshot.str.inj same)
      | some o =>
        rw [captureWithin_fresh around room found]
        have shown := captureObject_ne_elided found (h.captureWithin room (id :: path))
        refine shows_fresh around (captureObject_ne_cyclic _ id o) shown ?_
        rintro o' found'
        rw [found] at found'
        cases found'
        exact ⟨_, rfl⟩
  | builtin b =>
    refine shows_scalar (by simp) (by simp [captureWithin]) ?_
    simp [captureWithin, elided, repr_builtin_ne_dots]
  | _ => exact shows_scalar (by simp) (by simp [captureWithin]) (by simp [captureWithin, elided])

section

variable {maxDepth : Nat} {root v : Value} {place : List Nat} {path : List ObjId}

theorem at?_capture (there : h.follow? [] root place = some (path, v)) (distinct : path.Nodup)
    (short : place.length ≤ maxDepth + 1) :
    (h.capture maxDepth root).at? place =
      some (h.captureWithin (maxDepth + 1 - place.length) path v) := by
  simp [capture, at?_captureWithin, there, distinct, short]

theorem follow?_of_at? {s : Snapshot} (here : (h.capture maxDepth root).at? place = some s) :
    place.length ≤ maxDepth + 1 ∧
      ∃ path v, h.follow? [] root place = some (path, v) ∧ path.Nodup := by
  simp only [capture, at?_captureWithin (maxDepth + 1) .nil, Option.bind_eq_some_iff] at here
  obtain ⟨⟨path, v⟩, there, here⟩ := here
  split at here
  · next both => exact ⟨both.2, path, v, there, both.1⟩
  · cases here

theorem shows_at? (there : h.follow? [] root place = some (path, v)) {s : Snapshot}
    (here : (h.capture maxDepth root).at? place = some s) :
    (place.length ≤ maxDepth → h.Shows path v s) ∧
      (place.length = maxDepth + 1 → s = StepTrace.elided) := by
  obtain ⟨short, _, _, there', distinct⟩ := follow?_of_at? here
  obtain ⟨rfl, rfl⟩ := Prod.mk.inj (Option.some.inj (there.symm.trans there'))
  rw [at?_capture there distinct short] at here
  cases here
  constructor
  · intro shallow
    have room : maxDepth + 1 - place.length = maxDepth - place.length + 1 := by omega
    rw [room]
    exact shows_captureWithin ..
  · intro deep
    rw [deep, Nat.sub_self]
    rfl

end

/-! ### Cycles -/

-- The copy of an object shows a reference to another one.
def Refers (h : Heap) (a b : ObjId) : Prop := ∃ o, h.get? a = some o ∧ .ref b ∈ h.parts o

/-- No way from a value leads to an object from which there is a way back to it. -/
def Acyclic (h : Heap) (v : Value) : Prop :=
  ∀ start id, v = .ref start → Relation.ReflTransGen h.Refers start id →
    ¬ Relation.TransGen h.Refers id id

-- There is a way down from every object around a place: one that came back would close a cycle.
theorem Acyclic.fresh {path path' : List ObjId} {v w : Value} {place : List Nat}
    (acyclic : h.Acyclic v) (distinct : path.Nodup) (above : Above h.Refers path v)
    (there : h.follow? path v place = some (path', w)) :
    path'.Nodup ∧ ∀ id, w = .ref id → id ∉ path' := by
  induction place generalizing path v with
  | nil =>
    simp only [follow?, Option.some.injEq, Prod.mk.injEq] at there
    obtain ⟨rfl, rfl⟩ := there
    refine ⟨distinct, ?_⟩
    rintro id rfl
    exact above.fresh (acyclic id id rfl .refl)
  | cons i place ih =>
    obtain ⟨id, o, u, rfl, found, part, there⟩ := follow?_cons.1 there
    have refers : ∀ next, u = .ref next → h.Refers id next := by
      rintro next rfl
      exact ⟨o, found, List.mem_of_getElem? part⟩
    have new := above.fresh (acyclic id id rfl .refl)
    refine ih ?_ (List.nodup_cons.2 ⟨new, distinct⟩) (above.step refers) there
    intro start far here way
    exact acyclic id far rfl (.head (refers start here) way)

end Heap

/--
A copy has exactly the places at most one level too deep whose ways enter no object twice. The texts
that stand for what is left out are all on that last level. Above it a copy shows a reference back
where, and only where, the value is an object around it, and every other object is expanded. Without
cycles there are no references back, so an object is expanded on all ways to it.
-/
theorem copies_are_path_local (h : Heap) (maxDepth : Nat) (root : Value) :
    (∀ place, ((h.capture maxDepth root).at? place).isSome ↔
      place.length ≤ maxDepth + 1 ∧
        ∃ path v, h.follow? [] root place = some (path, v) ∧ path.Nodup) ∧
    (∀ place path v s, h.follow? [] root place = some (path, v) →
      (h.capture maxDepth root).at? place = some s →
        (place.length ≤ maxDepth → h.Shows path v s) ∧
        (place.length = maxDepth + 1 → s = elided)) ∧
    (h.Acyclic root →
      (∀ place name, (h.capture maxDepth root).at? place ≠ some (.cyclic name)) ∧
      ∀ place path id o, h.follow? [] root place = some (path, .ref id) →
        place.length ≤ maxDepth → h.get? id = some o →
          ∃ item, (h.capture maxDepth root).at? place = some (h.captureObject item id o)) := by
  refine ⟨fun place => ⟨fun here => ?_, fun there => ?_⟩,
    fun _ _ _ _ there here => Heap.shows_at? there here,
    fun acyclic => ⟨fun place name here => ?_, fun place path id o there shallow found => ?_⟩⟩
  · obtain ⟨s, here⟩ := Option.isSome_iff_exists.1 here
    exact Heap.follow?_of_at? here
  · obtain ⟨short, path, v, there, distinct⟩ := there
    simp [Heap.at?_capture there distinct short]
  · obtain ⟨short, path, v, there, -⟩ := Heap.follow?_of_at? here
    obtain ⟨shallow, deep⟩ := Heap.shows_at? there here
    rcases Nat.lt_or_eq_of_le short with less | same
    · have shows := shallow (Nat.le_of_lt_succ less)
      obtain ⟨id, around, rfl, -⟩ := (shows.cyclic name).1 rfl
      exact (acyclic.fresh .nil (.nil root) there).2 id rfl around
    · cases deep same
  · obtain ⟨distinct, fresh⟩ := acyclic.fresh .nil (.nil root) there
    have here := Heap.at?_capture there distinct (Nat.le_succ_of_le shallow)
    have shows := (Heap.shows_at? there here).1 shallow
    obtain ⟨item, same⟩ := shows.expanded id o rfl (fresh id rfl) found
    exact ⟨item, here.trans (congrArg some same)⟩

-- A list with two references to one tuple: the tuple is expanded at both places.
theorem copies_are_path_local_shared_tuple :
    let h : Heap := ⟨#[.list ⟨#[.ref 1, .ref 1], none⟩, .tuple #[]], 2⟩
    h.Acyclic (.ref 0) ∧ ∀ i < 2, ∃ item,
      (h.capture 1 (.ref 0)).at? [i] = some (h.captureObject item 1 (.tuple #[])) := by
  intro h
  have up : ∀ a b, h.Refers a b → a < b := by
    rintro (_ | _ | a) b ⟨o, found, part⟩
    · cases found
      simp [h, Heap.parts] at part
      simp [part]
    · cases found
      simp [h, Heap.parts] at part
    · cases found
  have acyclic : h.Acyclic (.ref 0) := by
    intro start id _ _ loop
    have further : ∀ b, Relation.TransGen h.Refers id b → id < b := by
      intro b way
      induction way with
      | single step => exact up _ _ step
      | tail _ step ih => exact Nat.lt_trans ih (up _ _ step)
    exact Nat.lt_irrefl id (further id loop)
  refine ⟨acyclic, fun i small => ?_⟩
  obtain ⟨-, -, expanded⟩ := copies_are_path_local h 1 (.ref 0)
  have there : h.follow? [] (.ref 0) [i] = some ([0], .ref 1) := by
    rcases i with _ | _ | i
    · rfl
    · rfl
    · omega
  exact (expanded acyclic).2 [i] [0] 1 (.tuple #[]) there (Nat.le_refl 1) rfl

-- A list with two references to a list that contains itself.
example :
    let h : Heap := ⟨#[.list ⟨#[.ref 1, .ref 1], none⟩, .list ⟨#[.ref 1], none⟩], 2⟩
    h.capture 10 (.ref 0) =
      .plainList [.plainList [.cyclic "1"], .plainList [.cyclic "1"]] := by
  rfl

/-! ### Copies to different depths -/

namespace Snapshot

-- A copy with the copies right inside it changed; what it says of itself stays.
def mapParts (f : Snapshot → Snapshot) : Snapshot → Snapshot
  | plainList items => plainList (items.map f)
  | list id items => list id (items.map f)
  | tuple items => tuple (items.map f)
  | set items => set (items.map f)
  | deque items => deque (items.map f)
  | mapping entries => mapping (entries.map fun (k, v) => (k, f v))
  | object id cls fields => object id cls (fields.map fun (k, v) => (k, f v))
  | v => v

/-- The first levels of a copy; what lies below them is left out. -/
def cut : Nat → Snapshot → Snapshot
  | 0, _ => elided
  | levels + 1, s => s.mapParts (cut levels)

-- What a copy says of itself: its kind, ids, names and keys, and how many parts it has.
def outline (s : Snapshot) : Snapshot := s.cut 1

theorem parts_mapParts (f : Snapshot → Snapshot) (s : Snapshot) :
    (s.mapParts f).parts = s.parts.map f := by
  cases s <;> simp [mapParts, parts, Function.comp_def]

theorem mapParts_mapParts (f g : Snapshot → Snapshot) (s : Snapshot) :
    (s.mapParts f).mapParts g = s.mapParts fun part => g (f part) := by
  cases s <;> simp [mapParts, Function.comp_def]

theorem cut_cut {levels levels' : Nat} (fewer : levels ≤ levels') (s : Snapshot) :
    (s.cut levels').cut levels = s.cut levels := by
  induction levels generalizing levels' s with
  | zero => rfl
  | succ levels ih =>
    obtain ⟨levels', rfl⟩ : ∃ more, levels' = more + 1 := ⟨levels' - 1, by omega⟩
    have inner : ∀ part : Snapshot, (part.cut levels').cut levels = part.cut levels := by
      intro part
      apply ih
      omega
    simp only [cut, mapParts_mapParts, inner]

-- The levels that are left have the parts of the whole, each with what is left below it.
theorem at?_cut (levels : Nat) (s : Snapshot) (place : List Nat) :
    (s.cut levels).at? place =
      if place.length ≤ levels then (s.at? place).map (cut (levels - place.length)) else .none := by
  induction place generalizing levels s with
  | nil => simp [at?]
  | cons i place ih =>
    cases levels with
    | zero => simp [cut, elided, at?, parts]
    | succ levels =>
      cases part : s.parts[i]? with
      | none => simp [cut, at?, parts_mapParts, part]
      | some u => simp [cut, at?, parts_mapParts, part, ih]

end Snapshot

namespace Heap

variable {h : Heap}

theorem mapParts_captureObject (f : Snapshot → Snapshot) (item : Value → Snapshot) (id : ObjId)
    (o : Object) :
    (h.captureObject item id o).mapParts f = h.captureObject (fun v => f (item v)) id o := by
  cases o with
  | list l =>
    by_cases tracked : l.tracker.isSome <;>
      simp [captureObject, Snapshot.mapParts, tracked, Function.comp_def]
  | dict d =>
    have entries : ∀ entries : Ordered String Snapshot,
        (Snapshot.mapping entries.toList).mapParts f =
          .mapping (entries.mapValues f).toList := by
      simp [Snapshot.mapParts]
    simp only [captureObject, entries, Ordered.mapValues_ofList, List.map_map, Function.comp_def]
  | _ => simp [captureObject, Snapshot.mapParts, Function.comp_def]

/--
The room decides where a copy ends and nothing else: a way is given up for being too long before
anything is looked up, and references back depend on the way alone.
-/
theorem captureWithin_eq_cut (room more : Nat) (path : List ObjId) (v : Value) :
    h.captureWithin room path v = (h.captureWithin (room + more) path v).cut room := by
  induction room generalizing path v with
  | zero => rfl
  | succ room ih =>
    rw [Nat.add_right_comm]
    cases v with
    | ref id =>
      by_cases around : id ∈ path
      next => simp [captureWithin_around around, Snapshot.cut, Snapshot.mapParts]
      next =>
        cases found : h.get? id with
        | none => simp [captureWithin, around, found, Snapshot.cut, Snapshot.mapParts]
        | some o =>
          simp only [captureWithin_fresh around _ found, Snapshot.cut, mapParts_captureObject, ← ih]
    | _ => rfl

theorem capture_eq_cut {depth depth' : Nat} (le : depth ≤ depth') (v : Value) :
    h.capture depth v = (h.capture depth' v).cut (depth + 1) := by
  have room : depth' + 1 = depth + 1 + (depth' - depth) := by omega
  unfold capture
  rw [room]
  apply captureWithin_eq_cut

end Heap

/--
A copy to a smaller depth is the copy to a greater one with all below that depth left out. On the
levels above, both say the same at every place: which references go back, and all ids, names of
classes and keys.
-/
theorem depth_only_hides (h : Heap) (v : Value) {depth depth' : Nat} (le : depth ≤ depth') :
    h.capture depth v = (h.capture depth' v).cut (depth + 1) ∧
      ∀ place, place.length ≤ depth →
        ((h.capture depth v).at? place).map Snapshot.outline =
          ((h.capture depth' v).at? place).map Snapshot.outline := by
  constructor
  next => exact Heap.capture_eq_cut le v
  next =>
    intro place above
    have within : place.length ≤ depth + 1 := by omega
    rw [Heap.capture_eq_cut le, Snapshot.at?_cut, if_pos within, Option.map_map]
    congr 1
    funext s
    apply Snapshot.cut_cut
    omega

-- A list in a cycle: the reference back is out of sight at the smaller depth.
theorem depth_only_hides_cycle :
    let h : Heap := ⟨#[.list ⟨#[.ref 1, .int 7], some 0⟩, .tuple #[.ref 0, .ref 2],
      .list ⟨#[.none], none⟩], 3⟩
    h.capture 1 (.ref 0) = .list "0" [.tuple [elided, elided], .int 7] ∧
      h.capture 3 (.ref 0) = .list "0" [.tuple [.cyclic "0", .plainList [.none]], .int 7] ∧
      h.capture 1 (.ref 0) = (h.capture 3 (.ref 0)).cut 2 ∧
      ((h.capture 1 (.ref 0)).at? [0]).map Snapshot.outline =
        ((h.capture 3 (.ref 0)).at? [0]).map Snapshot.outline := by
  intro h
  obtain ⟨same, above⟩ := depth_only_hides h (.ref 0) (show 1 ≤ 3 by decide)
  exact ⟨rfl, rfl, same, above [0] (by decide)⟩

end StepTrace
