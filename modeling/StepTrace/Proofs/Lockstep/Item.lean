import StepTrace.Proofs.Lockstep.Protocol

/-!
Elements, slices and attributes in lockstep. Accesses are noted where a list has a mark, so this is
where two runs whose marks differ part.
-/

set_option autoImplicit false

namespace StepTrace

namespace Lockstep

variable {d : Leeway} {p : Rights}

-- A change that does the same to objects that differ in marks only.
theorem change (id : ObjId) {f : Object → Object}
    (hf : ∀ o o', o.Alike d.marks o' → (f o).Alike d.marks (f o'))
    (code : ∀ o, (f o).hasGlobal = o.hasGlobal) :
    (Run.change id f).Steady d p :=
  .op (.change id hf code)

-- What is not done to lists and functions cannot depend on their marks.
theorem changeOther (id : ObjId) {f : Object → Object} (hl : ∀ l, f (.list l) = .list l)
    (hk : ∀ k, f (.function k) = .function k) (code : ∀ o, (f o).hasGlobal = o.hasGlobal) :
    (Run.change id f).Steady d p := by
  refine change id (fun o o' ho => ?_) code
  cases ho with
  | same => exact .same _
  | list items place h =>
    rw [hl, hl]
    exact .list items place h
  | function k h =>
    rw [hk, hk]
    exact .function k h

theorem changeItems (id : ObjId) (f : Array Value → Array Value) :
    (Run.changeItems id f).Steady d p := by
  refine change id (fun o o' ho => ?_) fun o => by cases o <;> rfl
  cases ho with
  | same => exact .same _
  | list items place h => exact .list (f items) place h
  | function k h => exact .function k h

theorem mapDeque (id : ObjId) (f : Array Value → Array Value) :
    (Run.change id (Object.mapDeque f)).Steady d p :=
  changeOther id (fun _ => rfl) (fun _ => rfl) fun o => by cases o <;> rfl

theorem mapDict (id : ObjId) (f : DictObject → DictObject) :
    (Run.change id (Object.mapDict f)).Steady d p :=
  changeOther id (fun _ => rfl) (fun _ => rfl) fun o => by cases o <;> rfl

theorem mapSet (id : ObjId) (f : SetObject → SetObject) :
    (Run.change id (Object.mapSet f)).Steady d p :=
  changeOther id (fun _ => rfl) (fun _ => rfl) fun o => by cases o <;> rfl

theorem mapAttrs (id : ObjId) (f : Namespace → Namespace) :
    (Run.change id (Object.mapAttrs f)).Steady d p :=
  changeOther id (fun _ => rfl) (fun _ => rfl) fun o => by cases o <;> rfl

theorem indexOf (container : String) (v : Value) : (Interp.indexOf container v).Steady d p := by
  unfold Interp.indexOf
  split
  · exact .ret _
  · exact .faultOn fun _ _ H => by rw [H.typeName]

theorem inside (container : String) (found : Option Value) :
    (Interp.inside container found).Steady d p := by
  cases found with
  | none => exact .fault _
  | some v => exact .ret v

theorem readElement (id : ObjId) {l l' : ListObject}
    (h : (Object.list l).Alike d.marks (.list l')) (i : Int64) :
    Lockstep d p Eq
      (do
        Interp.note .read l i
        Interp.inside "list" ((position? l.items.size i).bind (l.items[·]?)))
      (do
        Interp.note .read l' i
        Interp.inside "list" ((position? l'.items.size i).bind (l'.items[·]?))) :=
  .op (.readElement id h i)

theorem writeElement (id : ObjId) {l l' : ListObject}
    (h : (Object.list l).Alike d.marks (.list l')) (i : Int64) (v : Value) :
    Lockstep d p Eq
      (do
        Interp.note .write l i
        match position? l.items.size i with
        | some p => Run.changeItems id (·.setIfInBounds p v)
        | none => Run.fault (.outside "list assignment"))
      (do
        Interp.note .write l' i
        match position? l'.items.size i with
        | some p => Run.changeItems id (·.setIfInBounds p v)
        | none => Run.fault (.outside "list assignment")) :=
  .op (.writeElement id h i v)

theorem sliceOf (n : Nat) (b : SliceBounds) : (Interp.sliceOf n b).Steady d p := by
  unfold Interp.sliceOf
  split
  · exact .ret _
  · exact .fault _

theorem getSlice (object : Value) (b : SliceBounds) : (Interp.getSlice object b).Steady d p := by
  unfold Interp.getSlice
  split
  · exact .seq (sliceOf ..) fun _ => .ret _
  · refine .onObject _ (fun _ _ => rfl) (fun _ _ => rfl) fun o => ?_
    split
    · exact .seq (sliceOf ..) fun _ => .alloc rfl
    · exact .seq (sliceOf ..) fun _ => .alloc rfl
    · exact .seq (sliceOf ..) fun _ => .alloc rfl
    · exact .faultOn fun _ _ H => by rw [H.typeName]

-- The list itself may have a mark in one run only.
theorem listOf (object : Value) :
    Lockstep d p (fun a b => a.1 = b.1 ∧ a.2.items = b.2.items) (Interp.listOf object)
      (Interp.listOf object) := by
  cases object with
  | ref id =>
    refine .bind (.deref? (.ref id)) fun _ _ related => ?_
    cases related with
    | none => exact .faultOn fun _ _ H => by rw [H.typeName]
    | @some o _ ho =>
      cases ho with
      | list items place => exact .pure ⟨rfl, rfl⟩
      | function => exact .faultOn fun _ _ H => by rw [H.typeName]
      | same =>
        cases o with
        | list l => exact .pure ⟨rfl, rfl⟩
        | _ => exact .faultOn fun _ _ H => by rw [H.typeName]
  | none | bool | int | float | str | builtin =>
    exact .bind (.deref? _) fun _ _ _ => .faultOn fun _ _ H => by rw [H.typeName]

theorem deleteSlice (object : Value) (b : SliceBounds) :
    (Interp.deleteSlice object b).Steady d p := by
  refine .bind (listOf object) fun ⟨id, ⟨items, t⟩⟩ ⟨_, ⟨_, t'⟩⟩ ⟨sameId, sameItems⟩ => ?_
  cases sameId
  cases sameItems
  exact .seq (sliceOf ..) fun _ => changeItems ..

theorem getAttr (object : Value) (name : String) : (Interp.getAttr object name).Steady d p :=
  onHeap fun _ _ H =>
    .bind (.checkTo (H.attr object name) fun _ => Heap.hasGlobal_attr) fun _ _ found =>
      found.1 ▸ .settle found.2

theorem noAttr (object : Value) (name : String) : (Interp.noAttr object name).Steady d p :=
  .faultOn fun _ _ H => by rw [H.typeName]

theorem setAttr (object : Value) (name : String) (value : Value) :
    (Interp.setAttr object name value).Steady d p := by
  cases object with
  | ref id =>
    refine .onObject (.ref id) (fun _ _ => rfl) (fun _ _ => rfl) fun o => ?_
    split
    · exact mapAttrs ..
    · exact mapAttrs ..
    · exact noAttr ..
  | none | bool | int | float | str | builtin =>
    exact .onObject _ (fun _ _ => rfl) (fun _ _ => rfl) fun _ => noAttr ..

theorem deleteAttr (object : Value) (name : String) :
    (Interp.deleteAttr object name).Steady d p := by
  cases object with
  | ref id =>
    refine .onObject (.ref id) (fun _ _ => rfl) (fun _ _ => rfl) fun o => ?_
    split
    · exact .ite (fun _ => mapAttrs ..) fun _ => noAttr ..
    · exact .ite (fun _ => mapAttrs ..) fun _ => noAttr ..
    · exact noAttr ..
  | none | bool | int | float | str | builtin =>
    exact .onObject _ (fun _ _ => rfl) (fun _ _ => rfl) fun _ => noAttr ..

end Lockstep

namespace Interp.InStep

variable {d : Leeway} {p : Rights} {r r' : Interp} (R : r.InStep d r')
include R

theorem getEntry (id : ObjId) (entries : DictObject) (index : Value) :
    Lockstep d p Eq (r.getEntry id entries index) (r'.getEntry id entries index) := by
  refine .seq (.keyOf index) fun key => ?_
  split
  · exact .ret _
  · split
    · exact .faultOn fun _ _ H => by rw [H.repr]
    · exact .faultOn fun _ _ H => by rw [H.repr]
    · exact .seq (R.call ..) fun _ => .seq (.mapDict ..) fun _ => .ret _

theorem getItem (object index : Value) :
    Lockstep d p Eq (r.getItem object index) (r'.getItem object index) := by
  have refused :
      (Run.faultOn (α := Value) fun h => .notSubscriptable (h.typeName object)).Steady d p :=
    .faultOn fun _ _ H => by rw [H.typeName]
  unfold Interp.getItem
  split
  · exact .seq (.indexOf ..) fun _ => .inside ..
  · next id =>
    refine .onHeap fun h h' H => ?_
    obtain ⟨o, o', left, right, related⟩ := H.entries id
    rw [left, right]
    cases related with
    | none => exact refused
    | some ho =>
      cases ho with
      | list items _ marked =>
        exact .seq (.indexOf ..) fun i => .readElement id (.list _ _ marked) i
      | function => exact refused
      | same =>
        split
        · exact .seq (.indexOf ..) fun i => .readElement id (.same _) i
        · exact .seq (.indexOf ..) fun _ => .inside ..
        · exact .seq (.indexOf ..) fun _ => .inside ..
        · exact .seq (.indexOf ..) fun _ => .inside ..
        · exact R.getEntry ..
        · exact .seq (R.special ..) fun
            | some v => .ret v
            | none => refused
        · exact refused
  · exact refused

theorem setItem (object index value : Value) :
    Lockstep d p Eq (r.setItem object index value) (r'.setItem object index value) := by
  have refused : (Run.faultOn (α := Unit) fun h =>
      .noItemAssignment (h.typeName object)).Steady d p :=
    .faultOn fun _ _ H => by rw [H.typeName]
  unfold Interp.setItem
  split
  · next id _ =>
    refine .onHeap fun h h' H => ?_
    obtain ⟨o, o', left, right, related⟩ := H.entries id
    rw [left, right]
    cases related with
    | none => exact refused
    | some ho =>
      cases ho with
      | list items _ marked =>
        exact .seq (.indexOf ..) fun i => .writeElement id (.list _ _ marked) i value
      | function => exact refused
      | same =>
        split
        · exact .seq (.indexOf ..) fun i => .writeElement id (.same _) i value
        · refine .seq (.indexOf ..) fun _ => ?_
          split
          · exact .mapDeque ..
          · exact .fault _
        · exact .seq (.keyOf ..) fun _ => .mapDict ..
        · exact .seq (R.special ..) fun
            | some v => .ret _
            | none => refused
        · exact refused
  · exact refused

theorem deleteItem (object index : Value) :
    Lockstep d p Eq (r.deleteItem object index) (r'.deleteItem object index) := by
  have refused : (Run.faultOn (α := Unit) fun h =>
      .noItemDeletion (h.typeName object)).Steady d p :=
    .faultOn fun _ _ H => by rw [H.typeName]
  unfold Interp.deleteItem
  split
  · next id _ =>
    refine .onHeap fun h h' H => ?_
    obtain ⟨o, o', left, right, related⟩ := H.entries id
    rw [left, right]
    cases related with
    | none => exact refused
    | some ho =>
      cases ho with
      | list items _ =>
        refine .seq (.indexOf ..) fun i => ?_
        dsimp only
        split
        · exact .changeItems ..
        · exact .fault _
      | function => exact refused
      | same =>
        split
        · refine .seq (.indexOf ..) fun _ => ?_
          split
          · exact .changeItems ..
          · exact .fault _
        · refine .seq (.indexOf ..) fun _ => ?_
          split
          · exact .mapDeque ..
          · exact .fault _
        · exact .seq (.keyOf ..) fun _ => .ite (fun _ => .mapDict ..) fun _ =>
            .faultOn fun _ _ H => by rw [H.repr]
        · exact .seq (R.special ..) fun
            | some v => .ret _
            | none => refused
        · exact refused
  · exact refused

theorem sliceBound {t : Bool} (ht : t ≤ d.marks) (bound : Option Expr)
    (covers : p.Covers (loopNamesOption bound)) :
    Lockstep d p Eq (r.sliceBound bound) (r'.sliceBound (markIf t trackOption bound)) := by
  cases bound with
  | none =>
    rw [marked_option_none]
    exact .ret none
  | some e =>
    rw [marked_option_some]
    refine .seq (R.eval t ht e covers) fun v => ?_
    split
    · exact .ret none
    · split
      · exact .ret _
      · exact .fault _

theorem sliceBounds {t : Bool} (ht : t ≤ d.marks) (lower upper step : Option Expr)
    (covers : p.Covers
      (loopNamesOption lower ++ (loopNamesOption upper ++ loopNamesOption step))) :
    Lockstep d p Eq (r.sliceBounds lower upper step) (r'.sliceBounds (markIf t trackOption lower)
      (markIf t trackOption upper) (markIf t trackOption step)) := by
  obtain ⟨inLower, covers⟩ := Rights.covers_append.1 covers
  obtain ⟨inUpper, inStep⟩ := Rights.covers_append.1 covers
  exact .seq (R.sliceBound ht lower inLower) fun _ => .seq (R.sliceBound ht upper inUpper)
    fun _ => .seq (R.sliceBound ht step inStep) fun _ => .ret _

theorem setSlice (object : Value) (b : SliceBounds) (value : Value) :
    Lockstep d p Eq (r.setSlice object b value) (r'.setSlice object b value) := by
  refine .bind (.listOf object) fun ⟨id, ⟨items, t⟩⟩ ⟨_, ⟨_, t'⟩⟩ ⟨sameId, sameItems⟩ => ?_
  cases sameId
  cases sameItems
  refine .seq (R.collect value) fun new => ?_
  refine .bind (.listOf object) fun ⟨_, ⟨items, t⟩⟩ ⟨_, ⟨_, t'⟩⟩ ⟨_, sameItems⟩ => ?_
  cases sameItems
  exact .seq (.sliceOf ..) fun slice => .ite (fun _ => .changeItems ..) fun _ =>
    .ite (fun _ => .changeItems ..) fun _ => .fault _

end Interp.InStep

end StepTrace
