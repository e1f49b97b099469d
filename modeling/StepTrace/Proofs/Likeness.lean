import StepTrace.Attribute
import StepTrace.Proofs.Marks

/-!
Heaps that differ in the marks of lists and of function bodies only. Nothing that a run computes
from a heap can tell them apart.
-/

set_option autoImplicit false

namespace StepTrace

inductive Object.Alike (marks : Bool) : Object → Object → Prop
  | same (o : Object) : Alike marks o o
  | list (items : Array Value) (id : ObjId) (h : marks = true) :
    Alike marks (.list ⟨items, none⟩) (.list ⟨items, some id⟩)
  | function (f : FunctionObject) (h : marks = true) :
    Alike marks (.function f) (.function { f with body := f.body.marked true })

structure Heap.Alike (marks : Bool) (h h' : Heap) : Prop where
  limit : h'.limit = h.limit
  size : h'.size = h.size
  get? : ∀ id, Option.Rel (Object.Alike marks) (h.get? id) (h'.get? id)

-- The function of a definition that may be marked.
theorem Object.Alike.definition {marks t : Bool} (ht : t ≤ marks) (f : FunctionObject) :
    (Object.function f).Alike marks (.function { f with body := f.body.marked t }) := by
  cases t with
  | false =>
    rw [FunctionBody.marked_false]
    exact .same _
  | true => exact .function f (ht rfl)

theorem Object.Alike.eq {o o' : Object} (h : o.Alike false o') : o' = o := by
  cases h with
  | same => rfl
  | list _ _ h | function _ h => cases h

namespace Heap.Alike

variable {marks : Bool} {h h' : Heap}

theorem refl (h : Heap) : h.Alike marks h where
  limit := rfl
  size := rfl
  get? id := by
    cases h.get? id with
    | none => exact .none
    | some o => exact .some (.same o)

theorem eq (H : h.Alike false h') : h' = h := by
  obtain ⟨objects, limit⟩ := h
  obtain ⟨objects', limit'⟩ := h'
  obtain ⟨rfl, size, get?⟩ := H
  have same : objects' = objects := by
    apply Array.ext size
    intro i hi hi'
    have related := get? i
    simp only [Heap.get?, Array.getElem?_eq_getElem hi, Array.getElem?_eq_getElem hi'] at related
    cases related with
    | some h => exact h.eq
  rw [same]

theorem push (H : h.Alike marks h') {o o' : Object} (ho : o.Alike marks o') :
    (h.push o).Alike marks (h'.push o') where
  limit := H.limit
  size := by simp [H.size]
  get? id := by
    have sizes : h'.objects.size = h.objects.size := H.size
    have old := H.get? id
    simp only [Heap.get?, Heap.push, Array.getElem?_push, sizes] at old ⊢
    split
    · exact .some ho
    · exact old

theorem modify (H : h.Alike marks h') (id : ObjId) {f g : Object → Object}
    (hf : ∀ o o', o.Alike marks o' → (f o).Alike marks (g o')) :
    (h.modify id f).Alike marks (h'.modify id g) where
  limit := H.limit
  size := by simp [H.size]
  get? i := by
    have old := H.get? i
    simp only [Heap.get?, Heap.modify, Array.getElem?_modify] at old ⊢
    split
    · generalize h.objects[i]? = a at old ⊢
      generalize h'.objects[i]? = b at old ⊢
      cases old with
      | none => exact .none
      | some ho => exact .some (hf _ _ ho)
    · exact old

-- Apart from lists and functions, whose marks may differ, the two heaps have the same objects.
theorem sees (H : h.Alike marks h') (id : ObjId) :
    h'.get? id = h.get? id ∨
      (∃ items place, h.get? id = some (.list ⟨items, none⟩) ∧
        h'.get? id = some (.list ⟨items, some place⟩)) ∨
      ∃ f, h.get? id = some (.function f) ∧
        h'.get? id = some (.function { f with body := f.body.marked true }) := by
  have related := H.get? id
  generalize h.get? id = a at related ⊢
  generalize h'.get? id = b at related ⊢
  cases related with
  | none => exact .inl rfl
  | some ho =>
    cases ho with
    | same => exact .inl rfl
    | list items place => exact .inr (.inl ⟨items, place, rfl, rfl⟩)
    | function f => exact .inr (.inr ⟨f, rfl, rfl⟩)

theorem entries (H : h.Alike marks h') (id : ObjId) :
    ∃ o o', h.get? id = o ∧ h'.get? id = o' ∧ Option.Rel (Object.Alike marks) o o' :=
  ⟨_, _, rfl, rfl, H.get? id⟩

theorem deref? (H : h.Alike marks h') (v : Value) :
    Option.Rel (Object.Alike marks) (h.deref? v) (h'.deref? v) := by
  cases v with
  | ref id => exact H.get? id
  | _ => exact .none

theorem points (H : h.Alike marks h') (v : Value) :
    h'.deref? v = h.deref? v ∨
      (∃ items place, h.deref? v = some (.list ⟨items, none⟩) ∧
        h'.deref? v = some (.list ⟨items, some place⟩)) ∨
      ∃ f, h.deref? v = some (.function f) ∧
        h'.deref? v = some (.function { f with body := f.body.marked true }) := by
  cases v with
  | ref id => exact H.sees id
  | _ => exact .inl rfl

/-! ### Types and classes -/

theorem className (H : h.Alike marks h') (id : ObjId) : h'.className id = h.className id := by
  rcases H.sees id with same | ⟨_, _, left, right⟩ | ⟨_, left, right⟩ <;>
    simp only [Heap.className, *]

theorem objectTypeName (H : h.Alike marks h') {o o' : Object} (ho : o.Alike marks o') :
    h'.objectTypeName o' = h.objectTypeName o := by
  cases ho with
  | list | function => rfl
  | same =>
    cases o with
    | «instance» i => exact H.className i.cls
    | _ => rfl

theorem typeName (H : h.Alike marks h') (v : Value) : h'.typeName v = h.typeName v := by
  cases v with
  | ref id =>
    simp only [Heap.typeName]
    have related := H.get? id
    generalize h.get? id = a at related ⊢
    generalize h'.get? id = b at related ⊢
    cases related with
    | none => rfl
    | some ho => simp only [Option.map_some, H.objectTypeName ho]
  | _ => rfl

theorem walkClasses {α : Type} (H : h.Alike marks h') (answer : ObjId → ClassObject → Option α)
    (bound : Nat) (id : Option ObjId) :
    h'.walkClasses answer bound id = h.walkClasses answer bound id := by
  induction bound generalizing id with
  | zero => simp only [Heap.walkClasses]
  | succ bound ih =>
    cases id with
    | none => simp only [Heap.walkClasses]
    | some id =>
      rcases H.sees id with same | ⟨_, _, left, right⟩ | ⟨_, left, right⟩ <;>
        simp only [Heap.walkClasses, *]

theorem classAttr? (H : h.Alike marks h') (id : ObjId) (name : String) :
    h'.classAttr? id name = h.classAttr? id name := by
  simp only [Heap.classAttr?, H.walkClasses, H.size]

theorem isSubclass (H : h.Alike marks h') (cls ancestor : ObjId) :
    h'.isSubclass cls ancestor = h.isSubclass cls ancestor := by
  simp only [Heap.isSubclass, H.walkClasses, H.size]

theorem exceptionBase? (H : h.Alike marks h') (id : ObjId) :
    h'.exceptionBase? id = h.exceptionBase? id := by
  simp only [Heap.exceptionBase?, H.walkClasses, H.size]

theorem inherited? (H : h.Alike marks h') (cls : ObjId) (name : String) :
    h'.inherited? cls name = h.inherited? cls name := by
  rcases H.sees cls with same | ⟨_, _, left, right⟩ | ⟨_, left, right⟩ <;>
    simp only [Heap.inherited?, H.classAttr?, *]

theorem isInstance (H : h.Alike marks h') (v : Value) : h'.isInstance v = h.isInstance v := by
  rcases H.points v with same | ⟨_, _, left, right⟩ | ⟨_, left, right⟩ <;>
    simp only [Heap.isInstance, *]

theorem isFunction (H : h.Alike marks h') (v : Value) : h'.isFunction v = h.isFunction v := by
  rcases H.points v with same | ⟨_, _, left, right⟩ | ⟨_, left, right⟩ <;>
    simp only [Heap.isFunction, *]

theorem isCode (H : h.Alike marks h') (v : Value) : h'.isCode v = h.isCode v := by
  rcases H.points v with same | ⟨_, _, left, right⟩ | ⟨_, left, right⟩ <;>
    simp only [Heap.isCode, *]

theorem isCallable (H : h.Alike marks h') (v : Value) : h'.isCallable v = h.isCallable v := by
  cases v with
  | ref id =>
    rcases H.points (.ref id) with same | ⟨_, _, left, right⟩ | ⟨_, left, right⟩ <;>
      simp only [Heap.isCallable, H.classAttr?, *]
  | _ => rfl

theorem typeOf (H : h.Alike marks h') (v : Value) : h'.typeOf v = h.typeOf v := by
  cases v with
  | ref id =>
    rcases H.sees id with same | ⟨_, _, left, right⟩ | ⟨_, left, right⟩ <;>
      simp only [Heap.typeOf, *]
  | _ => rfl

theorem bound (H : h.Alike marks h') (receiver attr : Value) :
    h'.bound receiver attr = h.bound receiver attr := by
  simp only [Heap.bound, H.isFunction]

theorem attr (H : h.Alike marks h') (object : Value) (name : String) :
    h'.attr object name = h.attr object name := by
  rcases H.points object with same | ⟨_, _, left, right⟩ | ⟨_, left, right⟩ <;>
    simp only [Heap.attr, H.typeName, H.classAttr?, H.className, H.inherited?, H.bound, *]

theorem isInstanceOf (H : h.Alike marks h') (v : Value) (room : Nat) (classes : Value) :
    h'.isInstanceOf v room classes = h.isInstanceOf v room classes := by
  induction room generalizing classes with
  | zero => simp only [Heap.isInstanceOf]
  | succ room ih =>
    have tested : h'.isInstanceOf v room = h.isInstanceOf v room := funext ih
    have bases : h'.exceptionBase? = h.exceptionBase? := funext H.exceptionBase?
    -- The classes of `v` are looked up even where they play no part, hence both case splits.
    rcases H.points v with same | ⟨_, _, left, right⟩ | ⟨_, left, right⟩ <;>
      cases classes with
      | ref id =>
        rcases H.sees id with same | ⟨_, _, left, right⟩ | ⟨_, left, right⟩ <;>
          simp only [Heap.isInstanceOf, H.isSubclass, *]
      | builtin b => cases b <;> simp only [Heap.isInstanceOf, H.typeOf, *]
      | _ => simp only [Heap.isInstanceOf]

end Heap.Alike

end StepTrace
