import StepTrace.Proofs.Lockstep.Basic

/-!
Truth, operators, comparisons, texts and iterations in lockstep.
-/

set_option autoImplicit false

namespace StepTrace

namespace Interp.InStep

variable {d : Leeway} {p : Rights} {r r' : Interp} (R : r.InStep d r')
include R

theorem special (v : Value) (name : String) (args : List Value) :
    Lockstep d p Eq (r.special v name args) (r'.special v name args) := by
  refine .onHeap fun h h' H => ?_
  rcases H.points v with same | ⟨_, _, left, right⟩ | ⟨_, left, right⟩
  · rw [same]
    split
    · rw [H.classAttr?]
      split
      · exact .map some (R.call ..)
      · exact .ret none
    · exact .ret none
  · rw [left, right]
    exact .ret none
  · rw [left, right]
    exact .ret none

theorem truth (v : Value) : Lockstep d p Eq (r.truth v) (r'.truth v) := by
  refine .onHeap fun h h' H => ?_
  rw [H.isInstance]
  split
  · exact .query fun _ _ H => H.truthy v
  refine .seq (R.special ..) fun
    | some (.bool b) => .ret b
    | some (.none) | some (.int _) | some (.float _) | some (.str _) | some (.ref _)
    | some (.builtin _) => .faultOn fun _ _ H => by rw [H.typeName]
    | none => .seq (R.special ..) fun
      | some n => .ret _
      | none => .query fun _ _ H => H.truthy v

theorem binary (op : BinaryOp) (a b : Value) :
    Lockstep d p Eq (r.binary op a b) (r'.binary op a b) := by
  have builtin : Lockstep d p Eq
      (do Run.settle (← Run.check ((← Run.heap).binary op a b)))
      (do Run.settle (← Run.check ((← Run.heap).binary op a b))) :=
    .onHeap fun _ _ H =>
      .bind (.checkTo (H.binary op a b) fun _ => Heap.hasGlobal_binary) fun _ _ made =>
        made.1 ▸ .settle made.2
  refine .onHeap fun h h' H => ?_
  rw [H.isInstance, H.isInstance]
  split
  · refine .seq (R.special ..) fun
      | some v => .ret v
      | none => .seq (R.special ..) fun
        | some v => .ret v
        | none => builtin
  · exact builtin

theorem unary (op : UnaryOp) (v : Value) :
    Lockstep d p Eq (r.unary op v) (r'.unary op v) := by
  have negated : Lockstep d p Eq (do return Value.bool !(← r.truth v))
      (do return Value.bool !(← r'.truth v)) :=
    .seq (R.truth v) fun b => .ret (Value.bool !b)
  unfold Interp.unary
  split
  · exact negated
  · refine .seq (R.special ..) fun answer => ?_
    cases answer with
    | some v => exact .ret v
    | none => exact .onHeap fun _ _ H => .check (H.unary op v)

theorem askEqual (a b : Value) :
    Lockstep d p Eq (r.askEqual a b) (r'.askEqual a b) :=
  .seq (R.special ..) fun
    | some v => .map some (R.truth v)
    | none => .ret none

theorem equal (a b : Value) : Lockstep d p Eq (r.equal a b) (r'.equal a b) := by
  have builtin : Lockstep d p Eq (do return a.same b || (← Run.heap).equal a b)
      (do return a.same b || (← Run.heap).equal a b) :=
    .onHeap fun _ _ H => by rw [H.equal]; exact .ret _
  refine .seq (R.askEqual a b) fun
    | some t => .ret t
    | none => .seq (R.askEqual b a) fun
      | some t => .ret t
      | none => ?_
  exact builtin

theorem firstUnequal (xs ys : List Value) :
    Lockstep d p Eq (r.firstUnequal xs ys) (r'.firstUnequal xs ys) := by
  induction xs generalizing ys with
  | nil => exact .ret none
  | cons x xs ih =>
    cases ys with
    | nil => exact .ret none
    | cons y ys =>
      refine .seq (R.equal x y) fun
        | true => ih ys
        | false => .ret _

theorem anyEqual (item : Value) (items : List Value) :
    Lockstep d p Eq (r.anyEqual item items) (r'.anyEqual item items) := by
  induction items with
  | nil => exact .ret false
  | cons v rest ih =>
    refine .seq (R.equal v item) fun
      | true => .ret true
      | false => ih

theorem askOrder (op : OrderOp) (a b : Value) :
    Lockstep d p Eq (r.askOrder op a b) (r'.askOrder op a b) :=
  .seq (R.special ..) fun
    | some v => .map some (R.truth v)
    | none => .seq (R.special ..) fun
      | some v => .map some (R.truth v)
      | none => .ret none

theorem before (a b : Value) : Lockstep d p Eq (r.before a b) (r'.before a b) :=
  .seq (R.askOrder ..) fun
    | some t => .ret t
    | none => .onHeap fun _ _ H => .seq (.check (H.order? ..)) fun _ => .ret _

theorem orderWithin (room : Nat) (a b : Value) :
    Lockstep d p Eq (r.orderWithin room a b) (r'.orderWithin room a b) := by
  induction room generalizing a b with
  | zero => exact .fault _
  | succ room ih =>
    refine .onHeap fun h h' H => ?_
    rw [H.sequencePair?, H.isInstance, H.isInstance, H.order?]
    split
    · refine .seq (R.firstUnequal ..) fun
        | some (x, y) => ih x y
        | none => .ret _
    · split
      · refine .seq (R.before a b) fun
          | true => .ret _
          | false => .seq (R.before b a) fun
            | true => .ret _
            | false => .ret _
      · exact .seq (.check rfl) fun _ => .ret _

theorem order (a b : Value) : Lockstep d p Eq (r.order a b) (r'.order a b) :=
  R.orderWithin comparedDepth a b

theorem ordered (op : OrderOp) (a b : Value) :
    Lockstep d p Eq (r.ordered op a b) (r'.ordered op a b) := by
  refine .seq (R.askOrder op a b) fun
    | some t => .ret t
    | none => .onHeap fun h h' H => ?_
  rw [H.sequencePair?, H.order?]
  split
  · exact .seq (.map some (R.order a b)) fun _ => .ret _
  · exact .seq (.check rfl) fun _ => .ret _

theorem iteration (v : Value) : Lockstep d p Eq (r.iteration v) (r'.iteration v) := by
  have refused : Lockstep (α := Iteration) d p Eq
      (Run.faultOn fun h => .notIterable (h.typeName v))
      (Run.faultOn fun h => .notIterable (h.typeName v)) :=
    .faultOn fun _ _ H => by rw [H.typeName]
  refine .onHeap fun h h' H => ?_
  rw [H.iteration?]
  split
  · exact .ret _
  · exact .seq (R.special ..) fun
      | some inner => .ite (fun _ => refused) fun _ => R.iterate inner
      | none => refused

theorem collect (v : Value) : Lockstep d p Eq (r.collect v) (r'.collect v) := by
  refine .onObject v (fun _ _ => rfl) (fun _ _ => rfl) fun o => ?_
  split
  · exact .ret _
  · exact .ret _
  · exact .ite (fun _ => .fault _) fun _ => .query fun _ _ H => H.toArray _
  · exact .seq (R.iteration v) fun _ => .query fun _ _ H => H.toArray _

theorem contains (container item : Value) :
    Lockstep d p Eq (r.contains container item) (r'.contains container item) := by
  refine .onHeap fun h h' H => ?_
  rw [H.isInstance]
  refine .ite (fun _ => .onHeap fun _ _ H => .check (H.contains ..)) fun _ =>
    .seq (R.special ..) fun
      | some v => R.truth v
      | none => .seq (R.collect container) fun items => R.anyEqual item items.toList

theorem compare (op : CompareOp) (a b : Value) :
    Lockstep d p Eq (r.compare op a b) (r'.compare op a b) := by
  cases op with
  | eq => exact R.equal a b
  | ne =>
    exact .seq (R.special ..) fun
      | some v => R.truth v
      | none => .seq (R.equal a b) fun _ => .ret _
  | is => exact .ret _
  | isNot => exact .ret _
  | isIn => exact R.contains b a
  | notIn => exact .seq (R.contains b a) fun _ => .ret _
  | lt => exact R.ordered .lt a b
  | le => exact R.ordered .le a b
  | gt => exact R.ordered .gt a b
  | ge => exact R.ordered .ge a b

omit R in
theorem expectText (method : String) (v : Value) :
    Lockstep d p Eq (expectText method v) (expectText method v) := by
  cases v with
  | str s => exact .ret s
  | none | bool | int | float | ref | builtin =>
    exact .faultOn fun _ _ H => by rw [H.typeName]

theorem display (v : Value) : Lockstep d p Eq (r.display v) (r'.display v) := by
  refine .onObject v (fun _ _ => rfl) (fun _ _ => rfl) fun o => ?_
  split
  · exact .seq (R.special ..) fun
      | some s => expectText ..
      | none => .seq (R.special ..) fun
        | some s => expectText ..
        | none => .query fun _ _ H => H.str _
  · exact .ret _
  · exact .query fun _ _ H => H.str v

theorem represent (v : Value) : Lockstep d p Eq (r.represent v) (r'.represent v) :=
  .seq (R.special ..) fun
    | some s => expectText "__repr__" s
    | none => .query fun _ _ H => H.repr v

theorem length (v : Value) : Lockstep d p Eq (r.length v) (r'.length v) := by
  refine .onHeap fun h h' H => ?_
  rw [H.length?]
  split
  · exact .ret _
  refine .seq (R.special ..) fun answer => ?_
  split
  · split
    · exact .ite (fun _ => .ret _) fun _ => .fault _
    · exact .fault _
  · exact .faultOn fun _ _ H => by rw [H.typeName]

end Interp.InStep

end StepTrace
