import StepTrace.Proofs.Soundness.Hosting
import StepTrace.Proofs.Soundness.Logic

/-!
Truth, operators, comparisons, texts and iterations keep states intact.
-/

set_option autoImplicit false

namespace StepTrace

-- An interpreter whose parts keep states intact.
structure Interp.Sound (r : Interp) : Prop where
  eval : ∀ m e, Safe m (r.eval e)
  block : ∀ m body, Safe m (r.block body)
  call : ∀ {m : Machine} {f args keywords}, m.heap.Hosts f → m.heap.Hosts args →
    m.heap.Hosts keywords → Safe m (r.call f args keywords)
  iterate : ∀ {m : Machine} {v}, m.heap.Hosts v → Safe m (r.iterate v)

namespace Interp.Sound

open Heap

variable {r : Interp} (R : r.Sound) {m : Machine}
include R

theorem special {v : Value} {args : List Value} (name : String) (hv : m.heap.Hosts v)
    (hargs : m.heap.Hosts args) : Safe m (r.special v name args) := by
  refine .onHeap fun intact => ?_
  split
  · split
    · next method found =>
      exact .map (R.call (intact.classAttr? found) (hosts_cons hv hargs) hosts_nil)
        fun _ _ => hosts_some
    · exact .ret hosts_none
  · exact .ret hosts_none

theorem truth {v : Value} (hv : m.heap.Hosts v) : Safe m (r.truth v) := by
  refine .onHeap fun _ => ?_
  split
  · exact .onHeap fun _ => .ret trivial
  refine .bind (R.special _ hv hosts_nil) fun
    | some (.bool b), _, _, _ => .ret trivial
    | some (.none), _, _, _ | some (.int _), _, _, _ | some (.float _), _, _, _
    | some (.str _), _, _, _ | some (.ref _), _, _, _ | some (.builtin _), _, _, _ => .faultOn _
    | none, _, later, _ => .bind (R.special _ (later.keep hv) hosts_nil) fun
      | some _, _, _, _ => .ret trivial
      | none, _, _, _ => .onHeap fun _ => .ret trivial

theorem binary {a b : Value} (op : BinaryOp) (ha : m.heap.Hosts a) (hb : m.heap.Hosts b) :
    Safe m (r.binary op a b) := by
  have builtin : ∀ m, Safe m (do Run.settle (← Run.check ((← Run.heap).binary op a b))) :=
    fun m => .onHeap fun intact => .after (.check _) fun out done => .settle (intact.binary done)
  refine .onHeap fun _ => ?_
  split
  · refine .bind (R.special _ ha (hosts_cons hb hosts_nil)) fun
      | some v, _, _, hv => .ret (hv v rfl)
      | none, _, later, _ =>
        .bind (R.special _ (later.keep hb) (hosts_cons (later.keep ha) hosts_nil)) fun
          | some v, _, _, hv => .ret (hv v rfl)
          | none, m', _, _ => builtin m'
  · exact builtin m

theorem unary {v : Value} (op : UnaryOp) (hv : m.heap.Hosts v) : Safe m (r.unary op v) := by
  unfold Interp.unary
  split
  · exact .bind (R.truth hv) fun _ _ _ _ => .ret trivial
  · refine .bind (R.special _ hv hosts_nil) fun answer m₁ _ hw => ?_
    cases answer with
    | some w => exact .ret (hw w rfl)
    | none => exact .onHeap fun _ => .checked fun _ done => hosts_unary done

theorem askEqual {a b : Value} (ha : m.heap.Hosts a) (hb : m.heap.Hosts b) :
    Safe m (r.askEqual a b) :=
  .bind (R.special _ ha (hosts_cons hb hosts_nil)) fun
    | some _, _, _, hv => .map (R.truth (hv _ rfl)) fun _ _ _ => hosts_some trivial
    | none, _, _, _ => .ret hosts_none

theorem equal {a b : Value} (ha : m.heap.Hosts a) (hb : m.heap.Hosts b) : Safe m (r.equal a b) := by
  refine .bind (R.askEqual ha hb) fun
    | some _, _, _, _ => .ret trivial
    | none, _, l, _ => .bind (R.askEqual (l.keep hb) (l.keep ha)) fun
      | some _, _, _, _ => .ret trivial
      | none, _, _, _ => .onHeap fun _ => .ret trivial

theorem firstUnequal {xs ys : List Value} (hxs : m.heap.Hosts xs) (hys : m.heap.Hosts ys) :
    Safe m (r.firstUnequal xs ys) := by
  induction xs generalizing ys m with
  | nil => exact .ret hosts_none
  | cons x xs ih =>
    cases ys with
    | nil => exact .ret hosts_none
    | cons y ys =>
      obtain ⟨hx, hxs⟩ := hosts_uncons hxs
      obtain ⟨hy, hys⟩ := hosts_uncons hys
      refine .bind (R.equal hx hy) fun
        | true, _, l, _ => ih (l.keep hxs) (l.keep hys)
        | false, _, l, _ => .ret (hosts_some ⟨l.keep hx, l.keep hy⟩)

theorem anyEqual {item : Value} {items : List Value} (hitem : m.heap.Hosts item)
    (hitems : m.heap.Hosts items) : Safe m (r.anyEqual item items) := by
  induction items generalizing m with
  | nil => exact .ret trivial
  | cons v rest ih =>
    obtain ⟨hv, hrest⟩ := hosts_uncons hitems
    refine .bind (R.equal hv hitem) fun
      | true, _, _, _ => .ret trivial
      | false, _, l, _ => ih (l.keep hitem) (l.keep hrest)

theorem askOrder {a b : Value} (op : OrderOp) (ha : m.heap.Hosts a) (hb : m.heap.Hosts b) :
    Safe m (r.askOrder op a b) :=
  .bind (R.special _ ha (hosts_cons hb hosts_nil)) fun
    | some _, _, _, hv => .map (R.truth (hv _ rfl)) fun _ _ _ => hosts_some trivial
    | none, _, l, _ => .bind (R.special _ (l.keep hb) (hosts_cons (l.keep ha) hosts_nil)) fun
      | some _, _, _, hv => .map (R.truth (hv _ rfl)) fun _ _ _ => hosts_some trivial
      | none, _, _, _ => .ret hosts_none

theorem before {a b : Value} (ha : m.heap.Hosts a) (hb : m.heap.Hosts b) :
    Safe m (r.before a b) :=
  .bind (R.askOrder _ ha hb) fun
    | some _, _, _, _ => .ret trivial
    | none, _, _, _ => .onHeap fun _ => .after (.check _) fun _ _ => .ret trivial

theorem orderWithin {a b : Value} (room : Nat) (ha : m.heap.Hosts a) (hb : m.heap.Hosts b) :
    Safe m (r.orderWithin room a b) := by
  induction room generalizing a b m with
  | zero => exact .fault _
  | succ room ih =>
    refine .onHeap fun intact => ?_
    split
    · next xs ys pair =>
      obtain ⟨hxs, hys⟩ := intact.sequencePair? pair
      exact .bind (R.firstUnequal hxs hys) fun
        | some _, _, _, differ => ih (differ _ rfl).1 (differ _ rfl).2
        | none, _, _, _ => .ret trivial
    · split
      · exact .bind (R.before ha hb) fun
          | true, _, _, _ => .ret trivial
          | false, _, l, _ => .bind (R.before (l.keep hb) (l.keep ha)) fun
            | true, _, _, _ => .ret trivial
            | false, _, _, _ => .ret trivial
      · exact .after (.check _) fun _ _ => .ret trivial

theorem order {a b : Value} (ha : m.heap.Hosts a) (hb : m.heap.Hosts b) : Safe m (r.order a b) :=
  R.orderWithin comparedDepth ha hb

theorem ordered {a b : Value} (op : OrderOp) (ha : m.heap.Hosts a) (hb : m.heap.Hosts b) :
    Safe m (r.ordered op a b) := by
  refine .bind (R.askOrder op ha hb) fun
    | some _, _, _, _ => .ret trivial
    | none, _, l, _ => .onHeap fun _ => ?_
  split
  · exact .bind (.map (R.order (l.keep ha) (l.keep hb)) fun _ _ _ => hosts_some trivial)
      fun _ _ _ _ => .ret trivial
  · exact .after (.check _) fun _ _ => .ret trivial

theorem iteration {v : Value} (hv : m.heap.Hosts v) : Safe m (r.iteration v) := by
  refine .onHeap fun intact => ?_
  split
  · next it found => exact .ret (intact.iteration? found)
  · exact .bind (R.special _ hv hosts_nil) fun
      | some inner, _, _, hinner => .ite (fun _ => .faultOn _) fun _ => R.iterate (hinner inner rfl)
      | none, _, _, _ => .faultOn _

theorem collect {v : Value} (hv : m.heap.Hosts v) : Safe m (r.collect v) := by
  refine .after (.deref? v) fun o ho => ?_
  obtain ⟨-, ho⟩ := ho
  split
  · exact .ret (ho _ rfl)
  · exact .ret (ho _ rfl)
  · exact .ite (fun _ => .fault _) fun _ => .onHeap fun intact => .ret (intact.toArray trivial)
  · exact .bind (R.iteration hv) fun it _ _ hit =>
      .onHeap fun intact => .ret (intact.toArray hit)

theorem contains {container item : Value} (hc : m.heap.Hosts container)
    (hitem : m.heap.Hosts item) : Safe m (r.contains container item) := by
  refine .onHeap fun _ => .ite (fun _ => .onHeap fun _ => .checked fun _ _ => trivial) fun _ => ?_
  exact .bind (R.special _ hc (hosts_cons hitem hosts_nil)) fun
    | some v, _, _, hv => R.truth (hv v rfl)
    | none, _, l, _ => .bind (R.collect (l.keep hc)) fun items _ l' hitems =>
      R.anyEqual (l'.keep (l.keep hitem)) (hosts_toList hitems)

theorem compare {a b : Value} (op : CompareOp) (ha : m.heap.Hosts a) (hb : m.heap.Hosts b) :
    Safe m (r.compare op a b) := by
  cases op with
  | eq => exact R.equal ha hb
  | ne =>
    exact .bind (R.special _ ha (hosts_cons hb hosts_nil)) fun
      | some v, _, _, hv => R.truth (hv v rfl)
      | none, _, l, _ => .bind (R.equal (l.keep ha) (l.keep hb)) fun _ _ _ _ => .ret trivial
  | is => exact .ret trivial
  | isNot => exact .ret trivial
  | isIn => exact R.contains hb ha
  | notIn => exact .bind (R.contains hb ha) fun _ _ _ _ => .ret trivial
  | lt => exact R.ordered .lt ha hb
  | le => exact R.ordered .le ha hb
  | gt => exact R.ordered .gt ha hb
  | ge => exact R.ordered .ge ha hb

omit R in
theorem expectText (method : String) (v : Value) : Safe m (expectText method v) := by
  cases v with
  | str s => exact .ret trivial
  | none | bool | int | float | ref | builtin => exact .faultOn _

theorem display {v : Value} (hv : m.heap.Hosts v) : Safe m (r.display v) := by
  refine .after (.deref? v) fun o _ => ?_
  split
  · exact .bind (R.special _ hv hosts_nil) fun
      | some s, _, _, _ => expectText _ s
      | none, _, l, _ => .bind (R.special _ (l.keep hv) hosts_nil) fun
        | some s, _, _, _ => expectText _ s
        | none, _, _, _ => .onHeap fun _ => .ret trivial
  · exact .ret trivial
  · exact .onHeap fun _ => .ret trivial

theorem represent {v : Value} (hv : m.heap.Hosts v) : Safe m (r.represent v) :=
  .bind (R.special _ hv hosts_nil) fun
    | some s, _, _, _ => expectText _ s
    | none, _, _, _ => .onHeap fun _ => .ret trivial

theorem length {v : Value} (hv : m.heap.Hosts v) : Safe m (r.length v) := by
  refine .onHeap fun _ => ?_
  split
  · exact .ret trivial
  refine .bind (R.special _ hv hosts_nil) fun answer _ _ _ => ?_
  split
  · split
    · exact .ite (fun _ => .ret trivial) fun _ => .fault _
    · exact .fault _
  · exact .faultOn _

end Interp.Sound

end StepTrace
