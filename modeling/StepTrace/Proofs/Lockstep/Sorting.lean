import StepTrace.Proofs.Lockstep.Item

/-!
Sorting, extremes and priority queues in lockstep.
-/

set_option autoImplicit false

namespace StepTrace

namespace Lockstep

variable {d : Leeway} {p : Rights} {α : Type} {less less' : α → α → Run Bool}

theorem mergeBy (hless : ∀ a b, Lockstep d p Eq (less a b) (less' a b)) (xs ys out : List α) :
    Lockstep d p Eq (StepTrace.mergeBy less xs ys out) (StepTrace.mergeBy less' xs ys out) := by
  induction xs, ys, out using StepTrace.mergeBy.induct with
  | case1 ys out =>
    simp only [StepTrace.mergeBy]
    exact .ret _
  | case2 xs out nonempty =>
    cases xs with
    | nil => exact absurd rfl nonempty
    | cons x xs =>
      simp only [StepTrace.mergeBy]
      exact .ret _
  | case3 x xs y ys out left right =>
    rw [StepTrace.mergeBy, StepTrace.mergeBy]
    exact .seq (hless y x) fun
      | true => left
      | false => right

theorem sortBy (hless : ∀ a b, Lockstep d p Eq (less a b) (less' a b)) (xs : List α) :
    Lockstep d p Eq (StepTrace.sortBy less xs) (StepTrace.sortBy less' xs) := by
  induction xs using StepTrace.sortBy.induct with
  | case1 xs short =>
    unfold StepTrace.sortBy
    rw [dif_pos short, dif_pos short]
    exact .ret xs
  | case2 xs long left right =>
    unfold StepTrace.sortBy
    rw [dif_neg long, dif_neg long]
    exact .seq left fun _ => .seq right fun _ => mergeBy hless ..

theorem queueOf (name : String) (list : Value) : (Interp.queueOf name list).Steady d p := by
  cases list with
  | ref id =>
    refine .onObject (.ref id) (fun _ _ => rfl) (fun _ _ => rfl) fun o => ?_
    split
    · exact .ret _
    · exact .faultOn fun _ _ H => by rw [H.typeName]
  | none | bool | int | float | str | builtin =>
    exact .onObject _ (fun _ _ => rfl) (fun _ _ => rfl) fun _ =>
      .faultOn fun _ _ H => by rw [H.typeName]

end Lockstep

namespace Interp.InStep

variable {d : Leeway} {p : Rights} {r r' : Interp} (R : r.InStep d r')
include R

theorem mapCall (f : Value) (out : Array Value) (vs : List Value) :
    Lockstep d p Eq (r.mapCall f out vs) (r'.mapCall f out vs) := by
  induction vs generalizing out with
  | nil => exact .ret out
  | cons v rest ih => exact .seq (R.call ..) fun _ => ih _

theorem keysOf (key : Option Value) (items : Array Value) :
    Lockstep d p Eq (r.keysOf key items) (r'.keysOf key items) := by
  unfold Interp.keysOf
  split
  · exact R.mapCall ..
  · exact .ret items

theorem keyLess (reverse : Bool) (a b : Value × Value) :
    Lockstep d p Eq (r.keyLess reverse a b) (r'.keyLess reverse a b) :=
  .seq (R.order ..) fun _ => .ret _

theorem sorted (items : Array Value) (key : Option Value) (reverse : Bool) :
    Lockstep d p Eq (r.sorted items key reverse) (r'.sorted items key reverse) :=
  .seq (R.keysOf key items) fun _ => .seq (.sortBy (R.keyLess reverse) _) fun _ => .ret _

theorem extremeFrom (greatest : Bool) (key : Option Value) (best : Option (Value × Value))
    (vs : List Value) :
    Lockstep d p Eq (r.extremeFrom greatest key best vs) (r'.extremeFrom greatest key best vs) := by
  induction vs generalizing best with
  | nil => exact .ret _
  | cons v rest ih =>
    cases key with
    | some f =>
      refine .seq (R.call f [v] []) fun k => ?_
      split
      · exact ih _
      · exact .seq (R.order ..) fun _ => ih _
    | none =>
      refine .seq (.ret v) fun k => ?_
      split
      · exact ih _
      · exact .seq (R.order ..) fun _ => ih _

theorem extremeOf (name : String) (greatest : Bool) (key fallback : Option Value)
    (items : List Value) :
    Lockstep d p Eq (r.extremeOf name greatest key fallback items)
      (r'.extremeOf name greatest key fallback items) := by
  refine .seq (R.extremeFrom ..) fun found => ?_
  split
  · exact .ret _
  · exact .ret _
  · exact .fault _

theorem extreme (name : String) (greatest : Bool) (args : List Value)
    (key fallback : Option Value) :
    Lockstep d p Eq (r.extreme name greatest args key fallback)
      (r'.extreme name greatest args key fallback) := by
  unfold Interp.extreme
  split
  · exact .seq (.fault _) fun _ => R.extremeOf ..
  · exact .seq (.map _ (R.collect _)) fun _ => R.extremeOf ..
  · exact .seq (.ret _) fun _ => R.extremeOf ..

theorem lessAt (items : Array Value) (i j : Nat) :
    Lockstep d p Eq (r.lessAt items i j) (r'.lessAt items i j) :=
  .seq (R.order ..) fun _ => .ret _

theorem siftDown (room : Nat) (items : Array Value) (i : Nat) :
    Lockstep d p Eq (r.siftDown room items i) (r'.siftDown room items i) := by
  induction room generalizing items i with
  | zero => exact .ret items
  | succ room ih =>
    refine .ite (fun _ => .ret items) fun _ =>
      .ite (fun _ => .seq (R.lessAt ..) ?_) fun _ => .seq (.ret false) ?_
    all_goals
      exact fun _ => .seq (R.lessAt ..) fun
        | true => ih ..
        | false => .ret items

theorem siftUp (items : Array Value) (i : Nat) :
    Lockstep d p Eq (r.siftUp items i) (r'.siftUp items i) := by
  induction i using Nat.strongRecOn generalizing items with
  | ind i ih =>
    unfold Interp.siftUp
    split
    · exact .ret items
    · exact .seq (R.lessAt ..) fun
        | true => ih _ (by omega) _
        | false => .ret items

theorem queuePush (list item : Value) :
    Lockstep d p Eq (r.queuePush list item) (r'.queuePush list item) :=
  .seq (.queueOf ..) fun id => .rearrange id fun _ => .seq (R.siftUp ..) fun _ => .ret _

theorem queuePop (list : Value) : Lockstep d p Eq (r.queuePop list) (r'.queuePop list) := by
  refine .seq (.queueOf ..) fun id => .rearrange id fun items => ?_
  split
  · exact .fault _
  · dsimp only
    split
    · exact .ret _
    · exact .seq (R.siftDown ..) fun _ => .ret _

theorem siftAll (n : Nat) (items : Array Value) :
    Lockstep d p Eq (r.siftAll n items) (r'.siftAll n items) := by
  induction n generalizing items with
  | zero => exact .ret items
  | succ n ih => exact .seq (R.siftDown ..) fun _ => ih _

theorem queueMake (list : Value) : Lockstep d p Eq (r.queueMake list) (r'.queueMake list) :=
  .seq (.queueOf ..) fun id => .rearrange id fun _ => .seq (R.siftAll ..) fun _ => .ret _

end Interp.InStep

end StepTrace
