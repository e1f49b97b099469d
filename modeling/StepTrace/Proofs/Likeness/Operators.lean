import StepTrace.Iteration
import StepTrace.Proofs.Likeness

/-!
Operators, texts and iterations on heaps that differ in marks only.
-/

set_option autoImplicit false

namespace StepTrace

namespace Heap.Alike

variable {marks : Bool} {h h' : Heap}

/-! ### Truth, equality and order -/

theorem truthy (H : h.Alike marks h') (v : Value) : h'.truthy v = h.truthy v := by
  cases v with
  | ref id =>
    rcases H.sees id with same | ⟨_, _, left, right⟩ | ⟨_, left, right⟩ <;>
      simp only [Heap.truthy, *]
  | _ => rfl

theorem truths (H : h.Alike marks h') : h'.truthy = h.truthy := funext H.truthy

theorem length? (H : h.Alike marks h') (v : Value) : h'.length? v = h.length? v := by
  cases v with
  | str s => rfl
  | none | bool | int | float | builtin => rfl
  | ref id =>
    rcases H.points (.ref id) with same | ⟨_, _, left, right⟩ | ⟨_, left, right⟩
    · simp only [Heap.length?, same]
    · simp only [Heap.length?, left, right]
    · simp only [Heap.length?, left, right]

theorem equalObjects {eq : Value → Value → Bool} {a a' b b' : Object}
    (ha : a.Alike marks a') (hb : b.Alike marks b') :
    Heap.equalObjects eq a' b' = Heap.equalObjects eq a b := by
  cases ha with
  | same =>
    cases hb with
    | same => rfl
    | list | function => cases a <;> rfl
  | list | function =>
    cases hb with
    | same => cases b <;> rfl
    | list | function => rfl

theorem equalWithin (H : h.Alike marks h') (room : Nat) (a b : Value) :
    h'.equalWithin room a b = h.equalWithin room a b := by
  induction room generalizing a b with
  | zero => simp only [Heap.equalWithin]
  | succ room ih =>
    have elements : h'.equalWithin room = h.equalWithin room := funext fun a => funext (ih a)
    cases a with
    | ref x =>
      cases b with
      | ref y =>
        simp only [Heap.equalWithin, elements]
        have left := H.get? x
        have right := H.get? y
        generalize h.get? x = l at left ⊢
        generalize h'.get? x = l' at left ⊢
        generalize h.get? y = r at right ⊢
        generalize h'.get? y = r' at right ⊢
        cases left with
        | none => rfl
        | some left =>
          cases right with
          | none => rfl
          | some right => simp only [equalObjects left right]
      | _ => rfl
    | _ => cases b <;> rfl

theorem equal (H : h.Alike marks h') (a b : Value) : h'.equal a b = h.equal a b :=
  H.equalWithin _ a b

theorem sequencePair? (H : h.Alike marks h') (a b : Value) :
    h'.sequencePair? a b = h.sequencePair? a b := by
  unfold Heap.sequencePair?
  have left := H.deref? a
  have right := H.deref? b
  generalize h.deref? a = l at left ⊢
  generalize h'.deref? a = l' at left ⊢
  generalize h.deref? b = r at right ⊢
  generalize h'.deref? b = r' at right ⊢
  cases left with
  | none => rfl
  | @some l l' left =>
    cases right with
    | none =>
      cases left with
      | same => cases l <;> rfl
      | list | function => rfl
    | @some r r' right =>
      cases left with
      | same =>
        cases right with
        | same => rfl
        | list | function => cases l <;> rfl
      | list | function =>
        cases right with
        | same => cases r <;> rfl
        | list | function => rfl

theorem orderWithin (H : h.Alike marks h') (symbol : String) (room : Nat) (a b : Value) :
    h'.orderWithin symbol room a b = h.orderWithin symbol room a b := by
  induction room generalizing a b with
  | zero => simp only [Heap.orderWithin]
  | succ room ih =>
    have elements : h'.equalWithin room = h.equalWithin room :=
      funext fun a => funext (H.equalWithin room a)
    unfold Heap.orderWithin
    simp only [ih, elements, H.sequencePair?, Heap.notOrdered, H.typeName]

theorem order? (H : h.Alike marks h') (symbol : String) (a b : Value) :
    h'.order? symbol a b = h.order? symbol a b :=
  H.orderWithin symbol _ a b

theorem hashKeys (H : h.Alike marks h') (depth : Nat) (vs : List Value) :
    h'.hashKeys depth vs = h.hashKeys depth vs := by
  induction depth generalizing vs with
  | zero => cases vs <;> simp only [Heap.hashKeys]
  | succ depth outer =>
    induction vs with
    | nil => simp only [Heap.hashKeys]
    | cons v rest inner =>
      cases v with
      | ref id =>
        rcases H.sees id with same | ⟨_, _, left, right⟩ | ⟨_, left, right⟩ <;>
          simp only [Heap.hashKeys, H.typeName, *]
      | _ => simp only [Heap.hashKeys, inner]

theorem key (H : h.Alike marks h') (v : Value) : h'.key v = h.key v := by
  simp only [Heap.key, Heap.hashKey, H.hashKeys, H.size, H.typeName]

theorem anyEqual (H : h.Alike marks h') (items : Array Value) (item : Value) :
    h'.anyEqual items item = h.anyEqual items item := by
  simp only [Heap.anyEqual, H.equal]

theorem contains (H : h.Alike marks h') (container item : Value) :
    h'.contains container item = h.contains container item := by
  cases container with
  | str s => simp only [Heap.contains, H.typeName]
  | ref id =>
    rcases H.points (.ref id) with same | ⟨_, _, left, right⟩ | ⟨_, left, right⟩ <;>
      simp only [Heap.contains, H.anyEqual, H.key, H.typeName, *]
  | _ => simp only [Heap.contains, Heap.deref?, H.typeName]

/-! ### Texts -/

theorem appendObject (H : h.Alike marks h') (item : String → Value → String) (out : String)
    {o o' : Object} (ho : o.Alike marks o') :
    h'.appendObject item out o' = h.appendObject item out o := by
  cases ho with
  | list | function => rfl
  | same =>
    cases o with
    | boundMethod receiver function =>
      rcases H.sees function with same | ⟨_, _, left, right⟩ | ⟨_, left, right⟩ <;>
        simp only [Heap.appendObject, *]
    | _ => simp only [Heap.appendObject, H.className]

theorem appendValue (H : h.Alike marks h') (room : Nat) (active : List ObjId) (out : String)
    (v : Value) : h'.appendValue room active out v = h.appendValue room active out v := by
  induction room generalizing active out v with
  | zero => simp only [Heap.appendValue]
  | succ room ih =>
    cases v with
    | ref id =>
      have item : h'.appendValue room (id :: active) = h.appendValue room (id :: active) :=
        funext fun out => funext (ih _ out)
      simp only [Heap.appendValue, item]
      have related := H.get? id
      generalize h.get? id = a at related ⊢
      generalize h'.get? id = b at related ⊢
      cases related with
      | none => rfl
      | some ho =>
        simp only [H.appendObject _ _ ho]
        cases ho <;> rfl
    | _ => rfl

theorem repr (H : h.Alike marks h') (v : Value) : h'.repr v = h.repr v := by
  simp only [Heap.repr, H.appendValue, H.size]

theorem str (H : h.Alike marks h') (v : Value) : h'.str v = h.str v := by
  cases v <;> simp only [Heap.str, H.repr]

theorem apply (H : h.Alike marks h') (spec : FormatSpec) (raw : String) (v : Value) :
    spec.apply h' raw v = spec.apply h raw v := by
  simp only [FormatSpec.apply, H.str, H.typeName]

theorem format (H : h.Alike marks h') (v : Value) (spec : String) :
    h'.format v spec = h.format v spec := by
  simp only [Heap.format, H.str, H.typeName, H.apply]

theorem convert (H : h.Alike marks h') (spec : FormatSpec) (conversion : Char) (v : Value) :
    Percent.convert h' spec conversion v = Percent.convert h spec conversion v := by
  simp only [Percent.convert, H.str, H.repr, H.typeName, H.apply]

theorem percentFill (H : h.Alike marks h') (template : List Char) (values : List Value)
    (out : List Char) :
    Percent.fill h' template values out = Percent.fill h template values out := by
  fun_induction Percent.fill h template values out
  case case1 | case2 => rw [Percent.fill]; simp_all
  case case8 plain ih =>
    rw [Percent.fill, ih]
    exact plain
  all_goals
    rw [Percent.fill]
    split <;> grind [H.convert]

theorem formatPercent (H : h.Alike marks h') (template : String) (args : Value) :
    h'.formatPercent template args = h.formatPercent template args := by
  rcases H.points args with same | ⟨_, _, left, right⟩ | ⟨_, left, right⟩ <;>
    simp only [Heap.formatPercent, H.percentFill, *]

theorem bracesFill (H : h.Alike marks h') (args : List Value) (named : List (String × Value))
    (fuel : Nat) (template : List Char) (counted : Nat) (out : String) :
    Braces.fill h' args named fuel template counted out =
      Braces.fill h args named fuel template counted out := by
  induction fuel generalizing template counted out with
  | zero => simp only [Braces.fill]
  | succ fuel ih => simp only [Braces.fill, ih, H.repr, H.str, H.format]

theorem formatBraces (H : h.Alike marks h') (template : String) (args : List Value)
    (named : List (String × Value)) :
    h'.formatBraces template args named = h.formatBraces template args named :=
  H.bracesFill args named _ _ _ _

/-! ### Operators -/

theorem badOperands (H : h.Alike marks h') (op : BinaryOp) (a b : Value) :
    h'.badOperands op a b = h.badOperands op a b := by
  simp only [Heap.badOperands, H.typeName]

theorem stringOperator? (H : h.Alike marks h') (op : BinaryOp) (a b : Value) :
    h'.stringOperator? op a b = h.stringOperator? op a b := by
  unfold Heap.stringOperator?
  simp only [H.formatPercent]

theorem containerOperator {a a' b b' : Object} (op : BinaryOp) (ha : a.Alike marks a')
    (hb : b.Alike marks b') :
    StepTrace.containerOperator op a' b' = StepTrace.containerOperator op a b := by
  cases ha with
  | same =>
    cases hb with
    | same => rfl
    | list | function => cases a <;> cases op <;> rfl
  | list | function =>
    cases hb with
    | same => cases b <;> cases op <;> rfl
    | list | function => cases op <;> rfl

theorem repeatedObject {o o' : Object} (ho : o.Alike marks o') (times : Nat) :
    StepTrace.repeatedObject o' times = StepTrace.repeatedObject o times := by
  cases ho <;> rfl

theorem containerOperator? (H : h.Alike marks h') (op : BinaryOp) (a b : Value) :
    h'.containerOperator? op a b = h.containerOperator? op a b := by
  unfold Heap.containerOperator?
  have left := H.deref? a
  have right := H.deref? b
  generalize h.deref? a = l at left ⊢
  generalize h'.deref? a = l' at left ⊢
  generalize h.deref? b = r at right ⊢
  generalize h'.deref? b = r' at right ⊢
  cases left with
  | none =>
    cases right with
    | none => rfl
    | some right => simp only [repeatedObject right]
  | some left =>
    cases right with
    | none => simp only [repeatedObject left]
    | some right => simp only [containerOperator op left right]

theorem binary (H : h.Alike marks h') (op : BinaryOp) (a b : Value) :
    h'.binary op a b = h.binary op a b := by
  unfold Heap.binary
  simp only [H.badOperands, H.stringOperator?, H.containerOperator?]

theorem unary (H : h.Alike marks h') (op : UnaryOp) (v : Value) :
    h'.unary op v = h.unary op v := by
  unfold Heap.unary
  simp only [H.typeName, H.truthy]

/-! ### Iterations -/

theorem iteration? (H : h.Alike marks h') (v : Value) : h'.iteration? v = h.iteration? v := by
  cases v with
  | ref id =>
    rcases H.sees id with same | ⟨_, _, left, right⟩ | ⟨_, left, right⟩ <;>
      simp only [Heap.iteration?, *]
  | _ => rfl

theorem next? (H : h.Alike marks h') (it : Iteration) : it.next? h' = it.next? h := by
  cases it with
  | live id i =>
    rcases H.sees id with same | ⟨_, _, left, right⟩ | ⟨_, left, right⟩ <;>
      simp only [Iteration.next?, *]
  | progression n step remaining => cases remaining <;> rfl
  | items rest => cases rest <;> rfl

theorem toArray (H : h.Alike marks h') (it : Iteration) : it.toArray h' = it.toArray h := by
  cases it with
  | live id i =>
    rcases H.sees id with same | ⟨_, _, left, right⟩ | ⟨_, left, right⟩ <;>
      simp only [Iteration.toArray, *]
  | _ => rfl

end Heap.Alike

end StepTrace
