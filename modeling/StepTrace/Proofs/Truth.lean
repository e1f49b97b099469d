import StepTrace.Grammar.Statement
import StepTrace.Proofs.Methods

/-!
What counts as true. Conditions ask the program, where the class of an instance says so; built-in
functions that tell whether values are true look at the heap alone, to which every instance is.
-/

set_option autoImplicit false

namespace StepTrace

namespace Interp

variable {r : Interp} {m m' s : Machine} {v : Value} {t : Bool}

/-! ### Conditions -/

theorem truth_bind {α : Type} {e : Expr} {f : Value → Bool → Run α}
    (value : r.eval e s = .ok v m) (tested : r.truth v m = .ok t m') :
    (r.eval e >>= fun v => r.truth v >>= f v) s = f v t m' :=
  (Run.bind_ok value).trans (Run.bind_ok tested)

-- A condition with the value `v` in `m` decides as `t` does, and the run goes on from `m'`.
structure Branches (r : Interp) (v : Value) (t : Bool) (m m' : Machine) : Prop where
  ifStmt {e : Expr} {s : Machine} (value : r.eval e s = .ok v m) (l : Location)
    (body orelse : List Stmt) :
    r.execStmt (.ifElse l e body orelse) s = (if t then r.block body else r.block orelse) m'
  whileLoop {e : Expr} {s : Machine} (value : r.eval e s = .ok v m) (line : Nat)
    (body : List Stmt) (fuel : Nat) :
    r.whileLoop line e body (fuel + 1) s =
      (if t then do
        match ← r.block body with
        | .broken => return .normal
        | .returned w => return .returned w
        | .normal | .continued =>
          Run.boundary line
          r.whileLoop line e body fuel
      else return .normal : Run Flow) m'
  clause {e : Expr} {s : Machine} (value : r.eval e s = .ok v m) (rest : List Expr) :
    r.allHold (e :: rest) s = (if t then r.allHold rest else return false) m'
  ifElse {e : Expr} {s : Machine} (value : r.eval e s = .ok v m) (l : Location) (yes no : Expr) :
    r.evalExpr (.ifElse l e yes no) s = (if t then r.eval yes else r.eval no) m'
  and {e : Expr} {s : Machine} (value : r.eval e s = .ok v m) (l : Location) (right : Expr) :
    r.evalExpr (.boolOp l .and e right) s = (if t then r.eval right else return v) m'
  or {e : Expr} {s : Machine} (value : r.eval e s = .ok v m) (l : Location) (right : Expr) :
    r.evalExpr (.boolOp l .or e right) s = (if t then return v else r.eval right) m'
  not : r.unary .not v m = .ok (.bool !t) m'

theorem branches_of_truth (tested : r.truth v m = .ok t m') : r.Branches v t m m' where
  ifStmt value l body orelse := (truth_bind value tested).trans (by cases t <;> rfl)
  whileLoop value line body fuel := (truth_bind value tested).trans (by cases t <;> rfl)
  clause value rest := (truth_bind value tested).trans (by cases t <;> rfl)
  ifElse value l yes no := (truth_bind value tested).trans (by cases t <;> rfl)
  and value l right := (truth_bind value tested).trans (by cases t <;> rfl)
  or value l right := (truth_bind value tested).trans (by cases t <;> rfl)
  not := Run.bind_ok tested

/-! ### Built-in functions -/

-- To the heap all instances are true.
theorem truthy_of_truth (tested : r.truth v m = .ok t m') :
    m.heap.truthy v = (t || m.heap.isInstance v) := by
  cases own : m.heap.isInstance v with
  | true =>
    cases v with
    | ref id =>
      unfold Heap.isInstance Heap.deref? at own
      dsimp only at own
      split at own
      · next found => rw [Heap.truthy, found, Bool.or_true]
      · cases own
    | _ => cases own
  | false =>
    unfold truth at tested
    rw [Run.heap_bind, own] at tested
    cases tested
    rw [Bool.or_false]

theorem callValue_bool (r : Interp) (v : Value) (m : Machine) :
    r.callValue (.builtin .bool) [v] [] m = .ok (.bool (m.heap.truthy v)) m := rfl

theorem kept_none (r : Interp) (m : Machine) (out : Array Value) (vs : List Value) :
    r.kept .none out vs m = .ok (out ++ (vs.filter m.heap.truthy).toArray) m := by
  induction vs generalizing out with
  | nil => exact congrArg (EStateM.Result.ok · m) (Array.append_empty).symm
  | cons v vs ih =>
    have step : r.kept .none out (v :: vs) m =
        r.kept .none (if m.heap.truthy v then out.push v else out) vs m := rfl
    rw [step, ih, List.filter_cons]
    split <;> simp

section

variable {L : Value} {items : Array Value} (collected : r.collect L s = .ok items m)

include collected

theorem callValue_any :
    r.callValue (.builtin .any) [L] [] s = .ok (.bool (items.any m.heap.truthy)) m := by
  have run : r.sequenceFunction .any [L] [] s = .ok (.bool (items.any m.heap.truthy)) m :=
    Run.bind_ok collected
  exact Run.bind_ok run

theorem callValue_all :
    r.callValue (.builtin .all) [L] [] s = .ok (.bool (items.all m.heap.truthy)) m := by
  have run : r.sequenceFunction .all [L] [] s = .ok (.bool (items.all m.heap.truthy)) m :=
    Run.bind_ok collected
  exact Run.bind_ok run

theorem callValue_filter :
    r.callValue (.builtin .filter) [.none, L] [] s =
      Run.allocList (items.filter m.heap.truthy) m := by
  have kept : r.kept .none #[] items.toList m = .ok (items.filter m.heap.truthy) m := by
    rw [kept_none, Array.empty_append, ← Array.toList_filter]
  have run : r.sequenceFunction .filter [.none, L] [] s =
      Run.allocList (items.filter m.heap.truthy) m :=
    (Run.bind_ok collected).trans (Run.bind_ok kept)
  change (r.sequenceFunction .filter [.none, L] [] >>= pure) s = _
  rw [bind_pure, run]

end

-- A `__bool__` that answers at once.
theorem truth_answer {k : Nat} {id : ObjId} {f : FunctionObject} {vars : Namespace}
    (own : m.heap.method? v "__bool__" = some (.ref id))
    (found : m.heap.get? id = some (.function f)) (body : f.body = .block (Stmt.answer t))
    (bound : f.bind [v] [] = .ok vars) (may : m.MayCall (k + 1)) (n : Nat) :
    ∃ m', (interp (n + 3)).truth v m = .ok t m' ∧ m.Answered m' := by
  obtain ⟨m', special, answered⟩ := special_answer own found body bound may n
  refine ⟨m', ?_, answered⟩
  unfold truth
  rw [Run.heap_bind, Heap.isInstance_of_method? own]
  exact Run.bind_ok special

end Interp

/--
The built-in functions that tell whether values are true treat values as conditions do, unless a
value is an instance that is false.
-/
theorem one_notion_of_truth (r : Interp) (m : Machine) (vs : Array Value) (T : Value → Bool)
    (tested : ∀ v ∈ vs, ∃ m', r.truth v m = .ok (T v) m')
    (noneFalse : ∀ v ∈ vs, m.heap.isInstance v = true → T v = true) :
    (∀ v ∈ vs, r.callValue (.builtin .bool) [v] [] m = .ok (.bool (T v)) m ∧
      ∃ m', r.Branches v (T v) m m') ∧
    ∀ L s, r.collect L s = .ok vs m →
      r.callValue (.builtin .any) [L] [] s = .ok (.bool (vs.any T)) m ∧
      r.callValue (.builtin .all) [L] [] s = .ok (.bool (vs.all T)) m ∧
      r.callValue (.builtin .filter) [.none, L] [] s = Run.allocList (vs.filter T) m := by
  have truthy : ∀ v ∈ vs, m.heap.truthy v = T v := by
    intro v hv
    obtain ⟨m', test⟩ := tested v hv
    rw [Interp.truthy_of_truth test]
    cases own : m.heap.isInstance v with
    | true => rw [noneFalse v hv own, Bool.true_or]
    | false => rw [Bool.or_false]
  constructor
  · intro v hv
    obtain ⟨m', test⟩ := tested v hv
    rw [Interp.callValue_bool, truthy v hv]
    exact ⟨rfl, m', Interp.branches_of_truth test⟩
  · intro L s collected
    have anyTrue : vs.any m.heap.truthy = vs.any T := by grind
    have allTrue : vs.all m.heap.truthy = vs.all T := by grind
    have trueOnes : vs.filter m.heap.truthy = vs.filter T := by
      rw [← Array.toList_inj, Array.toList_filter, Array.toList_filter]
      exact List.filter_congr fun v hv => truthy v (Array.mem_toList_iff.1 hv)
    rw [Interp.callValue_any collected, Interp.callValue_all collected,
      Interp.callValue_filter collected, anyTrue, allTrue, trueOnes]
    exact ⟨rfl, rfl, rfl⟩

/-! ### A class with true instances -/

-- An instance whose class defines `__bool__`, and a list of it and a number.
def Machine.judging : Machine :=
  { Machine.start {} [] with
    heap := .withMethod (.answering "__bool__" ["self"] true) [.list ⟨#[.ref 2, .int 0], none⟩] }

theorem one_notion_of_truth_own_truth :
    (∀ v ∈ #[Value.ref 2, .int 0], ∃ m',
      (interp 3).truth v .judging = .ok v.ref?.isSome m') ∧
    (∀ v ∈ #[Value.ref 2, .int 0],
      Machine.judging.heap.isInstance v = true → v.ref?.isSome = true) ∧
    (interp 3).callValue (.builtin .bool) [.ref 2] [] .judging = .ok (.bool true) .judging ∧
    (∃ m', (interp 3).Branches (.ref 2) true .judging m') ∧
    (interp 3).callValue (.builtin .any) [.ref 3] [] .judging = .ok (.bool true) .judging ∧
    (interp 3).callValue (.builtin .all) [.ref 3] [] .judging = .ok (.bool false) .judging := by
  have own : Machine.judging.heap.method? (.ref 2) "__bool__" = some (.ref 0) :=
    Heap.method?_withMethod ..
  have may : Machine.judging.MayCall 1 := ⟨rfl, by decide, by decide, by decide⟩
  obtain ⟨m', answer, -⟩ := Interp.truth_answer own rfl rfl rfl may 0
  have tested : ∀ v ∈ #[Value.ref 2, .int 0], ∃ m',
      (interp 3).truth v .judging = .ok v.ref?.isSome m' := by
    simp only [List.mem_toArray, List.forall_mem_cons]
    exact ⟨⟨m', answer⟩, ⟨.judging, rfl⟩, fun _ never => absurd never List.not_mem_nil⟩
  have noneFalse : ∀ v ∈ #[Value.ref 2, .int 0],
      Machine.judging.heap.isInstance v = true → v.ref?.isSome = true := by
    simp only [List.mem_toArray, List.forall_mem_cons]
    exact ⟨fun _ => rfl, nofun, fun _ never => absurd never List.not_mem_nil⟩
  have agreed := one_notion_of_truth (interp 3) .judging #[.ref 2, .int 0] (·.ref?.isSome) tested
    noneFalse
  obtain ⟨anyTrue, allTrue, -⟩ := agreed.2 (.ref 3) .judging rfl
  rw [← Array.any_toList] at anyTrue
  rw [← Array.all_toList] at allTrue
  obtain ⟨bool, branches⟩ := agreed.1 (.ref 2) (List.mem_toArray.2 List.mem_cons_self)
  exact ⟨tested, noneFalse, bool, branches, anyTrue, allTrue⟩

-- A program whose conditions find a value false that the built-in functions find true.
theorem builtins_ignore_own_truth :
    ((parseProgram ("class Z:\n    def __bool__(self):\n        return False\nz = Z()\n" ++
      "print(bool(z), any([z]), all([z]), filter(None, [z]) == [], not z)\n")).toOption.map fun p =>
        (Run.state (runProgram 30 p (.start {} []))).output) =
      some "True True True False True\n" := by
  rw [← String.ofList_append, parseProgram_ofList]
  decide +kernel

end StepTrace
