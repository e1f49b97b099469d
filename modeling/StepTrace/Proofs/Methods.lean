import StepTrace.Proofs.Bodies
import StepTrace.Proofs.History

/-!
Methods by name: those of the built-in types, and those that classes of the program define. Of the
latter the simplest ones return a truth value at once.
-/

set_option autoImplicit false

namespace StepTrace

-- The method that the class of an instance has under a name.
def Heap.method? (h : Heap) (v : Value) (name : String) : Option Value :=
  match h.deref? v with
  | some (.instance i) => h.classAttr? i.cls name
  | _ => none

theorem Heap.isInstance_of_method? {h : Heap} {v f : Value} {name : String}
    (has : h.method? v name = some f) : h.isInstance v = true := by
  unfold method? at has
  cases found : h.deref? v with
  | none =>
    rw [found] at has
    cases has
  | some o =>
    rw [found] at has
    cases o with
    | «instance» i => rw [isInstance, found]
    | _ => cases has

theorem Heap.method?_own {h : Heap} {v f : Value} {i : Instance} {c : ClassObject} {name : String}
    (found : h.deref? v = some (.instance i)) (cls : h.get? i.cls = some (.class c))
    (own : c.attrs.get? name = some f) : h.method? v name = some f := by
  obtain ⟨bound, size⟩ : ∃ bound, h.size = bound + 1 :=
    Nat.exists_eq_add_one.2 (Nat.zero_lt_of_lt (Array.getElem?_eq_some_iff.1 cls).1)
  unfold method?
  rw [found]
  dsimp only
  rw [classAttr?, size, walkClasses, cls]
  dsimp only
  rw [own]

namespace Interp

variable {r : Interp} {m : Machine} {v : Value} {id : ObjId} {name : String} {args : List Value}
  {keywords : Keywords}

theorem special_of_none (missing : m.heap.method? v name = none) :
    r.special v name args m = .ok none m := by
  unfold Heap.method? at missing
  unfold special
  rw [Run.heap_bind]
  cases found : m.heap.deref? v with
  | none => rfl
  | some o =>
    cases o with
    | «instance» i =>
      rw [found] at missing
      dsimp only at missing ⊢
      rw [missing]
      rfl
    | _ => rfl

theorem special_of_some {method : Value} (has : m.heap.method? v name = some method) :
    r.special v name args m = (some <$> r.call method (v :: args) []) m := by
  unfold Heap.method? at has
  unfold special
  rw [Run.heap_bind]
  cases found : m.heap.deref? v with
  | none =>
    rw [found] at has
    cases has
  | some o =>
    rw [found] at has
    cases o with
    | «instance» i =>
      dsimp only at has ⊢
      rw [has]
    | _ => cases has

theorem callMethod_list {l : ListObject} (found : m.heap.get? id = some (.list l))
    (known : (builtinMethods "list").contains name = true) :
    r.callMethod (.ref id) name args keywords m = r.listMethod id name args keywords m := by
  have here : m.heap.deref? (.ref id) = some (.list l) := found
  have typeName : m.heap.typeName (.ref id) = "list" := by
    rw [Heap.typeName, found]
    rfl
  unfold callMethod
  rw [Run.heap_bind, here]
  dsimp only
  unfold builtinMethod
  dsimp only
  rw [Run.heap_bind, here, typeName, known]
  rfl

theorem callMethod_tuple {items : Array Value} (found : m.heap.get? id = some (.tuple items))
    (known : (builtinMethods "tuple").contains name = true) :
    r.callMethod (.ref id) name args [] m = r.searchMethod items "tuple" name args m := by
  have here : m.heap.deref? (.ref id) = some (.tuple items) := found
  have typeName : m.heap.typeName (.ref id) = "tuple" := by
    rw [Heap.typeName, found]
    rfl
  unfold callMethod
  rw [Run.heap_bind, here]
  dsimp only
  unfold builtinMethod
  dsimp only
  rw [Run.heap_bind, here, typeName, known]
  rfl

end Interp

/-! ### Functions that answer at once -/

-- `return b`
def Stmt.answer (b : Bool) : List Stmt := [.return ⟨2, 9⟩ (some (.bool ⟨2, 16⟩ b))]

namespace Machine

-- There is room for `k` calls, one after the other, of functions that answer at once.
structure MayCall (m : Machine) (k : Nat) : Prop where
  going : m.halted = false
  steps : m.steps.size + k ≤ m.config.budget.count
  frames : m.depth < m.config.maxCallDepth
  levels : m.evaluating < evaluationLimit

-- What such a call leaves behind is one step.
structure Answered (m m' : Machine) : Prop where
  heap : m'.heap = m.heap
  config : m'.config = m.config
  callers : m'.callers = m.callers
  steps : m'.steps.size = m.steps.size + 1
  halted : m'.halted = m.halted
  evaluating : m'.evaluating = m.evaluating

variable {m m' : Machine} {k : Nat}

theorem MayCall.hasRoom (may : m.MayCall (k + 1)) : m.hasRoom = true :=
  decide_eq_true (Nat.lt_of_lt_of_le (Nat.lt_add_of_pos_right k.succ_pos) may.steps)

theorem MayCall.next (may : m.MayCall (k + 1)) (h : m.Answered m') : m'.MayCall k where
  going := h.halted.trans may.going
  steps := by
    rw [h.steps, h.config, Nat.add_assoc, Nat.add_comm 1]
    exact may.steps
  frames := by
    rw [depth, h.callers, h.config]
    exact may.frames
  levels := by
    rw [h.evaluating]
    exact may.levels

end Machine

namespace Interp

variable {m : Machine} {k : Nat} {b : Bool}

theorem block_answer (going : m.halted = false) (room : m.hasRoom = true)
    (levels : m.evaluating < evaluationLimit) (n : Nat) (b : Bool) :
    ∃ m', (interp (n + 2)).block (Stmt.answer b) m = .ok (.returned (.bool b)) m' ∧
      m.Answered m' := by
  let passed : Machine := { m with lastLine := 2 }.record (Step.atLine 2)
  have evaluated : (interp (n + 1)).eval (.bool ⟨2, 16⟩ b) passed = .ok (.bool b) passed := by
    change atLevel n (Run.deeper ((interp n).evalExpr (.bool ⟨2, 16⟩ b))) _ = _
    rw [atLevel_eq]
    exact (Run.deeper_eq _ _).trans (if_pos levels)
  have executed : (interp (n + 1)).execStmt (.return ⟨2, 9⟩ (some (.bool ⟨2, 16⟩ b))) passed =
      .ok (.returned (.bool b)) passed := Run.bind_ok evaluated
  refine ⟨passed, ?_, rfl, rfl, rfl, Array.size_push _, rfl, rfl⟩
  exact (Run.bind_ok (Run.boundary_of_room 2 going room)).trans (Run.bind_ok executed)

theorem call_answer {id : ObjId} {f : FunctionObject} {args : List Value} {vars : Namespace}
    (found : m.heap.get? id = some (.function f)) (body : f.body = .block (Stmt.answer b))
    (bound : f.bind args [] = .ok vars) (may : m.MayCall (k + 1)) (n : Nat) :
    ∃ m', (interp (n + 3)).call (.ref id) args [] m = .ok (.bool b) m' ∧ m.Answered m' := by
  have called : (interp (n + 3)).call (.ref id) args [] m =
      (interp (n + 2)).callFunction f args [] m := by
    refine (Run.heap_bind _ m).trans ?_
    rw [Heap.deref?, found]
  let entered : Machine := { m with scopes := m.scopes.push ⟨vars, f.closure⟩ }
  obtain ⟨frame, -, -, framed⟩ := (interp (n + 2)).callFunction_of_bound bound may.frames
  obtain ⟨m₁, ran, answered⟩ := block_answer (m := entered.enter frame) may.going may.hasRoom
    may.levels n b
  have returned : (interp (n + 2)).runBody f (entered.enter frame) = .ok (.bool b) m₁ := by
    unfold runBody
    rw [body]
    exact Run.bind_ok ran
  rw [called, framed]
  exact ⟨_, Run.inFrame_ok may.frames returned, answered.heap, answered.config, rfl,
    answered.steps, answered.halted, answered.evaluating⟩

theorem special_answer {v : Value} {name : String} {id : ObjId} {f : FunctionObject}
    {args : List Value} {vars : Namespace} (own : m.heap.method? v name = some (.ref id))
    (found : m.heap.get? id = some (.function f)) (body : f.body = .block (Stmt.answer b))
    (bound : f.bind (v :: args) [] = .ok vars) (may : m.MayCall (k + 1)) (n : Nat) :
    ∃ m', (interp (n + 3)).special v name args m = .ok (some (.bool b)) m' ∧ m.Answered m' := by
  obtain ⟨m', called, answered⟩ := call_answer found body bound may n
  exact ⟨m', (special_of_some own).trans (Run.map_ok called), answered⟩

end Interp

-- `def name(params): return b`, in the body of a class.
def FunctionObject.answering (name : String) (params : List String) (b : Bool) :
    FunctionObject where
  name := name
  params := params
  defaults := []
  body := .block (Stmt.answer b)
  closure := none
  owner := some 1
  line := 1

-- A class that has `f` as its only method, an instance of it at 2, and other objects.
def Heap.withMethod (f : FunctionObject) (others : List Object) : Heap where
  objects := (.function f :: .class ⟨"A", none, none, .insert .empty f.name (.ref 0)⟩ ::
    .instance ⟨1, .empty⟩ :: others).toArray
  limit := 10

theorem Heap.method?_withMethod (f : FunctionObject) (others : List Object) :
    (Heap.withMethod f others).method? (.ref 2) f.name = some (.ref 0) :=
  method?_own rfl rfl (Ordered.get?_insert_self _ _ _)

end StepTrace
