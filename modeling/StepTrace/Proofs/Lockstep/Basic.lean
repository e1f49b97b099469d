import StepTrace.Proofs.Bodies
import StepTrace.Proofs.Globals
import StepTrace.Proofs.History
import StepTrace.Proofs.Likeness.Operators

/-!
Two computations in lockstep: they do the same operations in the same order, each on what the ones
before have left. What they may differ in is said by a `Leeway`, what they may do to names by their
`Rights`.
-/

set_option autoImplicit false

namespace StepTrace

/-! ### The names that the `for` clauses in an expression bind -/

mutual

-- The names that an assignment binds, and those that the expressions in its target bind.
def Expr.targetNames : Expr → List String
  | .name _ name => [name]
  | .tuple _ targets | .list _ targets => targetNamesAll targets
  | .attr _ object _ => object.loopNames
  | .subscript _ object index => object.loopNames ++ index.loopNames
  | _ => []

def targetNamesAll : List Expr → List String
  | [] => []
  | target :: rest => target.targetNames ++ targetNamesAll rest

-- Those of the comprehensions in an expression. The body of a lambda is not evaluated with it.
def Expr.loopNames : Expr → List String
  | .fstring _ parts => loopNamesParts parts
  | .list _ items | .tuple _ items | .set _ items => loopNamesAll items
  | .tracked _ inner => inner.loopNames
  | .dict _ entries => loopNamesEntries entries
  | .listComp _ element clauses => element.loopNames ++ loopNamesClauses clauses
  | .dictComp _ key value clauses =>
    key.loopNames ++ (value.loopNames ++ loopNamesClauses clauses)
  | .binary _ _ left right | .boolOp _ _ left right => left.loopNames ++ right.loopNames
  | .unary _ _ operand => operand.loopNames
  | .compare _ left rest => left.loopNames ++ loopNamesComparisons rest
  | .ifElse _ condition yes no => condition.loopNames ++ (yes.loopNames ++ no.loopNames)
  | .lambda _ params _ => loopNamesParams params
  | .call _ callee args keywords =>
    callee.loopNames ++ (loopNamesAll args ++ loopNamesKeywords keywords)
  | .attr _ object _ => object.loopNames
  | .subscript _ object index => object.loopNames ++ index.loopNames
  | .slice _ lower upper step =>
    loopNamesOption lower ++ (loopNamesOption upper ++ loopNamesOption step)
  | _ => []

def loopNamesAll : List Expr → List String
  | [] => []
  | e :: rest => e.loopNames ++ loopNamesAll rest

def loopNamesOption : Option Expr → List String
  | none => []
  | some e => e.loopNames

def loopNamesEntries : List (Expr × Expr) → List String
  | [] => []
  | (key, value) :: rest => key.loopNames ++ (value.loopNames ++ loopNamesEntries rest)

def loopNamesComparisons : List (CompareOp × Expr) → List String
  | [] => []
  | (_, e) :: rest => e.loopNames ++ loopNamesComparisons rest

def loopNamesKeywords : List (String × Expr) → List String
  | [] => []
  | (_, e) :: rest => e.loopNames ++ loopNamesKeywords rest

def loopNamesParts : List FPart → List String
  | [] => []
  | .text _ :: rest => loopNamesParts rest
  | .field e _ :: rest => e.loopNames ++ loopNamesParts rest

def loopNamesParams : List Param → List String
  | [] => []
  | .mk _ value :: rest => loopNamesOption value ++ loopNamesParams rest

def loopNamesClauses : List Clause → List String
  | [] => []
  | .mk target iter conditions :: rest =>
    iter.loopNames ++ (target.targetNames ++ (loopNamesAll conditions ++ loopNamesClauses rest))

end

/-! ### Computations in lockstep -/

-- Whether the list displays of the second program may be marked, whether its run may have more
-- fuel, whether the programs may declare names global, and whether statements may run.
structure Leeway where
  marks : Bool
  fuel : Bool
  globals : Bool
  statements : Bool

-- The amounts of fuel of two runs.
inductive Leeway.Fuels (d : Leeway) : Nat → Nat → Prop
  | spent : Fuels d 0 0
  | starved (h : d.fuel = true) (n : Nat) : Fuels d 0 n
  | more {n k : Nat} (h : Fuels d n k) : Fuels d (n + 1) (k + 1)

namespace Leeway.Fuels

variable {d : Leeway}

theorem refl (n : Nat) : d.Fuels n n := by
  induction n with
  | zero => exact .spent
  | succ n ih => exact .more ih

theorem ofLe (h : d.fuel = true) {n k : Nat} (le : n ≤ k) : d.Fuels n k := by
  induction n generalizing k with
  | zero => exact .starved h k
  | succ n ih =>
    obtain ⟨k, rfl⟩ : ∃ j, k = j + 1 := ⟨k - 1, by omega⟩
    exact .more (ih (by omega))

end Leeway.Fuels

-- What may be done to the names of the current frame. An expression binds none but those of its
-- `for` clauses, in the frames of its comprehensions; `own` says whether the current frame is one of
-- these. The names that the frame has declared global are among `kept`, and those are not bound.
inductive Rights
  | all
  | loops (own : Bool) (kept : List String)

namespace Rights

def Binds : Rights → String → Prop
  | all, _ => True
  | loops own kept, name => own = true ∧ name ∉ kept

-- The `for` clauses bind only names that they may bind.
def Covers : Rights → List String → Prop
  | all, _ => True
  | loops _ kept, names => ∀ name ∈ names, name ∉ kept

def Knows : Rights → Frame → Prop
  | all, _ => True
  | loops _ kept, f => ∀ name ∈ f.globals, name ∈ kept

-- What may be done in the frame of a comprehension that is entered.
def inLoop : Rights → Rights
  | all => all
  | loops _ kept => loops true kept

variable {p : Rights} {names names' : List String}

theorem covers_append : p.Covers (names ++ names') ↔ p.Covers names ∧ p.Covers names' := by
  cases p with
  | all => exact (and_self_iff ..).symm
  | loops => exact List.forall_mem_append

theorem Covers.inLoop (h : p.Covers names) : p.inLoop.Covers names := by
  cases p <;> exact h

theorem Covers.binds (h : p.Covers names) : ∀ name ∈ names, p.inLoop.Binds name := by
  cases p with
  | all => exact fun _ _ => trivial
  | loops => exact fun name mem => ⟨rfl, h name mem⟩

-- In a frame where names may be bound no others need to be covered.
theorem covers_of_binds (h : ∀ name ∈ names, p.Binds name) : p.Covers names := by
  cases p with
  | all => trivial
  | loops => exact fun name mem => (h name mem).2

theorem Knows.of_globals {f g : Frame} (h : p.Knows f) (globals : g.globals = f.globals) :
    p.inLoop.Knows g := by
  cases p with
  | all => trivial
  | loops =>
    intro name mem
    rw [globals] at mem
    exact h name mem

theorem knows_of_empty {f : Frame} (h : f.globals = []) : p.Knows f := by
  cases p with
  | all => trivial
  | loops =>
    intro name mem
    rw [h] at mem
    cases mem

end Rights

-- Operations that record no step.
inductive Operation (d : Leeway) (p : Rights) :
    {α : Type} → (α → α → Prop) → Run α → Run α → Prop
  | fault {α : Type} {A : α → α → Prop} (f : Fault) : Operation d p A (Run.fault f) (Run.fault f)
  | faultAtLine {α : Type} {A : α → α → Prop} (f : Nat → Fault) :
    Operation d p A (fun m => .error (.fault (f m.lastLine)) m)
      (fun m => .error (.fault (f m.lastLine)) m)
  | outOfFuel {α : Type} {A : α → α → Prop} : Operation d p A Run.outOfFuel Run.outOfFuel
  | heap :
    Operation d p (fun h h' => h.Alike d.marks h' ∧ h.MayDeclare d.globals) Run.heap Run.heap
  | frame :
    Operation d p (fun f f' => f = f' ∧ f.hasGlobal ≤ d.globals ∧ p.Knows f) Run.frame Run.frame
  | enclosingScope : Operation d p Eq Run.enclosingScope Run.enclosingScope
  | alloc {o o' : Object} (h : o.Alike d.marks o') (code : o.hasGlobal ≤ d.globals) :
    Operation d p Eq (Run.alloc o) (Run.alloc o')
  | allocTracked (items : Array Value) :
    Operation d p Eq (Run.allocTracked items) (Run.allocTracked items)
  | allocMarked (h : d.marks = true) (items : Array Value) :
    Operation d p Eq (Run.allocList items) (Run.allocTracked items)
  | change (id : ObjId) {f g : Object → Object}
    (h : ∀ o o', o.Alike d.marks o' → (f o).Alike d.marks (g o'))
    (code : ∀ o, (f o).hasGlobal = o.hasGlobal) :
    Operation d p Eq (Run.change id f) (Run.change id g)
  | lookup (name : String) : Operation d p Eq (Run.lookup name) (Run.lookup name)
  | store (name : String) (v : Value) (binds : p.Binds name) :
    Operation d p Eq (Run.store name v) (Run.store name v)
  | delete (name : String) (all : p = .all) : Operation d p Eq (Run.delete name) (Run.delete name)
  | declareGlobal (h : d.globals = true) (names : List String) (all : p = .all) :
    Operation d p Eq (Run.declareGlobal names) (Run.declareGlobal names)
  | newScope (vars : Namespace) (parent : Option ScopeId) :
    Operation d p Eq (Run.newScope vars parent) (Run.newScope vars parent)
  | varsOf (id : ScopeId) : Operation d p Eq (Run.varsOf id) (Run.varsOf id)
  | checkDepth : Operation d p Eq Run.checkDepth Run.checkDepth
  | print (text : String) : Operation d p Eq (Run.print text) (Run.print text)
  | nextInput : Operation d p Eq Run.nextInput Run.nextInput
  | readElement (id : ObjId) {l l' : ListObject} (h : (Object.list l).Alike d.marks (.list l'))
    (i : Int64) :
    Operation d p Eq (Primitive.readElement id l i).run (Primitive.readElement id l' i).run
  | writeElement (id : ObjId) {l l' : ListObject} (h : (Object.list l).Alike d.marks (.list l'))
    (i : Int64) (v : Value) :
    Operation d p Eq (Primitive.writeElement id l i v).run (Primitive.writeElement id l' i v).run
  | imported? (name : String) : Operation d p Eq (Run.imported? name) (Run.imported? name)
  | remember (name : String) (v : Value) :
    Operation d p Eq (Run.remember name v) (Run.remember name v)

-- A body in a frame that has a new scope.
def Run.inScope {α : Type} (vars : Namespace) (parent : Option ScopeId) (frame : ScopeId → Frame)
    (body : ScopeId → Run α) : Run α := do
  let id ← newScope vars parent
  inFrame (frame id) (body id)

-- What follows may use the scope.
theorem Run.inScope_bind {α β : Type} (vars : Namespace) (parent : Option ScopeId)
    (frame : ScopeId → Frame) (body : Run α) (f : ScopeId → α → Run β) :
    (do
      let id ← newScope vars parent
      let a ← inFrame (frame id) body
      f id a) =
      (do
        let (id, a) ← inScope vars parent frame fun id => (id, ·) <$> body
        f id a) := by
  funext m
  have made : newScope vars parent m = _ := rfl
  rw [bind_ok made]
  unfold inScope
  rw [bind_assoc, bind_ok made, inFrame_map, map_eq_pure_bind, bind_assoc]
  simp only [pure_bind]

inductive Run.IsBody : {α : Type} → Run α → Prop
  | of (n : Nat) (f : FunctionObject) : IsBody ((interp n).runBody f)

-- A body in a new frame has the rights of what is around it. That of a function has all.
inductive Rights.Gives (d : Leeway) (p : Rights) {α : Type} (x : ScopeId → Run α) : Rights → Prop
  | within : Gives d p x p.inLoop
  | called (h : d.statements = true) (body : ∀ id, (x id).IsBody) : Gives d p x .all

theorem Rights.Gives.all {d : Leeway} {p q : Rights} {α : Type} {x : ScopeId → Run α}
    (gives : p.Gives d x q) (all : p = .all) : q = .all := by
  subst all
  cases gives <;> rfl

inductive Lockstep (d : Leeway) :
    (p : Rights) → {α : Type} → (α → α → Prop) → Run α → Run α → Prop
  | op {p : Rights} {α : Type} {A : α → α → Prop} {x y : Run α} (h : Operation d p A x y) :
    Lockstep d p A x y
  | boundary {p : Rights} (line : Nat) (h : d.statements = true) :
    Lockstep d p Eq (Run.boundary line) (Run.boundary line)
  | pure {p : Rights} {α : Type} {A : α → α → Prop} {a b : α} (h : A a b) :
    Lockstep d p A (pure a) (pure b)
  | bind {p : Rights} {α β : Type} {A : α → α → Prop} {B : β → β → Prop} {x y : Run α}
    {f g : α → Run β} (hx : Lockstep d p A x y) (hf : ∀ a b, A a b → Lockstep d p B (f a) (g b)) :
    Lockstep d p B (x >>= f) (y >>= g)
  -- The first run has no fuel left where the second one goes on.
  | starved {p : Rights} {α : Type} {A : α → α → Prop} (h : d.fuel = true) (y : Run α) :
    Lockstep d p A Run.outOfFuel y
  -- Every frame has a scope of its own.
  | inScope {p q : Rights} {α : Type} {A : α → α → Prop} (vars : Namespace)
    (parent : Option ScopeId) {frame : ScopeId → Frame} (own : ∀ id, (frame id).scope = id)
    (code : ∀ id, (frame id).hasGlobal ≤ d.globals) (known : ∀ id, q.Knows (frame id))
    {x y : ScopeId → Run α} (gives : p.Gives d x q) (h : ∀ id, Lockstep d q A (x id) (y id)) :
    Lockstep d p A (Run.inScope vars parent frame x) (Run.inScope vars parent frame y)
  | deeper {p : Rights} {α : Type} {A : α → α → Prop} {x y : Run α} (h : Lockstep d p A x y) :
    Lockstep d p A (Run.deeper x) (Run.deeper y)
  | rearrange {p : Rights} {α : Type} (id : ObjId) {x y : Array Value → Run (Array Value × α)}
    (h : ∀ items, Lockstep d p Eq (x items) (y items)) :
    Lockstep d p Eq (Run.rearrange id x) (Run.rearrange id y)

-- A computation that does not look at what the two runs may differ in.
abbrev Run.Steady {α : Type} (d : Leeway) (p : Rights) (x : Run α) : Prop := Lockstep d p Eq x x

namespace Lockstep

variable {d : Leeway} {p : Rights} {α β : Type} {A : α → α → Prop} {B : β → β → Prop}

theorem ret (a : α) : Lockstep d p Eq (Pure.pure a) (Pure.pure a) := .pure rfl

theorem seq {x y : Run α} {f g : α → Run β} (hx : Lockstep d p Eq x y)
    (hf : ∀ a, Lockstep d p B (f a) (g a)) : Lockstep d p B (x >>= f) (y >>= g) := by
  refine .bind hx ?_
  rintro a _ rfl
  exact hf a

theorem map {x y : Run α} (f : α → β) (hx : Lockstep d p Eq x y) :
    Lockstep d p Eq (f <$> x) (f <$> y) :=
  hx.seq fun a => .ret (f a)

theorem ite {c : Prop} [Decidable c] {x x' y y' : Run α} (hx : c → Lockstep d p A x y)
    (hy : ¬ c → Lockstep d p A x' y') :
    Lockstep d p A (if c then x else x') (if c then y else y') := by
  split
  · next h => exact hx h
  · next h => exact hy h

theorem fault (f : Fault) : Lockstep d p A (Run.fault f) (Run.fault f) := .op (.fault f)

-- Nothing runs after an error, whatever it would have been.
theorem raise (f : Fault) {x y : α → Run β} :
    Lockstep d p B (Run.fault f >>= x) (Run.fault f >>= y) :=
  .bind (A := fun _ _ => False) (.op (.fault f)) fun _ _ never => never.elim

theorem onCode {f g : Heap → Run β}
    (hf : ∀ h h', h.Alike d.marks h' → h.MayDeclare d.globals → Lockstep d p B (f h) (g h')) :
    Lockstep d p B (Run.heap >>= f) (Run.heap >>= g) :=
  .bind (.op .heap) fun h h' seen => hf h h' seen.1 seen.2

theorem onHeap {f g : Heap → Run β}
    (hf : ∀ h h', h.Alike d.marks h' → Lockstep d p B (f h) (g h')) :
    Lockstep d p B (Run.heap >>= f) (Run.heap >>= g) :=
  .onCode fun h h' H _ => hf h h' H

-- What is computed from heaps that are alike is the same.
theorem query {f : Heap → α} (hf : ∀ h h', h.Alike d.marks h' → f h' = f h) :
    Lockstep d p Eq (do return f (← Run.heap)) (do return f (← Run.heap)) :=
  onHeap fun _ _ H => .pure (hf _ _ H).symm

theorem check {e e' : Except Fault α} (h : e' = e) :
    Lockstep d p Eq (Run.check e) (Run.check e') := by
  rw [h]
  cases e with
  | ok a => exact .ret a
  | error f => exact .fault f

theorem checkTo {P : α → Prop} {e e' : Except Fault α} (h : e' = e) (he : ∀ a, e = .ok a → P a) :
    Lockstep d p (fun a b => a = b ∧ P a) (Run.check e) (Run.check e') := by
  rw [h]
  cases e with
  | ok a => exact .pure ⟨rfl, he a rfl⟩
  | error f => exact .fault f

theorem faultOn {f : Heap → Fault} (hf : ∀ h h', h.Alike d.marks h' → f h' = f h) :
    Lockstep d p A (Run.faultOn f) (Run.faultOn f) := by
  refine onHeap fun _ _ H => ?_
  rw [hf _ _ H]
  exact .fault _

-- Objects other than functions have no code.
theorem alloc {o : Object} (code : o.hasGlobal = false) :
    Lockstep d p Eq (Run.alloc o) (Run.alloc o) :=
  .op (.alloc (.same o) (by simp [code]))

theorem settle {o : Outcome} (code : o.hasGlobal = false) :
    Lockstep d p Eq (Run.settle o) (Run.settle o) := by
  cases o with
  | value v => exact .ret v
  | object o => exact .alloc code

theorem deref? (v : Value) :
    Lockstep d p (Option.Rel (Object.Alike d.marks)) (Run.deref? v) (Run.deref? v) :=
  onHeap fun _ _ H => .pure (H.deref? v)

-- What follows a look at an object, where it does not look at marks.
theorem onObject (v : Value) {f g : Option Object → Run β}
    (hl : ∀ items id, g (some (.list ⟨items, some id⟩)) = g (some (.list ⟨items, none⟩)))
    (hk : ∀ (k : FunctionObject) body,
      g (some (.function { k with body := body })) = g (some (.function k)))
    (hf : ∀ o, Lockstep d p B (f o) (g o)) :
    Lockstep d p B (Run.deref? v >>= f) (Run.deref? v >>= g) := by
  refine .bind (.deref? v) fun _ _ related => ?_
  cases related with
  | none => exact hf none
  | @some o _ ho =>
    cases ho with
    | same => exact hf (some o)
    | list items id => exact hl items id ▸ hf (some (.list ⟨items, none⟩))
    | function k => exact hk k _ ▸ hf (some (.function k))

theorem keyOf (v : Value) : Lockstep d p Eq (Run.keyOf v) (Run.keyOf v) :=
  onHeap fun _ _ H => .check (H.key v)

end Lockstep

-- Two interpreters whose parts go in step.
structure Interp.InStep (d : Leeway) (r r' : Interp) : Prop where
  eval : ∀ {p : Rights}, ∀ t ≤ d.marks, ∀ e : Expr, p.Covers e.loopNames →
    Lockstep d p Eq (r.eval e) (r'.eval (e.marked t))
  block : d.statements = true → ∀ t ≤ d.marks, ∀ body, anyGlobal body ≤ d.globals →
    Lockstep d .all Eq (r.block body) (r'.block (markIf t trackBlock body))
  call : ∀ {p : Rights} f args keywords,
    Lockstep d p Eq (r.call f args keywords) (r'.call f args keywords)
  iterate : ∀ {p : Rights} v, Lockstep d p Eq (r.iterate v) (r'.iterate v)
  fuel : d.Fuels r.fuel r'.fuel

end StepTrace
