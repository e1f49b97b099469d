import StepTrace.ListTracking

/-!
The places of expressions in programs. What an expression is there for decides how it is treated:
it is evaluated, or something is assigned to it, or it is the display that a mark is about. A node
with its parts changed is the same node at the same place.
-/

set_option autoImplicit false

namespace StepTrace

/-- What an expression is there for. -/
inductive Role
  | value
  | target
  | marked
deriving DecidableEq

-- The items of a pattern are targets again.
def Role.item : Role → Role
  | target => target
  | value | marked => value

def FPart.parts : FPart → List (Role × Expr)
  | .text _ => []
  | .field e _ => [(.value, e)]

def Clause.parts : Clause → List (Role × Expr)
  | .mk target iter conditions =>
    (.target, target) :: (.value, iter) :: conditions.map (Role.value, ·)

def Param.parts : Param → List (Role × Expr)
  | .mk _ default => default.toList.map (Role.value, ·)

/-- The parts of an expression with what they are there for. -/
def Expr.parts (role : Role) : Expr → List (Role × Expr)
  | .none .. | .bool .. | .int .. | .float .. | .str .. | .name .. => []
  | .fstring _ pieces => pieces.flatMap FPart.parts
  | .list _ items | .tuple _ items => items.map (role.item, ·)
  | .tracked _ e => [(.marked, e)]
  | .dict _ entries => entries.flatMap fun (k, v) => [(.value, k), (.value, v)]
  | .set _ items => items.map (Role.value, ·)
  | .listComp _ e clauses => (.value, e) :: clauses.flatMap Clause.parts
  | .dictComp _ k v clauses => (.value, k) :: (.value, v) :: clauses.flatMap Clause.parts
  | .binary _ _ a b | .boolOp _ _ a b | .subscript _ a b => [(.value, a), (.value, b)]
  | .unary _ _ a | .attr _ a _ => [(.value, a)]
  | .compare _ a rest => (.value, a) :: rest.map fun (_, e) => (.value, e)
  | .ifElse _ c a b => [(.value, c), (.value, a), (.value, b)]
  | .lambda _ params body => (.value, body) :: params.flatMap Param.parts
  | .call _ f args keywords =>
    (.value, f) :: (args.map (Role.value, ·) ++ keywords.map fun (_, e) => (.value, e))
  | .slice _ a b c => (a.toList ++ (b.toList ++ c.toList)).map (Role.value, ·)

/-- The parts of a statement that are expressions. -/
def Stmt.parts : Stmt → List (Role × Expr)
  | .expr _ e => [(.value, e)]
  | .assign _ targets e => (.value, e) :: targets.map (Role.target, ·)
  | .augAssign _ _ target e | .for _ target e _ => [(.target, target), (.value, e)]
  | .ifElse _ c _ _ | .while _ c _ => [(.value, c)]
  | .return _ e | .raise _ e | .class _ _ e _ => e.toList.map (Role.value, ·)
  | .function _ _ params _ => params.flatMap Param.parts
  | .assert _ c message => (c :: message.toList).map (Role.value, ·)
  | .delete _ targets => targets.map (Role.target, ·)
  | .break .. | .continue .. | .pass .. | .global .. | .importModule .. | .importFrom .. => []

/-- The statements in the blocks of a statement. -/
def Stmt.inner : Stmt → Program
  | .ifElse _ _ body orelse => body ++ orelse
  | .while _ _ body | .for _ _ _ body | .function _ _ _ body | .class _ _ _ body => body
  | .expr .. | .assign .. | .augAssign .. | .break .. | .continue .. | .pass .. | .return ..
  | .global .. | .raise .. | .assert .. | .delete .. | .importModule .. | .importFrom .. => []

/-- What occurs in an expression, at any depth, and what it is there for. -/
inductive Expr.Has (role : Role) (root : Expr) : Role → Expr → Prop
  | root : Has role root role root
  | part {r r' : Role} {e e' : Expr} (outer : Has role root r e) (here : (r', e') ∈ e.parts r) :
    Has role root r' e'

/-- What occurs in a program, at any depth, and what it is there for. -/
inductive Program.Has : Program → Role → Expr → Prop
  | expr {p : Program} {s : Stmt} {part : Role × Expr} {r : Role} {e : Expr} (here : s ∈ p)
    (isPart : part ∈ s.parts) (inside : part.2.Has part.1 r e) : Has p r e
  | block {p : Program} {s : Stmt} {r : Role} {e : Expr} (here : s ∈ p)
    (inside : Has s.inner r e) : Has p r e

/-! ### Nodes with other parts -/

variable {f g : Role → Expr → Expr} {role : Role}

def FPart.mapParts (f : Role → Expr → Expr) : FPart → FPart
  | .text s => .text s
  | .field e spec => .field (f .value e) spec

def Clause.mapParts (f : Role → Expr → Expr) : Clause → Clause
  | .mk target iter conditions =>
    .mk (f .target target) (f .value iter) (conditions.map (f .value))

def Param.mapParts (f : Role → Expr → Expr) : Param → Param
  | .mk name default => .mk name (default.map (f .value))

def Expr.mapParts (f : Role → Expr → Expr) (role : Role) : Expr → Expr
  | .none l => .none l
  | .bool l b => .bool l b
  | .int l i => .int l i
  | .float l x => .float l x
  | .str l s => .str l s
  | .name l x => .name l x
  | .fstring l pieces => .fstring l (pieces.map (FPart.mapParts f))
  | .list l items => .list l (items.map (f role.item))
  | .tuple l items => .tuple l (items.map (f role.item))
  | .tracked l e => .tracked l (f .marked e)
  | .dict l entries => .dict l (entries.map (Prod.map (f .value) (f .value)))
  | .set l items => .set l (items.map (f .value))
  | .listComp l e clauses => .listComp l (f .value e) (clauses.map (Clause.mapParts f))
  | .dictComp l k v clauses =>
    .dictComp l (f .value k) (f .value v) (clauses.map (Clause.mapParts f))
  | .binary l op a b => .binary l op (f .value a) (f .value b)
  | .unary l op a => .unary l op (f .value a)
  | .boolOp l op a b => .boolOp l op (f .value a) (f .value b)
  | .compare l a rest => .compare l (f .value a) (rest.map (Prod.map id (f .value)))
  | .ifElse l c a b => .ifElse l (f .value c) (f .value a) (f .value b)
  | .lambda l params body => .lambda l (params.map (Param.mapParts f)) (f .value body)
  | .call l callee args keywords =>
    .call l (f .value callee) (args.map (f .value)) (keywords.map (Prod.map id (f .value)))
  | .attr l a field => .attr l (f .value a) field
  | .subscript l a b => .subscript l (f .value a) (f .value b)
  | .slice l a b c => .slice l (a.map (f .value)) (b.map (f .value)) (c.map (f .value))

namespace FPart

theorem parts_mapParts (p : FPart) :
    (p.mapParts f).parts = p.parts.map fun part => (part.1, f part.1 part.2) := by
  cases p <;> rfl

theorem mapParts_mapParts (p : FPart) :
    (p.mapParts f).mapParts g = p.mapParts fun r e => g r (f r e) := by
  cases p <;> rfl

theorem mapParts_congr {p : FPart} (same : ∀ part ∈ p.parts, f part.1 part.2 = g part.1 part.2) :
    p.mapParts f = p.mapParts g := by
  cases p <;> simp_all [mapParts, parts]

theorem mapParts_id (p : FPart) : p.mapParts (fun _ e => e) = p := by
  cases p <;> rfl

theorem sizeOf_part {p : FPart} {part : Role × Expr} (here : part ∈ p.parts) :
    sizeOf part.2 < sizeOf p := by
  cases p <;> simp_all [parts]
  omega

end FPart

namespace Clause

theorem parts_mapParts (c : Clause) :
    (c.mapParts f).parts = c.parts.map fun part => (part.1, f part.1 part.2) := by
  cases c
  simp [mapParts, parts]

theorem mapParts_mapParts (c : Clause) :
    (c.mapParts f).mapParts g = c.mapParts fun r e => g r (f r e) := by
  cases c
  simp [mapParts]

theorem mapParts_congr {c : Clause} (same : ∀ part ∈ c.parts, f part.1 part.2 = g part.1 part.2) :
    c.mapParts f = c.mapParts g := by
  cases c
  simp_all [mapParts, parts]

theorem mapParts_id (c : Clause) : c.mapParts (fun _ e => e) = c := by
  cases c
  simp [mapParts]

theorem sizeOf_part {c : Clause} {part : Role × Expr} (here : part ∈ c.parts) :
    sizeOf part.2 < sizeOf c := by
  cases c
  simp [parts] at here ⊢
  rcases here with rfl | rfl | ⟨e, here, rfl⟩
  · simp; omega
  · simp; omega
  · have := List.sizeOf_lt_of_mem here
    simp; omega

end Clause

namespace Param

theorem parts_mapParts (p : Param) :
    (p.mapParts f).parts = p.parts.map fun part => (part.1, f part.1 part.2) := by
  obtain ⟨name, _ | default⟩ := p <;> rfl

theorem mapParts_mapParts (p : Param) :
    (p.mapParts f).mapParts g = p.mapParts fun r e => g r (f r e) := by
  obtain ⟨name, _ | default⟩ := p <;> rfl

theorem mapParts_congr {p : Param} (same : ∀ part ∈ p.parts, f part.1 part.2 = g part.1 part.2) :
    p.mapParts f = p.mapParts g := by
  obtain ⟨name, _ | default⟩ := p <;> simp_all [mapParts, parts]

theorem mapParts_id (p : Param) : p.mapParts (fun _ e => e) = p := by
  obtain ⟨name, _ | default⟩ := p <;> rfl

theorem sizeOf_part {p : Param} {part : Role × Expr} (here : part ∈ p.parts) :
    sizeOf part.2 < sizeOf p := by
  obtain ⟨name, _ | default⟩ := p
  · cases here
  · cases List.mem_singleton.1 here
    simp
    omega

end Param

namespace Expr

attribute [local simp] parts mapParts

-- The parts of a changed node are the changed parts.
theorem parts_mapParts (e : Expr) :
    (e.mapParts f role).parts role = (e.parts role).map fun part => (part.1, f part.1 part.2) := by
  cases e with
  | slice l a b c => cases a <;> cases b <;> cases c <;> rfl
  | _ => simp [List.flatMap_map, List.map_flatMap, Function.comp_def,
      FPart.parts_mapParts, Clause.parts_mapParts, Param.parts_mapParts]

theorem mapParts_mapParts (e : Expr) : (e.mapParts f role).mapParts g role =
    e.mapParts (fun r e => g r (f r e)) role := by
  cases e <;> simp [Function.comp_def, FPart.mapParts_mapParts, Clause.mapParts_mapParts,
    Param.mapParts_mapParts]

theorem mapParts_id (e : Expr) : e.mapParts (fun _ e => e) role = e := by
  have all {α : Type} {h : α → α} (same : ∀ a, h a = a) (as : List α) : as.map h = as := by
    rw [List.map_congr_left fun a _ => same a]
    exact List.map_id' as
  cases e <;> simp [all FPart.mapParts_id, all Clause.mapParts_id, all Param.mapParts_id]
  all_goals exact List.map_id _

theorem mapParts_congr {e : Expr}
    (same : ∀ part ∈ e.parts role, f part.1 part.2 = g part.1 part.2) :
    e.mapParts f role = e.mapParts g role := by
  cases e with
  | slice l a b c => cases a <;> cases b <;> cases c <;> simp_all
  | _ => simp_all <;> grind [FPart.mapParts_congr, Clause.mapParts_congr, Param.mapParts_congr]

theorem sizeOf_part {e : Expr} {part : Role × Expr} (here : part ∈ e.parts role) :
    sizeOf part.2 < sizeOf e := by
  cases e <;> simp at here ⊢ <;>
    grind [→ FPart.sizeOf_part, → Clause.sizeOf_part, → Param.sizeOf_part, → List.sizeOf_lt_of_mem]

-- What holds of a node if it holds of its parts holds of all.
theorem induct {P : Expr → Prop}
    (step : ∀ e, (∀ role, ∀ part ∈ e.parts role, P part.2) → P e) (e : Expr) : P e :=
  step e fun _ part here =>
    have := sizeOf_part here
    induct step part.2
termination_by sizeOf e

end Expr

/-! ### Statements with other parts -/

namespace Stmt

variable {b c : Stmt → Stmt}

-- A statement with its expressions changed by `f`, and the statements in its blocks by `b`.
def mapParts (f : Role → Expr → Expr) (b : Stmt → Stmt) : Stmt → Stmt
  | .expr l e => .expr l (f .value e)
  | .assign l targets e => .assign l (targets.map (f .target)) (f .value e)
  | .augAssign l op target e => .augAssign l op (f .target target) (f .value e)
  | .ifElse l c body orelse => .ifElse l (f .value c) (body.map b) (orelse.map b)
  | .while l c body => .while l (f .value c) (body.map b)
  | .for l target iter body => .for l (f .target target) (f .value iter) (body.map b)
  | .break l => .break l
  | .continue l => .continue l
  | .pass l => .pass l
  | .return l e => .return l (e.map (f .value))
  | .function l name params body => .function l name (params.map (Param.mapParts f)) (body.map b)
  | .class l name base body => .class l name (base.map (f .value)) (body.map b)
  | .global l names => .global l names
  | .raise l e => .raise l (e.map (f .value))
  | .assert l c message => .assert l (f .value c) (message.map (f .value))
  | .delete l targets => .delete l (targets.map (f .target))
  | .importModule l m => .importModule l m
  | .importFrom l m names => .importFrom l m names

attribute [local simp] parts mapParts

theorem parts_mapParts (s : Stmt) :
    (s.mapParts f b).parts = s.parts.map fun part => (part.1, f part.1 part.2) := by
  cases s with
  | «return» l e => cases e <;> rfl
  | raise l e => cases e <;> rfl
  | «class» l name e body => cases e <;> rfl
  | assert l c e => cases e <;> rfl
  | _ => simp [List.flatMap_map, List.map_flatMap, Param.parts_mapParts]

theorem inner_mapParts (s : Stmt) : (s.mapParts f b).inner = s.inner.map b := by
  cases s <;> simp [inner]

theorem mapParts_mapParts (s : Stmt) : (s.mapParts f b).mapParts g c =
    s.mapParts (fun r e => g r (f r e)) (fun s => c (b s)) := by
  cases s <;> simp [Function.comp_def, Param.mapParts_mapParts]

theorem mapParts_id (s : Stmt) : s.mapParts (fun _ e => e) (fun s => s) = s := by
  have params (ps : List Param) : ps.map (Param.mapParts fun _ e => e) = ps := by
    rw [List.map_congr_left fun p _ => p.mapParts_id]
    exact List.map_id' ps
  cases s <;> simp [params]

theorem mapParts_congr {s : Stmt} (same : ∀ part ∈ s.parts, f part.1 part.2 = g part.1 part.2)
    (below : ∀ s' ∈ s.inner, b s' = c s') : s.mapParts f b = s.mapParts g c := by
  cases s with
  | «return» l e => cases e <;> simp_all
  | raise l e => cases e <;> simp_all
  | «class» l name e body => cases e <;> simp_all [inner]
  | assert l c e => cases e <;> simp_all
  | _ => simp_all [inner] <;> grind [Param.mapParts_congr]

theorem sizeOf_inner {s s' : Stmt} (here : s' ∈ s.inner) : sizeOf s' < sizeOf s := by
  cases s <;> simp [inner] at here ⊢ <;> grind [→ List.sizeOf_lt_of_mem]

theorem induct {P : Stmt → Prop} (step : ∀ s, (∀ s' ∈ s.inner, P s') → P s) (s : Stmt) : P s :=
  step s fun s' here =>
    have := sizeOf_inner here
    induct step s'
termination_by sizeOf s

end Stmt

/-! ### What occurs -/

section

variable {r r' : Role} {e root : Expr} {piece : Role × Expr} {p q : Program} {s : Stmt}

theorem Expr.Has.of_part (here : piece ∈ root.parts role) (inside : piece.2.Has piece.1 r e) :
    root.Has role r e := by
  induction inside with
  | root => exact .part .root here
  | part _ inner ih => exact .part ih inner

theorem Expr.Has.cases_part (h : root.Has role r e) :
    role = r ∧ root = e ∨ ∃ part ∈ root.parts role, part.2.Has part.1 r e := by
  induction h with
  | root => exact .inl ⟨rfl, rfl⟩
  | part outer here ih =>
    right
    rcases ih with ⟨rfl, rfl⟩ | ⟨part, first, inside⟩
    · exact ⟨_, here, .root⟩
    · exact ⟨part, first, .part inside here⟩

theorem Program.Has.mono (h : p.Has r e) (more : ∀ s ∈ p, s ∈ q) : q.Has r e := by
  cases h with
  | expr here isPart inside => exact .expr (more _ here) isPart inside
  | block here inside => exact .block (more _ here) inside

/-! ### As programs are written -/

def Expr.isTracked : Expr → Bool
  | .tracked .. => true
  | _ => false

-- What may be written at a place.
def Expr.Fits : Role → Expr → Prop
  | .value, e => e.isTracked = false
  | .target, e => e.isAssignable = true
  | .marked, _ => False

def Expr.Written (role : Role) (root : Expr) : Prop := ∀ r e, root.Has role r e → e.Fits r

def PartsWritten (parts : List (Role × Expr)) : Prop := ∀ part ∈ parts, part.2.Written part.1

def Program.Written (p : Program) : Prop := ∀ r e, p.Has r e → e.Fits r

theorem Expr.Fits.unmarked (h : e.Fits r) : e.isTracked = false := by
  cases r with
  | value => exact h
  | target => cases e <;> first | rfl | cases h
  | marked => cases h

namespace Expr.Written

theorem fits (h : root.Written role) : root.Fits role := h role root .root

theorem part (h : root.Written role) (here : piece ∈ root.parts role) : piece.2.Written piece.1 :=
  fun r e inside => h r e (.of_part here inside)

theorem node (fits : root.Fits role) (parts : PartsWritten (root.parts role)) :
    root.Written role := by
  intro r e inside
  rcases inside.cases_part with ⟨rfl, rfl⟩ | ⟨part, here, inside⟩
  · exact fits
  · exact parts part here r e inside

theorem placed (h : root.Written role) : role ≠ .marked := by
  rintro rfl
  exact h.fits

theorem unmarked (h : root.Written role) : root.isTracked = false := h.fits.unmarked

end Expr.Written

namespace Program.Written

theorem parts (h : p.Written) (here : s ∈ p) : PartsWritten s.parts :=
  fun _ isPart r e inside => h r e (.expr here isPart inside)

theorem inner (h : p.Written) (here : s ∈ p) : s.inner.Written :=
  fun r e inside => h r e (.block here inside)

theorem of (h : ∀ s ∈ p, PartsWritten s.parts ∧ s.inner.Written) : p.Written := by
  intro r e inside
  cases inside with
  | expr here isPart inside => exact (h _ here).1 _ isPart r e inside
  | block here inside => exact (h _ here).2 r e inside

end Program.Written

end

namespace PartsWritten

variable {role : Role} {parts rest : List (Role × Expr)}

theorem nil : PartsWritten [] := nofun

theorem cons {e : Expr} (h : e.Written role) (hrest : PartsWritten rest) :
    PartsWritten ((role, e) :: rest) :=
  List.forall_mem_cons.2 ⟨h, hrest⟩

theorem append (h : PartsWritten parts) (hrest : PartsWritten rest) :
    PartsWritten (parts ++ rest) :=
  List.forall_mem_append.2 ⟨h, hrest⟩

theorem map {α : Type} {exprOf : α → Expr} {as : List α} (h : ∀ a ∈ as, (exprOf a).Written role) :
    PartsWritten (as.map fun a => (role, exprOf a)) := by
  intro part here
  obtain ⟨a, inside, rfl⟩ := List.mem_map.1 here
  exact h a inside

theorem flatMap {α : Type} {partsOf : α → List (Role × Expr)} {as : List α}
    (h : ∀ a ∈ as, PartsWritten (partsOf a)) : PartsWritten (as.flatMap partsOf) := by
  intro part here
  obtain ⟨a, inside, here⟩ := List.mem_flatMap.1 here
  exact h a inside part here

end PartsWritten

end StepTrace
