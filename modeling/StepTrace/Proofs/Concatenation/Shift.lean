import StepTrace.Grammar.Expression

/-!
Programs further down in a text: all lines count from a later one, and nothing else changes.
-/

set_option autoImplicit false

namespace StepTrace

def Location.shift (n : Nat) (l : Location) : Location := { l with line := l.line + n }

def Token.shift (n : Nat) (t : Token) : Token := { t with loc := t.loc.shift n }

mutual

def Expr.shift (n : Nat) : Expr → Expr
  | .none l => .none (l.shift n)
  | .bool l b => .bool (l.shift n) b
  | .int l i => .int (l.shift n) i
  | .float l f => .float (l.shift n) f
  | .str l s => .str (l.shift n) s
  | .fstring l parts => .fstring (l.shift n) (shiftParts n parts)
  | .name l x => .name (l.shift n) x
  | .list l items => .list (l.shift n) (shiftAll n items)
  | .tracked l e => .tracked (l.shift n) (e.shift n)
  | .tuple l items => .tuple (l.shift n) (shiftAll n items)
  | .dict l entries => .dict (l.shift n) (shiftEntries n entries)
  | .set l items => .set (l.shift n) (shiftAll n items)
  | .listComp l e clauses => .listComp (l.shift n) (e.shift n) (shiftClauses n clauses)
  | .dictComp l k v clauses =>
    .dictComp (l.shift n) (k.shift n) (v.shift n) (shiftClauses n clauses)
  | .binary l op a b => .binary (l.shift n) op (a.shift n) (b.shift n)
  | .unary l op a => .unary (l.shift n) op (a.shift n)
  | .boolOp l op a b => .boolOp (l.shift n) op (a.shift n) (b.shift n)
  | .compare l a rest => .compare (l.shift n) (a.shift n) (shiftComparisons n rest)
  | .ifElse l c a b => .ifElse (l.shift n) (c.shift n) (a.shift n) (b.shift n)
  | .lambda l params body => .lambda (l.shift n) (shiftParams n params) (body.shift n)
  | .call l f args keywords =>
    .call (l.shift n) (f.shift n) (shiftAll n args) (shiftKeywords n keywords)
  | .attr l o field => .attr (l.shift n) (o.shift n) field
  | .subscript l o i => .subscript (l.shift n) (o.shift n) (i.shift n)
  | .slice l a b c => .slice (l.shift n) (shiftOption n a) (shiftOption n b) (shiftOption n c)

def shiftAll (n : Nat) : List Expr → List Expr
  | [] => []
  | e :: rest => e.shift n :: shiftAll n rest

def shiftOption (n : Nat) : Option Expr → Option Expr
  | none => none
  | some e => some (e.shift n)

def shiftEntries (n : Nat) : List (Expr × Expr) → List (Expr × Expr)
  | [] => []
  | (k, v) :: rest => (k.shift n, v.shift n) :: shiftEntries n rest

def shiftComparisons (n : Nat) : List (CompareOp × Expr) → List (CompareOp × Expr)
  | [] => []
  | (op, e) :: rest => (op, e.shift n) :: shiftComparisons n rest

def shiftKeywords (n : Nat) : List (String × Expr) → List (String × Expr)
  | [] => []
  | (name, e) :: rest => (name, e.shift n) :: shiftKeywords n rest

def shiftParts (n : Nat) : List FPart → List FPart
  | [] => []
  | .text s :: rest => .text s :: shiftParts n rest
  | .field e spec :: rest => .field (e.shift n) spec :: shiftParts n rest

def shiftParams (n : Nat) : List Param → List Param
  | [] => []
  | .mk name value :: rest => .mk name (shiftOption n value) :: shiftParams n rest

def shiftClauses (n : Nat) : List Clause → List Clause
  | [] => []
  | .mk target iter conditions :: rest =>
    .mk (target.shift n) (iter.shift n) (shiftAll n conditions) :: shiftClauses n rest

end

mutual

def Stmt.shift (n : Nat) : Stmt → Stmt
  | .expr l e => .expr (l.shift n) (e.shift n)
  | .assign l targets e => .assign (l.shift n) (shiftAll n targets) (e.shift n)
  | .augAssign l op target e => .augAssign (l.shift n) op (target.shift n) (e.shift n)
  | .ifElse l c body orelse =>
    .ifElse (l.shift n) (c.shift n) (shiftBlock n body) (shiftBlock n orelse)
  | .while l c body => .while (l.shift n) (c.shift n) (shiftBlock n body)
  | .for l target iter body =>
    .for (l.shift n) (target.shift n) (iter.shift n) (shiftBlock n body)
  | .break l => .break (l.shift n)
  | .continue l => .continue (l.shift n)
  | .pass l => .pass (l.shift n)
  | .return l e => .return (l.shift n) (shiftOption n e)
  | .function l name params body =>
    .function (l.shift n) name (shiftParams n params) (shiftBlock n body)
  | .class l name base body => .class (l.shift n) name (shiftOption n base) (shiftBlock n body)
  | .global l names => .global (l.shift n) names
  | .raise l e => .raise (l.shift n) (shiftOption n e)
  | .assert l c message => .assert (l.shift n) (c.shift n) (shiftOption n message)
  | .delete l targets => .delete (l.shift n) (shiftAll n targets)
  | .importModule l m => .importModule (l.shift n) m
  | .importFrom l m names => .importFrom (l.shift n) m names

-- A block that starts `n` lines further down.
def shiftBlock (n : Nat) : List Stmt → List Stmt
  | [] => []
  | s :: rest => s.shift n :: shiftBlock n rest

end

/-! ### No lines further down -/

theorem Location.shift_zero (l : Location) : l.shift 0 = l := rfl

theorem map_shift_zero (ts : List Token) : ts.map (Token.shift 0) = ts :=
  List.map_id ts

mutual

theorem Expr.shift_zero : (e : Expr) → e.shift 0 = e
  | .none _ | .bool _ _ | .int _ _ | .float _ _ | .str _ _ | .name _ _ => rfl
  | .fstring _ parts => by rw [Expr.shift, shiftParts_zero parts, Location.shift_zero]
  | .list _ items | .tuple _ items | .set _ items => by
    rw [Expr.shift, shiftAll_zero items, Location.shift_zero]
  | .dict _ entries => by rw [Expr.shift, shiftEntries_zero entries, Location.shift_zero]
  | .listComp _ e clauses => by
    rw [Expr.shift, e.shift_zero, shiftClauses_zero clauses, Location.shift_zero]
  | .dictComp _ k v clauses => by
    rw [Expr.shift, k.shift_zero, v.shift_zero, shiftClauses_zero clauses, Location.shift_zero]
  | .binary _ _ a b | .boolOp _ _ a b | .subscript _ a b => by
    rw [Expr.shift, a.shift_zero, b.shift_zero, Location.shift_zero]
  | .tracked _ a | .unary _ _ a | .attr _ a _ => by
    rw [Expr.shift, a.shift_zero, Location.shift_zero]
  | .compare _ a rest => by
    rw [Expr.shift, a.shift_zero, shiftComparisons_zero rest, Location.shift_zero]
  | .ifElse _ c a b => by
    rw [Expr.shift, c.shift_zero, a.shift_zero, b.shift_zero, Location.shift_zero]
  | .lambda _ params body => by
    rw [Expr.shift, shiftParams_zero params, body.shift_zero, Location.shift_zero]
  | .call _ f args keywords => by
    rw [Expr.shift, f.shift_zero, shiftAll_zero args, shiftKeywords_zero keywords,
      Location.shift_zero]
  | .slice _ a b c => by
    rw [Expr.shift, shiftOption_zero a, shiftOption_zero b, shiftOption_zero c,
      Location.shift_zero]

theorem shiftAll_zero : (es : List Expr) → shiftAll 0 es = es
  | [] => rfl
  | e :: rest => by rw [shiftAll, e.shift_zero, shiftAll_zero rest]

theorem shiftOption_zero : (e : Option Expr) → shiftOption 0 e = e
  | none => rfl
  | some e => by rw [shiftOption, e.shift_zero]

theorem shiftEntries_zero : (es : List (Expr × Expr)) → shiftEntries 0 es = es
  | [] => rfl
  | (k, v) :: rest => by rw [shiftEntries, k.shift_zero, v.shift_zero, shiftEntries_zero rest]

theorem shiftComparisons_zero : (es : List (CompareOp × Expr)) → shiftComparisons 0 es = es
  | [] => rfl
  | (_, e) :: rest => by rw [shiftComparisons, e.shift_zero, shiftComparisons_zero rest]

theorem shiftKeywords_zero : (es : List (String × Expr)) → shiftKeywords 0 es = es
  | [] => rfl
  | (_, e) :: rest => by rw [shiftKeywords, e.shift_zero, shiftKeywords_zero rest]

theorem shiftParts_zero : (parts : List FPart) → shiftParts 0 parts = parts
  | [] => rfl
  | .text _ :: rest => by rw [shiftParts, shiftParts_zero rest]
  | .field e _ :: rest => by rw [shiftParts, e.shift_zero, shiftParts_zero rest]

theorem shiftParams_zero : (params : List Param) → shiftParams 0 params = params
  | [] => rfl
  | .mk _ value :: rest => by rw [shiftParams, shiftOption_zero value, shiftParams_zero rest]

theorem shiftClauses_zero : (clauses : List Clause) → shiftClauses 0 clauses = clauses
  | [] => rfl
  | .mk target iter conditions :: rest => by
    rw [shiftClauses, target.shift_zero, iter.shift_zero, shiftAll_zero conditions,
      shiftClauses_zero rest]

end

mutual

theorem Stmt.shift_zero : (s : Stmt) → s.shift 0 = s
  | .break _ | .continue _ | .pass _ | .global _ _ | .importModule _ _ | .importFrom _ _ _ => rfl
  | .expr _ e => by rw [Stmt.shift, e.shift_zero, Location.shift_zero]
  | .assign _ targets e => by
    rw [Stmt.shift, shiftAll_zero targets, e.shift_zero, Location.shift_zero]
  | .augAssign _ _ target e => by
    rw [Stmt.shift, target.shift_zero, e.shift_zero, Location.shift_zero]
  | .ifElse _ c body orelse => by
    rw [Stmt.shift, c.shift_zero, shiftBlock_zero body, shiftBlock_zero orelse,
      Location.shift_zero]
  | .while _ c body => by
    rw [Stmt.shift, c.shift_zero, shiftBlock_zero body, Location.shift_zero]
  | .for _ target iter body => by
    rw [Stmt.shift, target.shift_zero, iter.shift_zero, shiftBlock_zero body, Location.shift_zero]
  | .return _ e | .raise _ e => by rw [Stmt.shift, shiftOption_zero e, Location.shift_zero]
  | .function _ _ params body => by
    rw [Stmt.shift, shiftParams_zero params, shiftBlock_zero body, Location.shift_zero]
  | .class _ _ base body => by
    rw [Stmt.shift, shiftOption_zero base, shiftBlock_zero body, Location.shift_zero]
  | .assert _ c message => by
    rw [Stmt.shift, c.shift_zero, shiftOption_zero message, Location.shift_zero]
  | .delete _ targets => by rw [Stmt.shift, shiftAll_zero targets, Location.shift_zero]

theorem shiftBlock_zero : (block : List Stmt) → shiftBlock 0 block = block
  | [] => rfl
  | s :: rest => by rw [shiftBlock, s.shift_zero, shiftBlock_zero rest]

end

/-! ### Parts of expressions -/

theorem Expr.location_shift (n : Nat) (e : Expr) : (e.shift n).location = e.location.shift n := by
  cases e <;> rfl

mutual

theorem Expr.isAssignable_shift (n : Nat) : (e : Expr) → (e.shift n).isAssignable = e.isAssignable
  | .tuple _ items | .list _ items => by
    rw [Expr.shift, Expr.isAssignable, Expr.isAssignable, allAssignable_shift n items]
  | .none .. | .bool .. | .int .. | .float .. | .str .. | .fstring .. | .name .. | .tracked ..
  | .dict .. | .set .. | .listComp .. | .dictComp .. | .binary .. | .unary .. | .boolOp ..
  | .compare .. | .ifElse .. | .lambda .. | .call .. | .attr .. | .subscript .. | .slice .. => rfl

theorem allAssignable_shift (n : Nat) :
    (es : List Expr) → allAssignable (shiftAll n es) = allAssignable es
  | [] => rfl
  | e :: rest => by
    rw [shiftAll, allAssignable, allAssignable, e.isAssignable_shift n, allAssignable_shift n rest]

end

/-! ### Whatever readers give -/

-- Results of readers, as they are when the text stands `n` lines further down.
class Moves (α : Type) where
  move : Nat → α → α

export Moves (move)

section

variable {α β : Type} [Moves α] [Moves β] (n : Nat)

instance : Moves Unit := ⟨fun _ => id⟩
instance : Moves Bool := ⟨fun _ => id⟩
instance : Moves String := ⟨fun _ => id⟩
instance : Moves TokenKind := ⟨fun _ => id⟩
instance : Moves CompareOp := ⟨fun _ => id⟩
instance : Moves ImportedName := ⟨fun _ => id⟩
instance : Moves Location := ⟨Location.shift⟩
instance : Moves Token := ⟨Token.shift⟩
instance : Moves Expr := ⟨Expr.shift⟩
instance : Moves Stmt := ⟨Stmt.shift⟩
instance : Moves (Option α) := ⟨fun n => Option.map (move n)⟩
instance : Moves (List α) := ⟨fun n => List.map (move n)⟩
instance : Moves (α × β) := ⟨fun n => Prod.map (move n) (move n)⟩

instance : Moves FPart where
  move n
    | .text s => .text s
    | .field e spec => .field (e.shift n) spec

instance : Moves Param where
  move n
    | .mk name value => .mk name (move n value)

instance : Moves Clause where
  move n
    | .mk target iter conditions => .mk (move n target) (move n iter) (move n conditions)

instance : Moves Argument where
  move n
    | .positional e => .positional (move n e)
    | .keyword name e => .keyword name (move n e)

theorem shiftAll_eq (es : List Expr) : shiftAll n es = move n es :=
  eq_map_of_cons rfl (fun _ _ => rfl) es

theorem shiftOption_eq (e : Option Expr) : shiftOption n e = move n e := by
  cases e <;> rfl

theorem shiftEntries_eq (es : List (Expr × Expr)) : shiftEntries n es = move n es :=
  eq_map_of_cons rfl (fun _ _ => rfl) es

theorem shiftComparisons_eq (es : List (CompareOp × Expr)) : shiftComparisons n es = move n es :=
  eq_map_of_cons rfl (fun _ _ => rfl) es

theorem shiftKeywords_eq (es : List (String × Expr)) : shiftKeywords n es = move n es :=
  eq_map_of_cons rfl (fun _ _ => rfl) es

theorem shiftParts_eq (parts : List FPart) : shiftParts n parts = move n parts :=
  eq_map_of_cons rfl (fun part _ => by cases part <;> rfl) parts

theorem shiftParams_eq (params : List Param) : shiftParams n params = move n params :=
  eq_map_of_cons rfl (fun ⟨_, _⟩ _ => by rw [shiftParams, shiftOption_eq]; rfl) params

theorem shiftClauses_eq (clauses : List Clause) : shiftClauses n clauses = move n clauses :=
  eq_map_of_cons rfl (fun ⟨_, _, _⟩ _ => by rw [shiftClauses, shiftAll_eq]; rfl) clauses

theorem move_tuple (l : Location) (items : List Expr) :
    move n (Expr.tuple l items) = .tuple (move n l) (move n items) := by
  rw [← shiftAll_eq]
  rfl

theorem move_list (l : Location) (items : List Expr) :
    move n (Expr.list l items) = .list (move n l) (move n items) := by
  rw [← shiftAll_eq]
  rfl

theorem move_set (l : Location) (items : List Expr) :
    move n (Expr.set l items) = .set (move n l) (move n items) := by
  rw [← shiftAll_eq]
  rfl

theorem move_dict (l : Location) (entries : List (Expr × Expr)) :
    move n (Expr.dict l entries) = .dict (move n l) (move n entries) := by
  rw [← shiftEntries_eq]
  rfl

theorem move_fstring (l : Location) (parts : List FPart) :
    move n (Expr.fstring l parts) = .fstring (move n l) (move n parts) := by
  rw [← shiftParts_eq]
  rfl

theorem move_listComp (l : Location) (e : Expr) (clauses : List Clause) :
    move n (Expr.listComp l e clauses) = .listComp (move n l) (move n e) (move n clauses) := by
  rw [← shiftClauses_eq]
  rfl

theorem move_dictComp (l : Location) (k v : Expr) (clauses : List Clause) :
    move n (Expr.dictComp l k v clauses) =
      .dictComp (move n l) (move n k) (move n v) (move n clauses) := by
  rw [← shiftClauses_eq]
  rfl

theorem move_compare (l : Location) (e : Expr) (rest : List (CompareOp × Expr)) :
    move n (Expr.compare l e rest) = .compare (move n l) (move n e) (move n rest) := by
  rw [← shiftComparisons_eq]
  rfl

theorem move_lambda (l : Location) (params : List Param) (e : Expr) :
    move n (Expr.lambda l params e) = .lambda (move n l) (move n params) (move n e) := by
  rw [← shiftParams_eq]
  rfl

theorem move_call (l : Location) (f : Expr) (args : List Expr) (keywords : List (String × Expr)) :
    move n (Expr.call l f args keywords) =
      .call (move n l) (move n f) (move n args) (move n keywords) := by
  rw [← shiftAll_eq, ← shiftKeywords_eq]
  rfl

theorem move_slice (l : Location) (a b c : Option Expr) :
    move n (Expr.slice l a b c) = .slice (move n l) (move n a) (move n b) (move n c) := by
  rw [← shiftOption_eq, ← shiftOption_eq, ← shiftOption_eq]
  rfl

theorem shiftBlock_eq (block : List Stmt) : shiftBlock n block = move n block :=
  eq_map_of_cons rfl (fun _ _ => rfl) block

theorem move_id {α : Type} [Moves α] (h : ∀ a : α, move n a = a) (as : List α) :
    move n as = as :=
  List.map_id'' h as

theorem move_assign (l : Location) (targets : List Expr) (e : Expr) :
    move n (Stmt.assign l targets e) = .assign (move n l) (move n targets) (move n e) := by
  rw [← shiftAll_eq]
  rfl

theorem move_delete (l : Location) (targets : List Expr) :
    move n (Stmt.delete l targets) = .delete (move n l) (move n targets) := by
  rw [← shiftAll_eq]
  rfl

theorem move_ifElse (l : Location) (c : Expr) (body orelse : List Stmt) :
    move n (Stmt.ifElse l c body orelse) =
      .ifElse (move n l) (move n c) (move n body) (move n orelse) := by
  rw [← shiftBlock_eq, ← shiftBlock_eq]
  rfl

theorem move_while (l : Location) (c : Expr) (body : List Stmt) :
    move n (Stmt.while l c body) = .while (move n l) (move n c) (move n body) := by
  rw [← shiftBlock_eq]
  rfl

theorem move_for (l : Location) (target iter : Expr) (body : List Stmt) :
    move n (Stmt.for l target iter body) =
      .for (move n l) (move n target) (move n iter) (move n body) := by
  rw [← shiftBlock_eq]
  rfl

theorem move_function (l : Location) (name : String) (params : List Param) (body : List Stmt) :
    move n (Stmt.function l name params body) =
      .function (move n l) name (move n params) (move n body) := by
  rw [← shiftParams_eq, ← shiftBlock_eq]
  rfl

theorem move_class (l : Location) (name : String) (base : Option Expr) (body : List Stmt) :
    move n (Stmt.class l name base body) =
      .class (move n l) name (move n base) (move n body) := by
  rw [← shiftOption_eq, ← shiftBlock_eq]
  rfl

end

end StepTrace
