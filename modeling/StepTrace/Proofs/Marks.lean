import StepTrace.Heap
import StepTrace.ListTracking

/-!
Programs beside each other of which the second one may have its list displays marked.
-/

set_option autoImplicit false

namespace StepTrace

-- Both programs go through the same lemmas: `t` says whether the second one is marked.
def markIf {α : Type} (t : Bool) (f : α → α) (a : α) : α := cond t (f a) a

abbrev Expr.marked (t : Bool) (e : Expr) : Expr := markIf t Expr.track e
abbrev Expr.markedTarget (t : Bool) (e : Expr) : Expr := markIf t Expr.trackTarget e
abbrev Stmt.marked (t : Bool) (s : Stmt) : Stmt := markIf t Stmt.track s

def FunctionBody.marked (t : Bool) : FunctionBody → FunctionBody
  | .block body => .block (markIf t trackBlock body)
  | .lambda body => .lambda (body.marked t)

theorem FunctionBody.marked_false (body : FunctionBody) : body.marked false = body := by
  cases body <;> rfl

section

variable (t : Bool) (l : Location)

namespace Expr

/-! ### Expressions; a list display is the one node that changes -/

theorem marked_tracked (e : Expr) : (Expr.tracked l e).marked t = .tracked l e := by
  cases t <;> rfl

theorem marked_fstring (parts : List FPart) :
    (Expr.fstring l parts).marked t = .fstring l (markIf t trackParts parts) := by
  cases t <;> rfl

theorem marked_tuple (es : List Expr) :
    (Expr.tuple l es).marked t = .tuple l (markIf t trackAll es) := by
  cases t <;> rfl

theorem marked_set (es : List Expr) :
    (Expr.set l es).marked t = .set l (markIf t trackAll es) := by
  cases t <;> rfl

theorem marked_dict (entries : List (Expr × Expr)) :
    (Expr.dict l entries).marked t = .dict l (markIf t trackEntries entries) := by
  cases t <;> rfl

theorem marked_listComp (e : Expr) (clauses : List Clause) :
    (Expr.listComp l e clauses).marked t =
      .listComp l (e.marked t) (markIf t trackClauses clauses) := by
  cases t <;> rfl

theorem marked_dictComp (k v : Expr) (clauses : List Clause) :
    (Expr.dictComp l k v clauses).marked t =
      .dictComp l (k.marked t) (v.marked t) (markIf t trackClauses clauses) := by
  cases t <;> rfl

theorem marked_binary (op : BinaryOp) (a b : Expr) :
    (Expr.binary l op a b).marked t = .binary l op (a.marked t) (b.marked t) := by
  cases t <;> rfl

theorem marked_unary (op : UnaryOp) (a : Expr) :
    (Expr.unary l op a).marked t = .unary l op (a.marked t) := by
  cases t <;> rfl

theorem marked_boolOp (op : BoolOp) (a b : Expr) :
    (Expr.boolOp l op a b).marked t = .boolOp l op (a.marked t) (b.marked t) := by
  cases t <;> rfl

theorem marked_compare (a : Expr) (rest : List (CompareOp × Expr)) :
    (Expr.compare l a rest).marked t =
      .compare l (a.marked t) (markIf t trackComparisons rest) := by
  cases t <;> rfl

theorem marked_ifElse (c a b : Expr) :
    (Expr.ifElse l c a b).marked t = .ifElse l (c.marked t) (a.marked t) (b.marked t) := by
  cases t <;> rfl

theorem marked_lambda (params : List Param) (body : Expr) :
    (Expr.lambda l params body).marked t =
      .lambda l (markIf t trackParams params) (body.marked t) := by
  cases t <;> rfl

theorem marked_call (f : Expr) (args : List Expr) (keywords : List (String × Expr)) :
    (Expr.call l f args keywords).marked t =
      .call l (f.marked t) (markIf t trackAll args) (markIf t trackKeywords keywords) := by
  cases t <;> rfl

theorem marked_attr (o : Expr) (field : String) :
    (Expr.attr l o field).marked t = .attr l (o.marked t) field := by
  cases t <;> rfl

theorem marked_subscript (o i : Expr) :
    (Expr.subscript l o i).marked t = .subscript l (o.marked t) (i.marked t) := by
  cases t <;> rfl

theorem marked_slice (a b c : Option Expr) :
    (Expr.slice l a b c).marked t =
      .slice l (markIf t trackOption a) (markIf t trackOption b) (markIf t trackOption c) := by
  cases t <;> rfl

theorem location_marked (e : Expr) : (e.marked t).location = e.location := by
  cases t <;> cases e <;> rfl

/-! ### Targets; a list display stays a pattern -/

theorem markedTarget_list (es : List Expr) :
    (Expr.list l es).markedTarget t = .list l (markIf t trackTargets es) := by
  cases t <;> rfl

theorem markedTarget_tuple (es : List Expr) :
    (Expr.tuple l es).markedTarget t = .tuple l (markIf t trackTargets es) := by
  cases t <;> rfl

theorem markedTarget_subscript (o i : Expr) :
    (Expr.subscript l o i).markedTarget t = .subscript l (o.marked t) (i.marked t) := by
  cases t <;> rfl

theorem markedTarget_attr (o : Expr) (field : String) :
    (Expr.attr l o field).markedTarget t = .attr l (o.marked t) field := by
  cases t <;> rfl

end Expr

/-! ### Lists of parts -/

theorem marked_all_nil : markIf t trackAll [] = [] := by cases t <;> rfl

theorem marked_all_cons (e : Expr) (es : List Expr) :
    markIf t trackAll (e :: es) = e.marked t :: markIf t trackAll es := by
  cases t <;> rfl

theorem marked_targets_nil : markIf t trackTargets [] = [] := by cases t <;> rfl

theorem marked_targets_cons (e : Expr) (es : List Expr) :
    markIf t trackTargets (e :: es) = e.markedTarget t :: markIf t trackTargets es := by
  cases t <;> rfl

theorem marked_option_none : markIf t trackOption none = none := by cases t <;> rfl

theorem marked_option_some (e : Expr) :
    markIf t trackOption (some e) = some (e.marked t) := by
  cases t <;> rfl

theorem marked_entries_nil : markIf t trackEntries [] = [] := by cases t <;> rfl

theorem marked_entries_cons (k v : Expr) (rest : List (Expr × Expr)) :
    markIf t trackEntries ((k, v) :: rest) =
      (k.marked t, v.marked t) :: markIf t trackEntries rest := by
  cases t <;> rfl

theorem marked_comparisons_nil : markIf t trackComparisons [] = [] := by cases t <;> rfl

theorem marked_comparisons_cons (op : CompareOp) (e : Expr) (rest : List (CompareOp × Expr)) :
    markIf t trackComparisons ((op, e) :: rest) =
      (op, e.marked t) :: markIf t trackComparisons rest := by
  cases t <;> rfl

theorem marked_keywords_nil : markIf t trackKeywords [] = [] := by cases t <;> rfl

theorem marked_keywords_cons (name : String) (e : Expr) (rest : List (String × Expr)) :
    markIf t trackKeywords ((name, e) :: rest) =
      (name, e.marked t) :: markIf t trackKeywords rest := by
  cases t <;> rfl

theorem marked_parts_nil : markIf t trackParts [] = [] := by cases t <;> rfl

theorem marked_parts_text (s : String) (rest : List FPart) :
    markIf t trackParts (.text s :: rest) = .text s :: markIf t trackParts rest := by
  cases t <;> rfl

theorem marked_parts_field (e : Expr) (spec : Option String) (rest : List FPart) :
    markIf t trackParts (.field e spec :: rest) =
      .field (e.marked t) spec :: markIf t trackParts rest := by
  cases t <;> rfl

theorem marked_params_nil : markIf t trackParams [] = [] := by cases t <;> rfl

theorem marked_params_cons (name : String) (value : Option Expr) (rest : List Param) :
    markIf t trackParams (.mk name value :: rest) =
      .mk name (markIf t trackOption value) :: markIf t trackParams rest := by
  cases t <;> rfl

theorem marked_clauses_nil : markIf t trackClauses [] = [] := by cases t <;> rfl

theorem marked_clauses_cons (target iter : Expr) (conditions : List Expr) (rest : List Clause) :
    markIf t trackClauses (.mk target iter conditions :: rest) =
      .mk (target.markedTarget t) (iter.marked t) (markIf t trackAll conditions) ::
        markIf t trackClauses rest := by
  cases t <;> rfl

theorem marked_targets_length (es : List Expr) : (markIf t trackTargets es).length = es.length := by
  induction es with
  | nil => rw [marked_targets_nil]
  | cons e es ih => simp [marked_targets_cons, ih]

theorem marked_params_names (params : List Param) :
    (markIf t trackParams params).map Param.name = params.map Param.name := by
  induction params with
  | nil => rw [marked_params_nil]
  | cons p params ih =>
    obtain ⟨name, value⟩ := p
    rw [marked_params_cons, List.map_cons, List.map_cons, ih]
    rfl

namespace Stmt

/-! ### Statements -/

theorem marked_expr (e : Expr) : (Stmt.expr l e).marked t = .expr l (e.marked t) := by
  cases t <;> rfl

theorem marked_assign (targets : List Expr) (e : Expr) :
    (Stmt.assign l targets e).marked t =
      .assign l (markIf t trackTargets targets) (e.marked t) := by
  cases t <;> rfl

theorem marked_augAssign (op : BinaryOp) (target e : Expr) :
    (Stmt.augAssign l op target e).marked t =
      .augAssign l op (target.markedTarget t) (e.marked t) := by
  cases t <;> rfl

theorem marked_ifElse (c : Expr) (body orelse : List Stmt) :
    (Stmt.ifElse l c body orelse).marked t =
      .ifElse l (c.marked t) (markIf t trackBlock body) (markIf t trackBlock orelse) := by
  cases t <;> rfl

theorem marked_while (c : Expr) (body : List Stmt) :
    (Stmt.while l c body).marked t = .while l (c.marked t) (markIf t trackBlock body) := by
  cases t <;> rfl

theorem marked_for (target iter : Expr) (body : List Stmt) :
    (Stmt.for l target iter body).marked t =
      .for l (target.markedTarget t) (iter.marked t) (markIf t trackBlock body) := by
  cases t <;> rfl

theorem marked_return (e : Option Expr) :
    (Stmt.return l e).marked t = .return l (markIf t trackOption e) := by
  cases t <;> rfl

theorem marked_function (name : String) (params : List Param) (body : List Stmt) :
    (Stmt.function l name params body).marked t =
      .function l name (markIf t trackParams params) (markIf t trackBlock body) := by
  cases t <;> rfl

theorem marked_class (name : String) (base : Option Expr) (body : List Stmt) :
    (Stmt.class l name base body).marked t =
      .class l name (markIf t trackOption base) (markIf t trackBlock body) := by
  cases t <;> rfl

theorem marked_raise (e : Option Expr) :
    (Stmt.raise l e).marked t = .raise l (markIf t trackOption e) := by
  cases t <;> rfl

theorem marked_assert (c : Expr) (message : Option Expr) :
    (Stmt.assert l c message).marked t =
      .assert l (c.marked t) (markIf t trackOption message) := by
  cases t <;> rfl

theorem marked_delete (targets : List Expr) :
    (Stmt.delete l targets).marked t = .delete l (markIf t trackTargets targets) := by
  cases t <;> rfl

theorem location_marked (s : Stmt) : (s.marked t).location = s.location := by
  cases t <;> cases s <;> rfl

end Stmt

theorem marked_block_nil : markIf t trackBlock [] = [] := by cases t <;> rfl

theorem marked_block_cons (s : Stmt) (rest : List Stmt) :
    markIf t trackBlock (s :: rest) = s.marked t :: markIf t trackBlock rest := by
  cases t <;> rfl

end

end StepTrace
