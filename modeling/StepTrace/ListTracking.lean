import StepTrace.Syntax

/-!
Marking the list displays whose lists report their element accesses: those that are evaluated as
values, at any depth. A list display that is an assignment target stays a pattern; the expressions
inside its subscripts and attributes are values again. `untracked` takes all marks away.
-/

set_option autoImplicit false

namespace StepTrace

mutual

/-- An expression that is evaluated, with its list displays marked. -/
def Expr.track : Expr → Expr
  | .list l items => .tracked l (.list l (trackAll items))
  | .fstring l parts => .fstring l (trackParts parts)
  | .tuple l items => .tuple l (trackAll items)
  | .set l items => .set l (trackAll items)
  | .dict l entries => .dict l (trackEntries entries)
  | .listComp l e clauses => .listComp l e.track (trackClauses clauses)
  | .dictComp l k v clauses => .dictComp l k.track v.track (trackClauses clauses)
  | .binary l op a b => .binary l op a.track b.track
  | .unary l op a => .unary l op a.track
  | .boolOp l op a b => .boolOp l op a.track b.track
  | .compare l a rest => .compare l a.track (trackComparisons rest)
  | .ifElse l c a b => .ifElse l c.track a.track b.track
  | .lambda l params body => .lambda l (trackParams params) body.track
  | .call l f args keywords => .call l f.track (trackAll args) (trackKeywords keywords)
  | .attr l o field => .attr l o.track field
  | .subscript l o i => .subscript l o.track i.track
  | .slice l a b c => .slice l (trackOption a) (trackOption b) (trackOption c)
  | e => e

/-- A target of an assignment, with the displays inside its subscripts and attributes marked. -/
def Expr.trackTarget : Expr → Expr
  | .list l items => .list l (trackTargets items)
  | .tuple l items => .tuple l (trackTargets items)
  | .subscript l o i => .subscript l o.track i.track
  | .attr l o field => .attr l o.track field
  | e => e

def trackAll : List Expr → List Expr
  | [] => []
  | e :: rest => e.track :: trackAll rest

def trackTargets : List Expr → List Expr
  | [] => []
  | e :: rest => e.trackTarget :: trackTargets rest

def trackOption : Option Expr → Option Expr
  | none => none
  | some e => some e.track

def trackEntries : List (Expr × Expr) → List (Expr × Expr)
  | [] => []
  | (k, v) :: rest => (k.track, v.track) :: trackEntries rest

def trackComparisons : List (CompareOp × Expr) → List (CompareOp × Expr)
  | [] => []
  | (op, e) :: rest => (op, e.track) :: trackComparisons rest

def trackKeywords : List (String × Expr) → List (String × Expr)
  | [] => []
  | (name, e) :: rest => (name, e.track) :: trackKeywords rest

def trackParts : List FPart → List FPart
  | [] => []
  | .text s :: rest => .text s :: trackParts rest
  | .field e spec :: rest => .field e.track spec :: trackParts rest

def trackParams : List Param → List Param
  | [] => []
  | .mk name value :: rest => .mk name (trackOption value) :: trackParams rest

def trackClauses : List Clause → List Clause
  | [] => []
  | .mk target iter conditions :: rest =>
    .mk target.trackTarget iter.track (trackAll conditions) :: trackClauses rest

end

mutual

def Stmt.track : Stmt → Stmt
  | .expr l e => .expr l e.track
  | .assign l targets e => .assign l (trackTargets targets) e.track
  | .augAssign l op target e => .augAssign l op target.trackTarget e.track
  | .ifElse l c body orelse => .ifElse l c.track (trackBlock body) (trackBlock orelse)
  | .while l c body => .while l c.track (trackBlock body)
  | .for l target iter body => .for l target.trackTarget iter.track (trackBlock body)
  | .return l e => .return l (trackOption e)
  | .function l name params body => .function l name (trackParams params) (trackBlock body)
  | .class l name base body => .class l name (trackOption base) (trackBlock body)
  | .raise l e => .raise l (trackOption e)
  | .assert l c message => .assert l c.track (trackOption message)
  | .delete l targets => .delete l (trackTargets targets)
  | s => s

/-- A block with the list displays that are evaluated in it marked. -/
def trackBlock : List Stmt → List Stmt
  | [] => []
  | s :: rest => s.track :: trackBlock rest

end

mutual

def Expr.untracked : Expr → Expr
  | .tracked _ e => e.untracked
  | .list l items => .list l (untrackedAll items)
  | .fstring l parts => .fstring l (untrackedParts parts)
  | .tuple l items => .tuple l (untrackedAll items)
  | .set l items => .set l (untrackedAll items)
  | .dict l entries => .dict l (untrackedEntries entries)
  | .listComp l e clauses => .listComp l e.untracked (untrackedClauses clauses)
  | .dictComp l k v clauses => .dictComp l k.untracked v.untracked (untrackedClauses clauses)
  | .binary l op a b => .binary l op a.untracked b.untracked
  | .unary l op a => .unary l op a.untracked
  | .boolOp l op a b => .boolOp l op a.untracked b.untracked
  | .compare l a rest => .compare l a.untracked (untrackedComparisons rest)
  | .ifElse l c a b => .ifElse l c.untracked a.untracked b.untracked
  | .lambda l params body => .lambda l (untrackedParams params) body.untracked
  | .call l f args keywords =>
    .call l f.untracked (untrackedAll args) (untrackedKeywords keywords)
  | .attr l o field => .attr l o.untracked field
  | .subscript l o i => .subscript l o.untracked i.untracked
  | .slice l a b c => .slice l (untrackedOption a) (untrackedOption b) (untrackedOption c)
  | e => e

def untrackedAll : List Expr → List Expr
  | [] => []
  | e :: rest => e.untracked :: untrackedAll rest

def untrackedOption : Option Expr → Option Expr
  | none => none
  | some e => some e.untracked

def untrackedEntries : List (Expr × Expr) → List (Expr × Expr)
  | [] => []
  | (k, v) :: rest => (k.untracked, v.untracked) :: untrackedEntries rest

def untrackedComparisons : List (CompareOp × Expr) → List (CompareOp × Expr)
  | [] => []
  | (op, e) :: rest => (op, e.untracked) :: untrackedComparisons rest

def untrackedKeywords : List (String × Expr) → List (String × Expr)
  | [] => []
  | (name, e) :: rest => (name, e.untracked) :: untrackedKeywords rest

def untrackedParts : List FPart → List FPart
  | [] => []
  | .text s :: rest => .text s :: untrackedParts rest
  | .field e spec :: rest => .field e.untracked spec :: untrackedParts rest

def untrackedParams : List Param → List Param
  | [] => []
  | .mk name value :: rest => .mk name (untrackedOption value) :: untrackedParams rest

def untrackedClauses : List Clause → List Clause
  | [] => []
  | .mk target iter conditions :: rest =>
    .mk target.untracked iter.untracked (untrackedAll conditions) :: untrackedClauses rest

end

mutual

def Stmt.untracked : Stmt → Stmt
  | .expr l e => .expr l e.untracked
  | .assign l targets e => .assign l (untrackedAll targets) e.untracked
  | .augAssign l op target e => .augAssign l op target.untracked e.untracked
  | .ifElse l c body orelse => .ifElse l c.untracked (untrackedBlock body) (untrackedBlock orelse)
  | .while l c body => .while l c.untracked (untrackedBlock body)
  | .for l target iter body => .for l target.untracked iter.untracked (untrackedBlock body)
  | .return l e => .return l (untrackedOption e)
  | .function l name params body => .function l name (untrackedParams params) (untrackedBlock body)
  | .class l name base body => .class l name (untrackedOption base) (untrackedBlock body)
  | .raise l e => .raise l (untrackedOption e)
  | .assert l c message => .assert l c.untracked (untrackedOption message)
  | .delete l targets => .delete l (untrackedAll targets)
  | s => s

def untrackedBlock : List Stmt → List Stmt
  | [] => []
  | s :: rest => s.untracked :: untrackedBlock rest

end

end StepTrace
