/-!
Programs as trees. Every node carries the place in the text that messages and steps refer to.
-/

set_option autoImplicit false

namespace StepTrace

/-- A place in a text; lines and columns count from 1. -/
structure Location where
  line : Nat
  column : Nat
deriving DecidableEq, Repr, Inhabited

inductive BinaryOp
  | add | sub | mul | div | floorDiv | mod | pow | bitAnd | bitOr | bitXor | shiftLeft | shiftRight
deriving DecidableEq, Repr

/-- The operator as it is written. -/
def BinaryOp.symbol : BinaryOp → String
  | add => "+"
  | sub => "-"
  | mul => "*"
  | div => "/"
  | floorDiv => "//"
  | mod => "%"
  | pow => "**"
  | bitAnd => "&"
  | bitOr => "|"
  | bitXor => "^"
  | shiftLeft => "<<"
  | shiftRight => ">>"

inductive UnaryOp
  | neg | pos | not | bitNot
deriving DecidableEq, Repr

/-- The operator as it is written. -/
def UnaryOp.symbol : UnaryOp → String
  | neg => "-"
  | pos => "+"
  | not => "not"
  | bitNot => "~"

inductive BoolOp
  | and | or
deriving DecidableEq, Repr

/-- The operator as it is written. -/
def BoolOp.symbol : BoolOp → String
  | and => "and"
  | or => "or"

inductive CompareOp
  | eq | ne | lt | le | gt | ge | isIn | notIn | is | isNot
deriving DecidableEq, Repr

/-- The operator as it is written. -/
def CompareOp.symbol : CompareOp → String
  | eq => "=="
  | ne => "!="
  | lt => "<"
  | le => "<="
  | gt => ">"
  | ge => ">="
  | isIn => "in"
  | notIn => "not in"
  | is => "is"
  | isNot => "is not"

mutual

/-- Expressions. `tracked` marks a list display whose list reports its element accesses. -/
inductive Expr
  | none (loc : Location)
  | bool (loc : Location) (value : Bool)
  | int (loc : Location) (value : Int64)
  | float (loc : Location) (value : Float)
  | str (loc : Location) (value : String)
  | fstring (loc : Location) (parts : List FPart)
  | name (loc : Location) (id : String)
  | list (loc : Location) (items : List Expr)
  | tracked (loc : Location) (inner : Expr)
  | tuple (loc : Location) (items : List Expr)
  | dict (loc : Location) (entries : List (Expr × Expr))
  | set (loc : Location) (items : List Expr)
  | listComp (loc : Location) (element : Expr) (clauses : List Clause)
  | dictComp (loc : Location) (key value : Expr) (clauses : List Clause)
  | binary (loc : Location) (op : BinaryOp) (left right : Expr)
  | unary (loc : Location) (op : UnaryOp) (operand : Expr)
  | boolOp (loc : Location) (op : BoolOp) (left right : Expr)
  | compare (loc : Location) (left : Expr) (rest : List (CompareOp × Expr))
  | ifElse (loc : Location) (condition yes no : Expr)
  | lambda (loc : Location) (params : List Param) (body : Expr)
  | call (loc : Location) (callee : Expr) (args : List Expr) (keywords : List (String × Expr))
  | attr (loc : Location) (object : Expr) (field : String)
  | subscript (loc : Location) (object index : Expr)
  | slice (loc : Location) (lower upper step : Option Expr)

/-- A piece of a formatted string. -/
inductive FPart
  | text (value : String)
  | field (value : Expr) (spec : Option String)

/-- One `for … in … if …` clause of a comprehension. -/
inductive Clause
  | mk (target iter : Expr) (conditions : List Expr)

/-- A parameter with its default, if it has one. -/
inductive Param
  | mk (name : String) (default : Option Expr)

end

instance : Inhabited Expr := ⟨.none default⟩

def Clause.target : Clause → Expr
  | mk target _ _ => target

def Clause.iter : Clause → Expr
  | mk _ iter _ => iter

def Clause.conditions : Clause → List Expr
  | mk _ _ conditions => conditions

def Param.name : Param → String
  | mk name _ => name

def Param.default : Param → Option Expr
  | mk _ default => default

def Expr.location : Expr → Location
  | none l | bool l _ | int l _ | float l _ | str l _ | fstring l _ | name l _ | list l _
  | tracked l _ | tuple l _ | dict l _ | set l _ | listComp l _ _ | dictComp l _ _ _
  | binary l _ _ _ | unary l _ _ | boolOp l _ _ _ | compare l _ _ | ifElse l _ _ _
  | lambda l _ _ | call l _ _ _ | attr l _ _ | subscript l _ _ | slice l _ _ _ => l

mutual

/-- Whether an expression may stand on the left of `=`. -/
def Expr.isAssignable : Expr → Bool
  | .name .. | .attr .. | .subscript .. => true
  | .tuple _ items | .list _ items => allAssignable items
  | _ => false

def allAssignable : List Expr → Bool
  | [] => true
  | e :: rest => e.isAssignable && allAssignable rest

end

theorem allAssignable_iff {es : List Expr} :
    allAssignable es = true ↔ ∀ e ∈ es, e.isAssignable = true := by
  induction es with
  | nil => simp [allAssignable]
  | cons e rest ih => simp [allAssignable, ih]

/-- A name that an import binds, and the name it is bound to. -/
structure ImportedName where
  name : String
  alias? : Option String
deriving DecidableEq, Repr

def ImportedName.bound (n : ImportedName) : String :=
  n.alias?.getD n.name

/-- Statements. -/
inductive Stmt
  | expr (loc : Location) (value : Expr)
  | assign (loc : Location) (targets : List Expr) (value : Expr)
  | augAssign (loc : Location) (op : BinaryOp) (target value : Expr)
  | ifElse (loc : Location) (condition : Expr) (body orelse : List Stmt)
  | while (loc : Location) (condition : Expr) (body : List Stmt)
  | for (loc : Location) (target iter : Expr) (body : List Stmt)
  | break (loc : Location)
  | continue (loc : Location)
  | pass (loc : Location)
  | return (loc : Location) (value : Option Expr)
  | function (loc : Location) (name : String) (params : List Param) (body : List Stmt)
  | class (loc : Location) (name : String) (base : Option Expr) (body : List Stmt)
  | global (loc : Location) (names : List String)
  | raise (loc : Location) (exception : Option Expr)
  | assert (loc : Location) (condition : Expr) (message : Option Expr)
  | delete (loc : Location) (targets : List Expr)
  | importModule (loc : Location) (module : ImportedName)
  | importFrom (loc : Location) (module : String) (names : List ImportedName)

instance : Inhabited Stmt := ⟨.pass default⟩

/-- The place of a statement. -/
def Stmt.location : Stmt → Location
  | .expr l _ | .assign l _ _ | .augAssign l _ _ _ | .ifElse l _ _ _ | .while l _ _ | .for l _ _ _
  | .break l | .continue l | .pass l | .return l _ | .function l _ _ _ | .class l _ _ _
  | .global l _ | .raise l _ | .assert l _ _ | .delete l _ | .importModule l _ | .importFrom l _ _ => l

/-- A program is a sequence of statements. -/
abbrev Program := List Stmt

-- Functions on trees go along the lists in them by recursions of their own, which are maps.
theorem eq_map_of_cons {α β : Type} {all : List α → List β} {one : α → β} (nil : all [] = [])
    (cons : ∀ a as, all (a :: as) = one a :: all as) (as : List α) : all as = as.map one := by
  induction as with
  | nil => exact nil
  | cons a as ih => rw [cons, ih, List.map_cons]

end StepTrace
