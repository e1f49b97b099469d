/-!
The errors that end a running program, and their messages.
-/

set_option autoImplicit false

namespace StepTrace

/-- The classes of errors. -/
inductive FaultKind
  /-- The text of the program is at fault at a line. -/
  | program (line : Nat)
  | name | type | value | index | key | member | zeroDivision | overflow | recursion | memory
  | moduleNotFound | importName | unsupported
  /-- An exception that the program raises itself. -/
  | raised (cls : String)
deriving DecidableEq, Repr

/-- The name under which a class of errors is reported. -/
def FaultKind.label : FaultKind → String
  | program _ => "SyntaxError"
  | name => "NameError"
  | type => "TypeError"
  | value => "ValueError"
  | index => "IndexError"
  | key => "KeyError"
  | member => "AttributeError"
  | zeroDivision => "ZeroDivisionError"
  | overflow => "OverflowError"
  | recursion => "RecursionError"
  | memory => "MemoryError"
  | moduleNotFound => "ModuleNotFoundError"
  | importName => "ImportError"
  | unsupported => "NotImplementedError"
  | raised cls => cls

/-- An error of a running program. -/
structure Fault where
  kind : FaultKind
  message : String
deriving DecidableEq, Repr

namespace Fault

/-- The error as it is reported: its class, its message if there is one, and the line at fault. -/
def describe (f : Fault) : String :=
  let place := match f.kind with
    | .program line => " (line " ++ toString line ++ ")"
    | _ => ""
  f.kind.label ++ (if f.message.isEmpty then "" else ": " ++ f.message) ++ place

def type (message : String) : Fault := ⟨.type, message⟩
def value (message : String) : Fault := ⟨.value, message⟩
def index (message : String) : Fault := ⟨.index, message⟩
def raised (cls message : String) : Fault := ⟨.raised cls, message⟩
def unsupported (message : String) : Fault := ⟨.unsupported, message⟩

/-- Text between single quotes. -/
def mark (s : String) : String := "'" ++ s ++ "'"

/-! ### Names and attributes -/

def undefined (name : String) : Fault := ⟨.name, "name " ++ mark name ++ " is not defined"⟩

/-- `owner` says whose attribute is missing. -/
def noAttribute (owner name : String) : Fault :=
  ⟨.member, owner ++ " has no attribute " ++ mark name⟩

def noAttributeOf (typeName name : String) : Fault := noAttribute (mark typeName ++ " object") name

def missingKey (shown : String) : Fault := ⟨.key, shown⟩

def noModule (name : String) : Fault := ⟨.moduleNotFound, "No module named " ++ mark name⟩

def noImport (name module : String) : Fault :=
  ⟨.importName, "cannot import name " ++ mark name ++ " from " ++ mark module⟩

/-! ### Limits -/

def recursion : Fault := ⟨.recursion, "maximum recursion depth exceeded"⟩

def heapFull (limit : Nat) : Fault :=
  ⟨.memory, "object limit of " ++ toString limit ++ " exceeded"⟩

def tooManyItems (count : Nat) : Fault :=
  ⟨.memory, "cannot materialize " ++ toString count ++ " items"⟩

def repeatedTooOften : Fault := ⟨.memory, "repeated sequence is too large"⟩

/-! ### Numbers -/

def outOfRange : Fault := ⟨.overflow, "integer result out of range"⟩

def infiniteInteger : Fault := ⟨.overflow, "cannot convert float infinity to integer"⟩

def characterRange : Fault := ⟨.overflow, "%c arg not in range(0x110000)"⟩

def undefinedInteger : Fault := value "cannot convert float NaN to integer"

def divisionByZero : Fault := ⟨.zeroDivision, "division by zero"⟩
def floorDivisionByZero : Fault := ⟨.zeroDivision, "integer division or modulo by zero"⟩
def moduloByZero : Fault := ⟨.zeroDivision, "integer modulo by zero"⟩
def floatDivisionByZero : Fault := ⟨.zeroDivision, "float division by zero"⟩
def floatFloorDivisionByZero : Fault := ⟨.zeroDivision, "float floor division by zero"⟩
def floatModuloByZero : Fault := ⟨.zeroDivision, "float modulo"⟩
def negativePowerOfZero : Fault :=
  ⟨.zeroDivision, "0.0 cannot be raised to a negative power"⟩
def negativeShift : Fault := value "negative shift count"
def mathDomain : Fault := value "math domain error"

/-! ### Operands; names of types are given -/

def operands (symbol left right : String) : Fault :=
  type ("unsupported operand type(s) for " ++ symbol ++ ": " ++ mark left ++ " and " ++ mark right)

def concatenation (left right : String) : Fault :=
  type ("can only concatenate " ++ left ++ " (not \"" ++ right ++ "\") to " ++ left)

def operand (symbol typeName : String) : Fault :=
  type ("bad operand type for unary " ++ symbol ++ ": " ++ mark typeName)

def notOrdered (symbol left right : String) : Fault :=
  type (mark symbol ++ " not supported between instances of " ++ mark left ++ " and " ++
    mark right)

def notHashable (typeName : String) : Fault := type ("unhashable type: " ++ mark typeName)
def notIterable (typeName : String) : Fault := type (mark typeName ++ " object is not iterable")
def notCallable (typeName : String) : Fault := type (mark typeName ++ " object is not callable")

def notSubscriptable (typeName : String) : Fault :=
  type (mark typeName ++ " object is not subscriptable")

def noItemAssignment (typeName : String) : Fault :=
  type (mark typeName ++ " object does not support item assignment")

def noItemDeletion (typeName : String) : Fault :=
  type (mark typeName ++ " object doesn't support item deletion")

def noLength (typeName : String) : Fault :=
  type ("object of type " ++ mark typeName ++ " has no len()")

def notAnInteger (typeName : String) : Fault :=
  type (mark typeName ++ " object cannot be interpreted as an integer")

def notAnIndex (container typeName : String) : Fault :=
  type (container ++ " indices must be integers or slices, not " ++ typeName)

def notASliceIndex : Fault :=
  type "slice indices must be integers or None or have an __index__ method"

def outside (container : String) : Fault := index (container ++ " index out of range")

def sliceStep : Fault := value "slice step cannot be zero"

def sliceLength (given selected : Nat) : Fault :=
  value ("attempt to assign sequence of size " ++ toString given ++ " to extended slice of size " ++
    toString selected)

def notAString (typeName : String) : Fault :=
  type ("'in <string>' requires string as left operand, not " ++ typeName)

def unpacking (expected given : Nat) : Fault :=
  if expected < given then
    value ("too many values to unpack (expected " ++ toString expected ++ ")")
  else
    value ("not enough values to unpack (expected " ++ toString expected ++ ", got " ++
      toString given ++ ")")

def badSpec (spec typeName : String) : Fault :=
  value ("Invalid format specifier " ++ mark spec ++ " for object of type " ++ mark typeName)

/-! ### Calls -/

/-- A count of things, with the word for them in the singular. -/
def counted (n : Nat) (word : String) : String :=
  toString n ++ " " ++ word ++ (if n = 1 then "" else "s")

/-- Marked names in a row: `'a'`, `'a' and 'b'`, `'a', 'b', and 'c'`. -/
def enumeration : List String → String
  | [] => ""
  | [a] => mark a
  | [a, b] => mark a ++ " and " ++ mark b
  | names =>
    ", ".intercalate (names.dropLast.map mark) ++ ", and " ++ mark (names.getLast?.getD "")

/-- Too many positional arguments for a function of `params` parameters. -/
def tooManyArguments (name : String) (params defaults given : Nat) : Fault :=
  let takes :=
    if defaults = 0 then counted params "positional argument"
    else "from " ++ toString (params - defaults) ++ " to " ++ toString params ++
      " positional arguments"
  type (name ++ "() takes " ++ takes ++ " but " ++ toString given ++
    (if given = 1 then " was" else " were") ++ " given")

def unexpectedKeyword (name keyword : String) : Fault :=
  type (name ++ "() got an unexpected keyword argument " ++ mark keyword)

def repeatedArgument (name keyword : String) : Fault :=
  type (name ++ "() got multiple values for argument " ++ mark keyword)

def missingArguments (name : String) (missing : List String) : Fault :=
  type (name ++ "() missing " ++ counted missing.length "required positional argument" ++ ": " ++
    enumeration missing)

/-- The wrong number of arguments for a function that takes `low` to `high` ones. -/
def arity (name : String) (low : Nat) (high : Option Nat) (given : Nat) : Fault :=
  let expected :=
    if high = some low then
      match low with
      | 0 => "no arguments"
      | 1 => "exactly one argument"
      | n => "exactly " ++ toString n ++ " arguments"
    else if given < low then "at least " ++ counted low "argument"
    else "at most " ++ counted (high.getD 0) "argument"
  type (name ++ "() takes " ++ expected ++ " (" ++ toString given ++ " given)")

/-! ### Statements in the wrong place -/

def strayReturn (line : Nat) : Fault := ⟨.program line, "'return' outside function"⟩
def strayBreak (line : Nat) : Fault := ⟨.program line, "'break' outside loop"⟩
def straySlice (line : Nat) : Fault := ⟨.program line, "slice outside of a subscript"⟩
def assignTarget (line : Nat) : Fault := ⟨.program line, "cannot assign to expression"⟩
def deleteTarget (line : Nat) : Fault := ⟨.program line, "cannot delete expression"⟩
def augmentedTarget (line : Nat) : Fault :=
  ⟨.program line, "illegal expression for augmented assignment"⟩

def notAnException : Fault := type "exceptions must derive from BaseException"

end Fault

end StepTrace
