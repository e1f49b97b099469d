/-!
The functions, types and exception classes that every program has, and those of the modules it can
import.
-/

set_option autoImplicit false

namespace StepTrace

inductive Builtin
  | print | input | len | range | abs | min | max | sum | sorted | reversed | enumerate | zip | map
  | filter | any | all | round | repr | isinstance | hasattr | getattr | ord | chr | divmod | pow
  | hex | bin | oct | format | super
  | int | float | str | bool | list | dict | set | tuple | object | type | noneType
  | exception (kind : String)
  | sqrt | floor | ceil | gcd | log | log2 | log10 | fabs | isqrt | factorial | mathPow
  | deque | defaultdict
  | heappush | heappop | heapify
deriving DecidableEq, Repr

/-- The exception classes that every program has. -/
def exceptionKinds : List String :=
  ["Exception", "ArithmeticError", "AssertionError", "AttributeError", "IndexError", "KeyError",
    "LookupError", "NameError", "NotImplementedError", "OverflowError", "RecursionError",
    "RuntimeError", "StopIteration", "TypeError", "ValueError", "ZeroDivisionError"]

namespace Builtin

def name : Builtin → String
  | print => "print"
  | input => "input"
  | len => "len"
  | range => "range"
  | abs => "abs"
  | min => "min"
  | max => "max"
  | sum => "sum"
  | sorted => "sorted"
  | reversed => "reversed"
  | enumerate => "enumerate"
  | zip => "zip"
  | map => "map"
  | filter => "filter"
  | any => "any"
  | all => "all"
  | round => "round"
  | repr => "repr"
  | isinstance => "isinstance"
  | hasattr => "hasattr"
  | getattr => "getattr"
  | ord => "ord"
  | chr => "chr"
  | divmod => "divmod"
  | pow => "pow"
  | hex => "hex"
  | bin => "bin"
  | oct => "oct"
  | format => "format"
  | super => "super"
  | int => "int"
  | float => "float"
  | str => "str"
  | bool => "bool"
  | list => "list"
  | dict => "dict"
  | set => "set"
  | tuple => "tuple"
  | object => "object"
  | type => "type"
  | noneType => "NoneType"
  | exception kind => kind
  | sqrt => "sqrt"
  | floor => "floor"
  | ceil => "ceil"
  | gcd => "gcd"
  | log => "log"
  | log2 => "log2"
  | log10 => "log10"
  | fabs => "fabs"
  | isqrt => "isqrt"
  | factorial => "factorial"
  | mathPow => "pow"
  | deque => "deque"
  | defaultdict => "defaultdict"
  | heappush => "heappush"
  | heappop => "heappop"
  | heapify => "heapify"

/-- Whether this is a class. -/
def isType : Builtin → Bool
  | int | float | str | bool | list | dict | set | tuple | object | type | noneType | range | deque
  | defaultdict | exception _ => true
  | _ => false

/-- The functions and types that need no import. -/
def global : List Builtin :=
  [print, input, len, range, abs, min, max, sum, sorted, reversed, enumerate, zip, map, filter, any,
    all, round, repr, isinstance, hasattr, getattr, ord, chr, divmod, pow, hex, bin, oct, format,
    super, int, float, str, bool, list, dict, set, tuple, object, type]

/-- What a name means where the program has not bound it. -/
def lookup? (name : String) : Option Builtin :=
  match global.find? (·.name == name) with
  | some b => some b
  | none => if exceptionKinds.contains name then some (exception name) else none

theorem name_of_lookup? {name : String} {b : Builtin} (h : lookup? name = some b) :
    b.name = name := by
  unfold lookup? at h
  split at h
  · next b' hb =>
    cases h
    simpa using List.find?_some hb
  · split at h <;> simp_all [Builtin.name]
    cases h
    rfl

end Builtin

end StepTrace
