import StepTrace.Eval.Method.Text

/-!
The functions and types that every program has, and those of the modules it can import.
-/

set_option autoImplicit false

namespace StepTrace

open Run

/-- The keyword arguments that a built-in function takes. -/
def Builtin.keywords : Builtin → List String
  | print => ["sep", "end", "flush"]
  | min | max => ["key", "default"]
  | sum | enumerate => ["start"]
  | sorted => ["key", "reverse"]
  | round => ["ndigits"]
  | int => ["base"]
  | _ => []

namespace Interp

/-! ### Texts -/

def textOr (fallback : String) : Option Value → Run String
  | none | some .none => return fallback
  | some (.str s) => return s
  | some other => faultOn fun h => .type ("must be str or None, not " ++ h.typeName other)

/-- The texts of values as printed. -/
def displayAll (r : Interp) : List Value → Run (List String)
  | [] => return []
  | v :: rest => do return (← r.display v) :: (← r.displayAll rest)

def printValues (r : Interp) (args : List Value) (keywords : Keywords) : Run Value := do
  let separator ← textOr " " (keywords.lookup "sep")
  let ending ← textOr "\n" (keywords.lookup "end")
  let texts ← r.displayAll args
  print (separator.intercalate texts ++ ending)
  return .none

/-- The message that the arguments of an exception make. -/
def messageOf (r : Interp) (args : List Value) : Run String := do
  match args with
  | [] => return ""
  | [v] => r.display v
  | many => r.display (← allocTuple many.toArray)

/-- The character code of a text of one character. -/
def codeOf (v : Value) : Run Value := do
  match v with
  | .str s =>
    match s.toList with
    | [c] => return .int (Int64.ofNat c.toNat)
    | cs =>
      fault (.type ("ord() expected a character, but string of length " ++ toString cs.length ++
        " found"))
  | other =>
    faultOn fun h => .type ("ord() expected string of length 1, but " ++ h.typeName other ++
      " found")

/-- The text of one character with a code. -/
def characterOf (v : Value) : Run Value := do
  match FormatSpec.character? (← intArgument v) with
  | some c => return .str (String.singleton c)
  | none => fault (.value "chr() arg not in range(0x110000)")

/-- An integer in a base, with its mark. -/
def inBase (base : Nat) (mark : List Char) (v : Value) : Run Value := do
  let n ← intArgument v
  let sign := if n < 0 then ['-'] else []
  return text (sign ++ mark ++ Nat.toDigits base n.toInt.natAbs)

def formatValue (r : Interp) (v : Value) (spec : Option Value) : Run Value := do
  match spec with
  | none | some (.str "") => return .str (← r.display v)
  | some (.str s) => return .str (← check ((← heap).format v s))
  | some other =>
    faultOn fun h => .type ("format() argument 2 must be str, not " ++ h.typeName other)

/-! ### Numbers from texts -/

def baseMark : Nat → List Char
  | 16 => ['0', 'x']
  | 8 => ['0', 'o']
  | 2 => ['0', 'b']
  | _ => []

/-- Whether underscores stand between digits only. -/
def goodUnderscores (cs : List Char) : Bool :=
  !cs.isEmpty && cs.head? != some '_' && cs.getLast? != some '_' &&
    (Text.find? ['_', '_'] cs).isNone

/--
The integer that a text in a base means: white space around it, a sign, the mark of the base and
underscores between digits are allowed.
-/
def readInteger? (base : Nat) (s : String) : Option Int64 := do
  let cs := (Text.trim s).toList
  let (negative, cs) := match cs with
    | '-' :: rest => (true, rest)
    | '+' :: rest => (false, rest)
    | cs => (false, cs)
  let cs := cs.map Char.toLower
  let mark := baseMark base
  let cs := if mark.isEmpty then cs else (Text.after? mark cs).getD cs
  if !goodUnderscores cs then none
  let size ← Number.readWord? base (cs.filter (· != '_'))
  if negative then Number.ofInt? (-size.toInt) else some size

/-- The number that a text means; underscores are passed over, but not two in a row. -/
def readFloat? (s : String) : Option Float :=
  let cs := (Text.trim s).toList
  if cs.isEmpty || (Text.find? ['_', '_'] cs).isSome then none
  else Number.float? (cs.filter (· != '_'))

/-- `int(…)` -/
def toInt (args : List Value) (keywords : Keywords) : Run Value := do
  arity "int" args 0 (some 2)
  let base := (keywords.lookup "base").orElse fun _ => args[1]?
  match args, base with
  | [], _ => return .int 0
  | .str s :: _, base => do
    let base ← match base with
      | some b => intArgument b
      | none => pure 10
    if base < 2 || 36 < base then fault (.value "int() base must be >= 2 and <= 36")
    match readInteger? base.toInt.toNat s with
    | some n => return .int n
    | none =>
      fault (.value ("invalid literal for int() with base " ++ toString base.toInt ++ ": " ++
        Text.quoted s))
  | _ :: _, some _ => fault (.type "int() can't convert non-string with explicit base")
  | .float f :: _, none => return .int (← check (Arithmetic.toInteger (Number.truncate f)))
  | v :: _, none =>
    match v.int? with
    | some n => return .int n
    | none =>
      faultOn fun h => .type
        ("int() argument must be a string, a bytes-like object or a real number, not " ++
          Fault.mark (h.typeName v))

/-- `float(…)` -/
def toFloat (args : List Value) : Run Value := do
  arity "float" args 0 (some 1)
  match args with
  | [] => return .float 0.0
  | .str s :: _ =>
    match readFloat? s with
    | some f => return .float f
    | none => fault (.value ("could not convert string to float: " ++ Text.quoted s))
  | v :: _ => return .float (← numberArgument "float" v)

/-! ### Numbers -/

def absolute (v : Value) : Run Value := do
  match v with
  | .float f => return .float f.abs
  | v =>
    match v.int? with
    | some n => return .int (← check (Arithmetic.exact n.toInt.natAbs))
    | none =>
      faultOn fun h => .type ("bad operand type for abs(): " ++ Fault.mark (h.typeName v))

/-- A number rounded to a number of places that has been read. -/
def roundedTo (v : Value) (places : Option Int64) : Run Value := do
  match v, places with
  | .float f, none => return .int (← check (Arithmetic.toInteger (Number.roundEven f)))
  | .float f, some p => return .float (Arithmetic.roundPlaces f p)
  | v, places =>
    match v.int?, places with
    | some n, some p =>
      if p < 0 then return .int (← check (Arithmetic.roundTo n (-p.toInt).toNat))
      else return .int n
    | some n, none => return .int n
    | none, _ =>
      faultOn fun h => .type ("type " ++ h.typeName v ++ " doesn't define __round__ method")

/-- A number rounded, to decimal places if these are given. -/
def rounded (v : Value) (places : Option Value) : Run Value := do
  let places ← match places with
    | none | some .none => pure none
    | some p => some <$> intArgument p
  roundedTo v places

def quotientAndRemainder (a b : Value) : Run Value := do
  if !a.isNumber || !b.isNumber then
    faultOn fun h => .operands "divmod()" (h.typeName a) (h.typeName b)
  else
    let (q, m) ← check (Arithmetic.divMod a b)
    allocTuple #[q, m]

/-- The greatest common divisor of integers, the one so far being `acc`. -/
def commonDivisor (acc : Int64) : List Value → Run Value
  | [] => return .int acc
  | v :: rest => do
    let n ← intArgument v
    commonDivisor (← check (Arithmetic.exact (Nat.gcd acc.toInt.natAbs n.toInt.natAbs))) rest

def logarithm (b : Builtin) (args : List Value) : Run Value := do
  arity b.name args 1 (some (if b = .log then 2 else 1))
  let x ← numberArgument b.name (argument args 0)
  if x <= 0.0 then fault .mathDomain
  match b, args[1]? with
  | .log2, _ => return .float x.log2
  | .log10, _ => return .float x.log10
  | _, some base => do
    let base ← numberArgument b.name base
    if base <= 0.0 || base == 1.0 then fault .mathDomain
    return .float (x.log / base.log)
  | _, none => return .float x.log

/-- The root raised while the square of the next one is not above `n`. -/
def raiseRoot (n : Nat) : (fuel : Nat) → (root : Nat) → Run Nat
  | 0, _ => outOfFuel
  | fuel + 1, root =>
    if Arithmetic.cappedSquare (root + 1) ≤ n then raiseRoot n fuel (root + 1) else return root

/-- The integer square root of `n`, corrected from an estimate. -/
def correctedRoot (r : Interp) (n estimate : Nat) : Run Nat :=
  raiseRoot n r.fuel (Arithmetic.lowerRoot n estimate)

/-- The integer square root of a number that is not negative. -/
def squareRoot (r : Interp) (n : Int64) : Run Value := do
  let estimate := Number.toWord (Number.ofWord n).sqrt
  return .int (Int64.ofNat (← r.correctedRoot n.toInt.toNat estimate.toInt.toNat))

def mathFunction (r : Interp) (b : Builtin) (args : List Value) : Run Value := do
  let name := b.name
  match b with
  | .sqrt =>
    arity name args 1 (some 1)
    let x ← numberArgument name (argument args 0)
    if x < 0.0 then fault .mathDomain else return .float x.sqrt
  | .floor | .ceil =>
    arity name args 1 (some 1)
    match (argument args 0).int? with
    | some n => return .int n
    | none =>
      let x ← numberArgument name (argument args 0)
      return .int (← check (Arithmetic.toInteger (if b = .floor then x.floor else x.ceil)))
  | .gcd => commonDivisor 0 args
  | .fabs =>
    arity name args 1 (some 1)
    return .float (← numberArgument name (argument args 0)).abs
  | .isqrt =>
    arity name args 1 (some 1)
    let n ← intArgument (argument args 0)
    if n < 0 then fault (.value "isqrt() argument must be nonnegative")
    r.squareRoot n
  | .factorial =>
    arity name args 1 (some 1)
    let n ← intArgument (argument args 0)
    if n < 0 then fault (.value "factorial() not defined for negative values")
    return .int (← check (Arithmetic.factorial n.toInt.toNat))
  | .mathPow =>
    arity name args 2 (some 2)
    let x ← numberArgument name (argument args 0)
    let y ← numberArgument name (argument args 1)
    return .float (x.pow y)
  | _ => logarithm b args

/-! ### Sequences -/

/-- Adds up values from a start. -/
def total (r : Interp) (acc : Value) : List Value → Run Value
  | [] => return acc
  | v :: rest => do r.total (← r.binary .add acc v) rest

/-- Pairs each item with its number, after the pairs that are there already. -/
def numbered (n : Int64) (out : Array Value) : List Value → Run (Array Value)
  | [] => return out
  | v :: rest => do numbered (n + 1) (out.push (← allocTuple #[.int n, v])) rest

/-- The items of several values. -/
def collectAll (r : Interp) : List Value → Run (List (Array Value))
  | [] => return []
  | v :: rest => do return (← r.collect v) :: (← r.collectAll rest)

/-- The `i`-th items of several columns. -/
def row (columns : List (Array Value)) (i : Nat) : List Value :=
  columns.map (·.getD i .none)

/-- The length of the shortest column. -/
def rowCount (columns : List (Array Value)) : Nat :=
  ((columns.map Array.size).min?).getD 0

/-- What `make` makes of `count` rows, the `i`-th being the next. -/
def eachRow (make : List Value → Run Value) (columns : List (Array Value)) :
    (count i : Nat) → Array Value → Run (Array Value)
  | 0, _, out => return out
  | count + 1, i, out => do
    eachRow make columns count (i + 1) (out.push (← make (row columns i)))

/-- The items for which a function gives a true value, or that are true themselves. -/
def kept (r : Interp) (f : Value) (out : Array Value) : List Value → Run (Array Value)
  | [] => return out
  | v :: rest => do
    let answer ← if f.isNone then pure v else r.call f [v] []
    r.kept f (if (← heap).truthy answer then out.push v else out) rest

def rangeOf (start stop step : Int64) : Run Value :=
  if step = 0 then fault (.value "range() arg 3 must not be zero")
  else alloc (.range ⟨start, stop, step⟩)

/-- The integers from a start to a stop. -/
def makeRange (args : List Value) : Run Value := do
  arity "range" args 1 (some 3)
  match ← args.mapM intArgument with
  | [stop] => rangeOf 0 stop 1
  | [start, stop] => rangeOf start stop 1
  | [start, stop, step] => rangeOf start stop step
  | _ => rangeOf 0 0 1

/-- The items of the argument of a type, if there is one. -/
def itemsOfArgument (r : Interp) (args : List Value) : Run (Array Value) :=
  match args with
  | v :: _ => r.collect v
  | [] => return #[]

def sequenceFunction (r : Interp) (b : Builtin) (args : List Value) (keywords : Keywords) :
    Run Value := do
  let name := b.name
  match b with
  | .sum =>
    arity name args 1 (some 2)
    let start := ((keywords.lookup "start").orElse fun _ => args[1]?).getD (.int 0)
    if start.str?.isSome then fault (.type "sum() can't sum strings [use ''.join(seq) instead]")
    let items ← r.collect (argument args 0)
    r.total start items.toList
  | .sorted =>
    arity name args 1 (some 1)
    (keywords.without b.keywords).finish name
    let items ← r.collect (argument args 0)
    let reverse := (keywords.lookup "reverse").any (← heap).truthy
    allocList (← r.sorted items (keywords.lookup "key") reverse)
  | .reversed =>
    arity name args 1 (some 1)
    allocList (← r.collect (argument args 0)).reverse
  | .enumerate =>
    arity name args 1 (some 2)
    let start ← match (keywords.lookup "start").orElse fun _ => args[1]? with
      | some v => intArgument v
      | none => pure 0
    let items ← r.collect (argument args 0)
    allocList (← numbered start #[] items.toList)
  | .zip =>
    let columns ← r.collectAll args
    allocList (← eachRow (fun row => allocTuple row.toArray) columns (rowCount columns) 0 #[])
  | .map =>
    arity name args 2 none
    let columns ← r.collectAll (args.drop 1)
    allocList (← eachRow (fun row => r.call (argument args 0) row []) columns (rowCount columns)
      0 #[])
  | .filter =>
    arity name args 2 (some 2)
    let items ← r.collect (argument args 1)
    allocList (← r.kept (argument args 0) #[] items.toList)
  | .any =>
    arity name args 1 (some 1)
    let items ← r.collect (argument args 0)
    return .bool (items.any (← heap).truthy)
  | .all =>
    arity name args 1 (some 1)
    let items ← r.collect (argument args 0)
    return .bool (items.all (← heap).truthy)
  | .list =>
    arity name args 0 (some 1)
    allocList (← r.itemsOfArgument args)
  | .tuple =>
    arity name args 0 (some 1)
    allocTuple (← r.itemsOfArgument args)
  | .set =>
    arity name args 0 (some 1)
    alloc (.set (← setOf (← r.itemsOfArgument args).toList .empty))
  | .deque =>
    arity name args 0 (some 1)
    alloc (.deque (← r.itemsOfArgument args))
  | _ =>
    arity name args 0 (some 1)
    let d ← match args with
      | source :: _ => addEntries r .empty source
      | [] => pure .empty
    alloc (.dict (addKeywords d keywords))

/-! ### Objects -/

def makeDefaultDict (args : List Value) : Run Value := do
  arity "defaultdict" args 0 (some 1)
  let factory := args.head?.getD .none
  if factory.isNone || (← heap).isCallable factory then
    alloc (.dict { DictObject.empty with factory := some factory })
  else fault (.type "first argument must be callable or None")

/-- Whether a value has an attribute, or the attribute's value. -/
def attribute? (b : Builtin) (args : List Value) : Run Value := do
  arity b.name args 2 (some (if b = .getattr then 3 else 2))
  match argument args 1 with
  | .str name =>
    match (← heap).attr (argument args 0) name, b with
    | .ok found, .getattr => settle found
    | .ok found, _ => do
      let _ ← settle found
      return .bool true
    | .error f, .getattr =>
      match args[2]? with
      | some v => return v
      | none => fault f
    | .error _, _ => return .bool false
  | _ => fault (.type (b.name ++ "(): attribute name must be string"))

/-- The view of the receiver of the current method as an instance of the class above. -/
def makeSuper (args : List Value) : Run Value := do
  arity "super" args 0 (some 0)
  match (← frame).methodOf with
  | some (cls, receiver) => alloc (.super cls receiver)
  | none => fault (.raised "RuntimeError" "super(): no arguments")

def valueFunction (r : Interp) (b : Builtin) (args : List Value) (keywords : Keywords) :
    Run Value := do
  let name := b.name
  match b with
  | .input =>
    arity name args 0 (some 1)
    return .str (← nextInput)
  | .len =>
    arity name args 1 (some 1)
    return .int (Int64.ofNat (← r.length (argument args 0)))
  | .range => makeRange args
  | .abs =>
    arity name args 1 (some 1)
    absolute (argument args 0)
  | .round =>
    arity name args 1 (some 2)
    rounded (argument args 0) ((keywords.lookup "ndigits").orElse fun _ => args[1]?)
  | .repr =>
    arity name args 1 (some 1)
    return .str (← r.represent (argument args 0))
  | .isinstance =>
    arity name args 2 (some 2)
    let h ← heap
    return .bool (← check (h.isInstanceOf (argument args 0) (h.size + 2) (argument args 1)))
  | .hasattr | .getattr => attribute? b args
  | .ord =>
    arity name args 1 (some 1)
    codeOf (argument args 0)
  | .chr =>
    arity name args 1 (some 1)
    characterOf (argument args 0)
  | .divmod =>
    arity name args 2 (some 2)
    quotientAndRemainder (argument args 0) (argument args 1)
  | .pow =>
    arity name args 2 (some 3)
    match args[2]? with
    | some modulus =>
      let base ← intArgument (argument args 0)
      let exponent ← intArgument (argument args 1)
      let modulus ← intArgument modulus
      return .int (← check (Arithmetic.powMod base exponent modulus))
    | none => r.binary .pow (argument args 0) (argument args 1)
  | .hex =>
    arity name args 1 (some 1)
    inBase 16 ['0', 'x'] (argument args 0)
  | .bin =>
    arity name args 1 (some 1)
    inBase 2 ['0', 'b'] (argument args 0)
  | .oct =>
    arity name args 1 (some 1)
    inBase 8 ['0', 'o'] (argument args 0)
  | .format =>
    arity name args 1 (some 2)
    r.formatValue (argument args 0) args[1]?
  | .super => makeSuper args
  | .int => toInt args keywords
  | .float => toFloat args
  | .str =>
    arity name args 0 (some 1)
    match args with
    | v :: _ => return .str (← r.display v)
    | [] => return .str ""
  | .bool =>
    arity name args 0 (some 1)
    return .bool (args.head?.any (← heap).truthy)
  | .type =>
    arity name args 1 (some 1)
    return (← heap).typeOf (argument args 0)
  | .object => fault (.unsupported "object() instances are not supported")
  | .exception kind => do
    let message ← r.messageOf args
    alloc (.exception kind message)
  | _ => fault (.type "cannot create 'NoneType' instances")

def callBuiltin (r : Interp) (b : Builtin) (args : List Value) (keywords : Keywords) :
    Run Value := do
  let rest : Keywords := if b = .dict then [] else keywords.without b.keywords
  if b = .min || b = .max then rest.finish b.name
  let v ← match b with
    | .print => r.printValues args keywords
    | .min | .max =>
      r.extreme b.name (b = .max) args (keywords.lookup "key") (keywords.lookup "default")
    | .sum | .sorted | .reversed | .enumerate | .zip | .map | .filter | .any | .all | .list
    | .tuple | .set | .deque | .dict => r.sequenceFunction b args keywords
    | .sqrt | .floor | .ceil | .gcd | .log | .log2 | .log10 | .fabs | .isqrt | .factorial
    | .mathPow => r.mathFunction b args
    | .defaultdict => makeDefaultDict args
    | .heappush => do
      arity b.name args 2 (some 2)
      r.queuePush (argument args 0) (argument args 1)
    | .heappop => do
      arity b.name args 1 (some 1)
      r.queuePop (argument args 0)
    | .heapify => do
      arity b.name args 1 (some 1)
      r.queueMake (argument args 0)
    | b => r.valueFunction b args keywords
  rest.finish b.name
  return v

end Interp

end StepTrace
