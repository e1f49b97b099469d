import StepTrace.Eval.Sorting

/-!
Arguments of calls: binding them to the parameters of a function of the program, and what built-in
functions and methods expect of theirs.
-/

set_option autoImplicit false

namespace StepTrace

open Run

/-- Keyword arguments in the order in which they are given. -/
abbrev Keywords := List (String × Value)

namespace FunctionObject

/-- The parameters that have values so far, with one more keyword argument. -/
def fillKeyword (f : FunctionObject) (slots : List (Option Value)) (kw : String × Value) :
    Except Fault (List (Option Value)) :=
  match f.params.findIdx? (· == kw.1) with
  | none => .error (.unexpectedKeyword f.name kw.1)
  | some i =>
    if (slots[i]?.join).isSome then .error (.repeatedArgument f.name kw.1)
    else .ok (slots.set i (some kw.2))

/-- The default of the parameter at a place. -/
def default? (f : FunctionObject) (i : Nat) : Option Value :=
  let first := f.params.length - f.defaults.length
  if first ≤ i then f.defaults[i - first]? else none

/-- The values of the parameters: positional arguments, keyword arguments, defaults. -/
def bind (f : FunctionObject) (args : List Value) (keywords : Keywords) :
    Except Fault Namespace := do
  if f.params.length < args.length then
    throw (.tooManyArguments f.name f.params.length f.defaults.length args.length)
  let slots := args.map some ++ List.replicate (f.params.length - args.length) none
  let slots ← keywords.foldlM f.fillKeyword slots
  let filled := slots.mapIdx fun i slot => slot.orElse fun _ => f.default? i
  let bound := f.params.zip filled
  let missing := (bound.filter (·.2.isNone)).map Prod.fst
  if missing.isEmpty then return .ofList (bound.map fun (p, v) => (p, v.getD .none))
  else throw (.missingArguments f.name missing)

end FunctionObject

namespace Keywords

/-- The keyword arguments that are left when those with some names are taken, each once. -/
def without (names : List String) (keywords : Keywords) : Keywords :=
  names.foldl (fun kws name => kws.eraseP (·.1 == name)) keywords

/-- Refuses keyword arguments that are left. -/
def finish (name : String) : Keywords → Run Unit
  | [] => return
  | (keyword, _) :: _ => fault (.unexpectedKeyword name keyword)

end Keywords

/-- Refuses a wrong number of arguments. -/
def arity (name : String) (args : List Value) (low : Nat) (high : Option Nat) : Run Unit :=
  if low ≤ args.length ∧ high.all (args.length ≤ ·) then return
  else fault (.arity name low high args.length)

def intArgument (v : Value) : Run Int64 :=
  match v.int? with
  | some n => return n
  | none => faultOn fun h => .notAnInteger (h.typeName v)

def numberArgument (name : String) (v : Value) : Run Float :=
  match v.float? with
  | some f => return f
  | none => faultOn fun h =>
    .type (name ++ "() argument must be a real number, not " ++ Fault.mark (h.typeName v))

/-- The integer that an argument of a method has to be. -/
def intParameter (method : String) (v : Value) : Run Int64 :=
  match v.int? with
  | some n => return n
  | none => faultOn fun h =>
    .type (method ++ "() argument must be int, not " ++ Fault.mark (h.typeName v))

/-- The integer that an argument of a method has to be, unless it is missing. -/
def intParameter? (method : String) : Option Value → Run (Option Int64)
  | none | some .none => return none
  | some v => some <$> intParameter method v

def textParameter (method : String) (v : Value) : Run (List Char) :=
  match v with
  | .str s => return s.toList
  | other => faultOn fun h => .type (method ++ "() argument must be str, not " ++ h.typeName other)

def setOf : List Value → SetObject → Run SetObject
  | [], s => return s
  | v :: rest, s => do setOf rest (s.insertNew (← keyOf v) v)

/-- A dictionary with the entries of pairs added, `i` of which have come before. -/
def addPairs (r : Interp) : List Value → Nat → DictObject → Run DictObject
  | [], _, d => return d
  | pair :: rest, i, d => do
    match (← r.collect pair).toList with
    | [key, value] => addPairs r rest (i + 1) (d.insert (← keyOf key) key value)
    | parts =>
      fault (.value ("dictionary update sequence element #" ++ toString i ++ " has length " ++
        toString parts.length ++ "; 2 is required"))

/-- A dictionary with the entries of another one, or of an iterable of pairs, added. -/
def addEntries (r : Interp) (d : DictObject) (source : Value) : Run DictObject := do
  match ← deref? source with
  | some (.dict e) => return d.union e
  | _ =>
    let pairs ← r.collect source
    addPairs r pairs.toList 0 d

def addKeywords (d : DictObject) (keywords : Keywords) : DictObject :=
  keywords.foldl (fun d (k, v) => d.insert (.str k) (.str k) v) d

end StepTrace
