import StepTrace.Eval.Method.Container
import StepTrace.Text.Casing
import StepTrace.Text.Letter

/-!
The methods of strings.
-/

set_option autoImplicit false

namespace StepTrace

open Run

namespace Text

/-- Zeros in front of a text, after its sign, up to a width. -/
def padNumber (width : Nat) (cs : List Char) : List Char :=
  let zeros := List.replicate (width - cs.length) '0'
  match cs with
  | '+' :: rest => '+' :: zeros ++ rest
  | '-' :: rest => '-' :: zeros ++ rest
  | cs => zeros ++ cs

/-- How `n` characters are shared out between both sides of a text that fills up `width`. -/
def centerPadding (n width : Nat) : Nat × Nat :=
  let left := n / 2 + (if n % 2 = 1 ∧ width % 2 = 1 then 1 else 0)
  (left, n - left)

/-- Whether a text has letters of one case only. -/
def hasOnly (wanted other : Char → Bool) (cs : List Char) : Bool :=
  cs.any wanted && !cs.any other

/-- A limit for cuts or replacements; negative ones mean none. -/
def limit (n : Option Int64) : Option Nat :=
  match n with
  | some n => if n < 0 then none else some n.toInt.toNat
  | none => none

end Text

namespace Interp

open Text

def text (cs : List Char) : Value := .str (String.ofList cs)

/-- The texts of values that all have to be strings, `i` of which have come before. -/
def joinable : (i : Nat) → List Value → Run (List (List Char))
  | _, [] => return []
  | i, v :: rest => do
    match v with
    | .str s => return s.toList :: (← joinable (i + 1) rest)
    | other =>
      faultOn fun h => .type ("sequence item " ++ toString i ++ ": expected str instance, " ++
        h.typeName other ++ " found")

/-- The texts that an argument stands for: one, or those of a tuple. -/
def affixes (name : String) (v : Value) : Run (List (List Char)) := do
  match ← deref? v with
  | some (.tuple items) => items.toList.mapM (textParameter name)
  | _ => return [← textParameter name v]

def fillCharacter (name : String) : Option Value → Run Char
  | none => return ' '
  | some v => do
    match ← textParameter name v with
    | [c] => return c
    | _ => fault (.type "The fill character must be exactly one character long")

/-- Cuts a text into pieces. -/
def splitMethod (cs : List Char) (args : List Value) (keywords : Keywords) : Run Value := do
  arity "split" args 0 (some 2)
  let separator := (keywords.lookup "sep").orElse fun _ => args[0]?
  let cuts := (keywords.lookup "maxsplit").orElse fun _ => args[1]?
  (keywords.without ["sep", "maxsplit"]).finish "split"
  let cuts := limit (← intParameter? "split" cuts)
  let pieces ← match separator with
    | none | some .none => pure (words cuts cs)
    | some v => do
      let needle ← textParameter "split" v
      if needle.isEmpty then fault (.value "empty separator") else pure (cut needle cuts cs)
  allocList (pieces.map text).toArray

/-- Looks for a text between two positions. -/
def findMethod (cs : List Char) (name : String) (args : List Value) : Run Value := do
  arity name args 1 (some 3)
  let needle ← textParameter name (argument args 0)
  let lower ← intParameter? name args[1]?
  let upper ← intParameter? name args[2]?
  let slice ← sliceOf cs.length ⟨lower, upper, none⟩
  let seen := (cs.drop slice.start.toNat).take slice.count
  if name = "count" then return .int (Int64.ofNat (Text.count needle seen))
  match if name = "rfind" then findLast? needle seen else find? needle seen with
  | some i => return .int (Int64.ofInt (slice.start + i))
  | none =>
    if name = "index" then fault (.value "substring not found") else return .int (-1)

/-- Fills a text up to a width. -/
def fillMethod (cs : List Char) (name : String) (args : List Value) : Run Value := do
  arity name args 1 (some (if name = "zfill" then 1 else 2))
  let width := (← intParameter name (argument args 0)).toInt.toNat
  if name = "zfill" then return text (padNumber width cs)
  let fill ← fillCharacter name args[1]?
  let gap := width - cs.length
  let (left, right) := match name with
    | "center" => if gap = 0 then (0, 0) else centerPadding gap width
    | "ljust" => (0, gap)
    | _ => (gap, 0)
  return text (List.replicate left fill ++ cs ++ List.replicate right fill)

/-- Removes characters at the ends. -/
def stripMethod (cs : List Char) (name : String) (args : List Value) : Run Value := do
  arity name args 0 (some 1)
  let given : Option Value := args[0]?
  let strip ← match given with
    | none | some .none => pure isBlank
    | some v => do
      let chars ← textParameter name v
      pure (chars.contains ·)
  return text <| match name with
    | "strip" => trimWhile strip cs
    | "lstrip" => cs.dropWhile strip
    | _ => dropEndWhile strip cs

def plainMethod (s : String) (name : String) : Run Value := do
  let cs := s.toList
  let all := fun (p : Char → Bool) => Value.bool (!cs.isEmpty && cs.all p)
  match name with
  | "upper" => return .str (upper s)
  | "lower" => return .str (lower s)
  | "title" => return text (titleFrom isLetter false cs)
  | "capitalize" => return .str (capitalize s)
  | "splitlines" => allocList ((lines s).map Value.str).toArray
  | "isdigit" => return all Char.isDigit
  | "isalpha" => return all isLetter
  | "isalnum" => return all isLetterOrDigit
  | "isspace" => return all isBlank
  | "isupper" => return .bool (hasOnly isUpper isLower cs)
  | _ => return .bool (hasOnly isLower isUpper cs)

def textMethod (r : Interp) (s : String) (name : String) (args : List Value)
    (keywords : Keywords) : Run Value := do
  let cs := s.toList
  if name = "format" then return .str (← check ((← heap).formatBraces s args keywords))
  if name = "split" then return ← splitMethod cs args keywords
  keywords.finish name
  match name with
  | "upper" | "lower" | "title" | "capitalize" | "splitlines" | "isdigit" | "isalpha" | "isalnum"
  | "isspace" | "isupper" | "islower" =>
    arity name args 0 (some 0)
    plainMethod s name
  | "strip" | "lstrip" | "rstrip" => stripMethod cs name args
  | "join" =>
    arity name args 1 (some 1)
    let items ← r.collect (argument args 0)
    let parts ← joinable 0 items.toList
    return text (cs.intercalate parts)
  | "replace" =>
    arity name args 2 (some 3)
    let old ← textParameter name (argument args 0)
    let new ← textParameter name (argument args 1)
    let count ← intParameter? name args[2]?
    return text (Text.replace old new (limit count) cs)
  | "startswith" | "endswith" =>
    arity name args 1 (some 1)
    let given ← affixes name (argument args 0)
    return .bool (given.any fun a =>
      if name = "startswith" then a.isPrefixOf cs else a.isSuffixOf cs)
  | "find" | "rfind" | "index" | "count" => findMethod cs name args
  | "center" | "ljust" | "rjust" | "zfill" => fillMethod cs name args
  | _ => noMethod "str" name

def builtinMethod (r : Interp) (receiver : Value) (name : String) (args : List Value)
    (keywords : Keywords) : Run Value := do
  match receiver with
  | .str s => r.textMethod s name args keywords
  | receiver =>
    let h ← heap
    let typeName := h.typeName receiver
    if !(builtinMethods typeName).contains name then noMethod typeName name
    else
      match receiver, h.deref? receiver with
      | .ref id, some (.list _) => r.listMethod id name args keywords
      | .ref id, some (.dict _) => r.dictMethod id name args keywords
      | .ref id, some (.set _) => r.setMethod id name args keywords
      | .ref id, some (.deque _) => r.dequeMethod id name args keywords
      | .ref _, some (.tuple items) =>
        keywords.finish name
        r.searchMethod items "tuple" name args
      | _, _ => noMethod typeName name

end Interp

end StepTrace
