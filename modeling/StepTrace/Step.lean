import StepTrace.Json.Read
import StepTrace.Ordered
import StepTrace.Snapshot

/-!
What a traced run leaves behind: a step for every statement that was about to run, with the output
so far, the variables in sight and the accesses to tracked lists since the step before. A record is
read from an object, whose unknown members do not count, or from an array of its fields in order.
-/

set_option autoImplicit false

namespace StepTrace

inductive AccessKind
  | read | write
deriving DecidableEq, Repr

def AccessKind.name : AccessKind → String
  | read => "read"
  | write => "write"

def AccessKind.ofName? : String → Option AccessKind
  | "read" => some read
  | "write" => some write
  | _ => none

/-- An element access; the index may lie outside if the access failed. -/
structure Access where
  kind : AccessKind
  container : String
  index : Int
deriving DecidableEq, Repr

/-- A variable; only lists have an id. -/
structure Binding where
  typeName : String
  value : Snapshot
  id : Option String

structure Step where
  line : Nat
  output : String
  bindings : Ordered String Binding
  accesses : List Access
  explanation : String

/-- The explanation of the step after the last statement. -/
def Step.finished : String := "Execution Finished"

def Step.atLine (line : Nat) : String := "Line " ++ toString line

/-- The step that reports an error. -/
def Step.failure (message output : String) : Step :=
  ⟨0, output, .empty, [], "Error: " ++ message⟩

def Step.isFailure (s : Step) : Bool := s.explanation.startsWith "Error:"

/-- The steps of a run, the last one possibly a failure, and whether it waits for input. -/
structure RawTrace where
  steps : List Step
  needsInput : Bool

/-- The steps of a run, and how it ended. -/
structure Trace where
  steps : List Step
  error : Option String
  needsInput : Bool

/-- The trace of a run that failed before its first step. -/
def Trace.failed (message : String) : Trace := ⟨[], some message, false⟩

/-! ### Documents -/

def Access.toJson (a : Access) : Json :=
  .obj [("kind", .str a.kind.name), ("containerId", .str a.container), ("index", .int a.index)]

def Binding.toJson (b : Binding) : Json :=
  let id := match b.id with
    | some id => [("id", Json.str id)]
    | none => []
  .obj ([("type", .str b.typeName), ("value", b.value.toJson)] ++ id)

def Step.toJson (s : Step) : Json :=
  .obj [("line", .int s.line), ("stdout", .str s.output),
    ("variables", .obj (s.bindings.toList.map fun (name, b) => (name, b.toJson))),
    ("accesses", .arr (s.accesses.map Access.toJson)), ("explanation", .str s.explanation)]

def RawTrace.toJson (t : RawTrace) : Json :=
  .obj [("steps", .arr (t.steps.map Step.toJson)), ("needsInput", .bool t.needsInput)]

def Trace.toJson (t : Trace) : Json :=
  let error := match t.error with
    | some e => [("error", Json.str e)]
    | none => []
  .obj ([("steps", .arr (t.steps.map Step.toJson))] ++ error ++
    (if t.needsInput then [("needsInput", .bool true)] else []))

/-! ### Reading steps from documents -/

namespace Json

/-- The members of an object under some names, or the items of an array in their place. -/
def record? (names : List String) : Json → Option (List (Option Json))
  | obj members => names.mapM fun name =>
      match members.filter (·.1 == name) with
      | [] => some none
      | [(_, j)] => some (some j)
      | _ => none
  | arr items =>
    if items.length ≤ names.length then
      some (items.map some ++ List.replicate (names.length - items.length) none)
    else none
  | _ => none

/-- A field that may be missing; one that is given has to be read. -/
def optional? {α : Type} (fallback : α) (read? : Json → Option α) : Option Json → Option α
  | none => some fallback
  | some j => read? j

/-- The items of an array, all of which have to be read. -/
def items? {α : Type} (read? : Json → Option α) (j : Json) : Option (List α) := do
  (← j.arr?).mapM read?

end Json

def AccessKind.ofJson? : Json → Option AccessKind
  | .str s => ofName? s
  | .obj [(s, .null)] => ofName? s
  | _ => none

def Access.ofJson? (j : Json) : Option Access := do
  let [some kind, some container, some index] ← j.record? ["kind", "containerId", "index"] | none
  return ⟨← AccessKind.ofJson? kind, ← container.str?, (← index.word?).toInt⟩

def idOfJson? : Json → Option (Option String)
  | .null => some none
  | .str s => some (some s)
  | _ => none

def Binding.ofJson? (j : Json) : Option Binding := do
  let [some typeName, some value, id] ← j.record? ["type", "value", "id"] | none
  return ⟨← typeName.str?, .ofJson value.merged, ← Json.optional? none idOfJson? id⟩

/-- Variables; of several with one name the last counts. -/
def bindingsOfJson? : Json → Option (Ordered String Binding)
  | .obj members => do
    return .ofList (← members.mapM fun (name, j) => do return (name, ← Binding.ofJson? j))
  | _ => none

def Step.ofJson? (j : Json) : Option Step := do
  let [some line, some output, some bindings, accesses, some explanation] ←
    j.record? ["line", "stdout", "variables", "accesses", "explanation"] | none
  let accesses ← Json.optional? [] (Json.items? Access.ofJson?) accesses
  return ⟨← line.nat?, ← output.str?, ← bindingsOfJson? bindings, accesses,
    ← explanation.str?⟩

def RawTrace.ofJson? (j : Json) : Option RawTrace := do
  let [some steps, needsInput] ← j.record? ["steps", "needsInput"] | none
  return ⟨← Json.items? Step.ofJson? steps, ← Json.optional? false Json.bool? needsInput⟩

end StepTrace
