import StepTrace.Config.Read
import StepTrace.Step
import StepTrace.Tracing

/-!
Requests for traces, and the command line that makes them. A run is written as a document, and the
trace is what is read back from it.
-/

set_option autoImplicit false

namespace StepTrace

/-- A program to trace, and the lines of input that it gets. -/
structure TraceRequest where
  source : String
  budget : StepBudget := .default
  inputs : List String := []
deriving DecidableEq, Repr

namespace TraceRequest

def resumed (q : TraceRequest) (line : String) : TraceRequest :=
  { q with inputs := q.inputs ++ [line] }

/-- The document of a run; the budget of the request replaces that of the settings. -/
def document (q : TraceRequest) (config : Config) : String :=
  (trace { config with budget := q.budget } q.source q.inputs).toJson.write

end TraceRequest

/-- Why a document gives no trace. -/
inductive DocumentError
  | empty
  | malformed
  /-- Brackets are nested too deep from a column on. -/
  | tooDeep (column : Nat)
deriving DecidableEq, Repr

def DocumentError.message : DocumentError → String
  | empty => "Execution returned no output."
  | malformed => "Execution failed: malformed trace document"
  | tooDeep column =>
    "Execution failed: malformed trace document: recursion limit exceeded at line 1 column " ++
      toString column

/-- The error of a trace without steps. -/
def noStepsMessage : String := "No execution steps captured."

/-- The trace of a run: a failure at the end becomes its error. -/
def RawTrace.finalize (t : RawTrace) : Trace :=
  match t.steps.getLast? with
  | some last =>
    if last.isFailure then ⟨t.steps.dropLast, some last.explanation, false⟩
    else ⟨t.steps, none, t.needsInput⟩
  | none => if t.needsInput then ⟨[], none, true⟩ else .failed noStepsMessage

def finalize (document : String) : Except DocumentError Trace :=
  if (Text.trim document).isEmpty then .error .empty
  else
    match Json.read document with
    | .error (.tooDeep column) => .error (.tooDeep column)
    | .error .malformed => .error .malformed
    | .ok j =>
      match RawTrace.ofJson? j with
      | some t => .ok t.finalize
      | none => .error .malformed

/-- The trace for a request; what goes wrong is reported as its error. -/
def TraceRequest.run (q : TraceRequest) (config : Config) : Trace :=
  match finalize (q.document config) with
  | .ok t => t
  | .error e => .failed e.message

/-- Whether the steps of a trace are the first steps of another one. -/
def Trace.isContinuedBy (t u : Trace) : Bool :=
  let texts := fun (t : Trace) => t.steps.map fun s => s.toJson.write
  (texts t).isPrefixOf (texts u)

/-! ### The command line -/

/-- What a command line asks for. -/
structure Options where
  /-- The file of the program. -/
  file : Option String := none
  /-- The file of the settings. -/
  settings : Option String := none
  /-- The budget as it is typed; it replaces the one of the settings. -/
  steps : Option String := none
  inputs : List String := []
deriving DecidableEq, Repr

/-- How the command line is used. -/
def usage : String :=
  "usage: run FILE [--steps N] [--input TEXT]... [--config FILE]"

namespace Options

/-- A named option with its value; there is none of another name. -/
def set? (o : Options) (name value : String) : Option Options :=
  match name with
  | "-s" | "--steps" => some { o with steps := some value }
  | "-i" | "--input" => some { o with inputs := o.inputs ++ [value] }
  | "-c" | "--config" => some { o with settings := some value }
  | _ => none

/-- Reads the arguments behind the command. -/
def read? (o : Options) : List String → Option Options
  | [] => if o.file.isSome then some o else none
  | [file] => if o.file.isNone && !file.startsWith "-" then some { o with file := file } else none
  | first :: second :: rest =>
    if first.startsWith "-" then (o.set? first second).bind (·.read? rest)
    else if o.file.isNone then { o with file := some first }.read? (second :: rest)
    else none

/-- The options of a command line. -/
def ofArgs? : List String → Option Options
  | "run" :: args => read? {} args
  | _ => none

/-- The request for a program under some settings. -/
def request (o : Options) (source : String) (c : Config) : TraceRequest where
  source := source
  budget := (o.steps.map StepBudget.ofText).getD c.budget
  inputs := o.inputs

end Options

end StepTrace
