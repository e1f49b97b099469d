import StepTrace.Eval.Statement
import StepTrace.Grammar.Statement
import StepTrace.ListTracking

/-!
Traced runs of programs.
-/

set_option autoImplicit false

namespace StepTrace

def SyntaxError.toFault (e : SyntaxError) : Fault := ⟨.program e.loc.line, e.cause.message⟩

/-- What a run leaves behind, unless it has run out of fuel. -/
def rawTrace? (m : EStateM.Result Stop Machine Unit) : Option RawTrace :=
  match m with
  | .ok () m => some ⟨m.finish.steps.toList, false⟩
  | .error .needsInput m => some ⟨m.steps.toList, true⟩
  | .error .halted m => some ⟨m.steps.toList, false⟩
  | .error (.fault f) m => some ⟨m.steps.toList ++ [.failure f.describe m.output], false⟩
  | .error .outOfFuel _ => none

def traceProgram? (fuel : Nat) (config : Config) (p : Program) (inputs : List String) :
    Option RawTrace :=
  rawTrace? (runProgram fuel p (.start config inputs))

/-- Runs the text of a program with some fuel and traces it. -/
def trace? (fuel : Nat) (config : Config) (source : String) (inputs : List String) :
    Option RawTrace :=
  match parseProgram source with
  | .ok p => traceProgram? fuel config (trackBlock p) inputs
  | .error e => some ⟨[.failure e.toFault.describe ""], false⟩

/-- More fuel than a run can spend. -/
def ampleFuel : Nat := 0x1000000000000000

/-- Runs the text of a program and traces it. -/
def trace (config : Config) (source : String) (inputs : List String) : RawTrace :=
  (trace? ampleFuel config source inputs).getD ⟨[], false⟩

end StepTrace
