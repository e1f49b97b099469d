import StepTrace.Request

/-!
The program: it traces a file and prints the trace.
-/

set_option autoImplicit false

open StepTrace

def report (message : String) : IO UInt32 := do
  IO.eprintln ("Error: " ++ message)
  return 1

/-- The text of a file, if it can be read. -/
def fileText? (file : String) : IO (Option String) := do
  try
    return some (← IO.FS.readFile file)
  catch _ =>
    return none

/-- The settings in a file; without a file, the settings that a run has by itself. -/
def config? : Option String → IO (Option Config)
  | none => return some {}
  | some file => return (← fileText? file).bind Config.ofToml?

def main (args : List String) : IO UInt32 := do
  let some options := Options.ofArgs? args | report usage
  let file := options.file.getD ""
  let some source ← fileText? file | report ("file '" ++ file ++ "' not found")
  let some config ← config? options.settings | report "invalid config file"
  IO.println ((options.request source config).run config).toJson.write
  return 0
