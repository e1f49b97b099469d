import StepTrace.Pane.Window
import StepTrace.Text.Cuts

/-!
The pane of the output. The error that ended a run comes last, and so does the line that is typed
while the run waits for input.
-/

set_option autoImplicit false

namespace StepTrace.Pane

open Screen (Box Line Style)

/-- The lines of the output; a newline at its end starts none. -/
def outputLines (output : String) : List String :=
  let lines := output.splitOn "\n"
  if lines.getLast? == some "" then lines.dropLast else lines

/-- The lines of an error; a text without lines counts as one. -/
def errorLines (error : String) : List Line :=
  if error.isEmpty then [.ofText ""] else (Text.lines error).map fun l => .ofText l

def inputLine (typed : String) : Line :=
  ⟨[⟨"› ", .ink Theme.secondary⟩, ⟨typed, .ink Theme.text⟩, ⟨"█", .ink Theme.secondary⟩], {}⟩

/-- The output of a run, with the text typed so far and the error where there are these. -/
def output (width height : Nat) (focused : Bool) (printed : String) (typed error : Option String)
    (offset : Nat) : Drawing :=
  let waiting := typed.isSome
  let title := if waiting then " Output (waiting for input) " else " Output "
  let b : Box := ⟨width, height, title, borderStyle (focused || waiting)⟩
  let items :=
    (outputLines printed).map (Item.ofText · (.ink Theme.text)) ++
    (error.map fun e => ⟨errorLines e, { Style.ink Theme.error with bold := true }⟩).toList ++
    (typed.map fun t => .ofLine (inputLine t)).toList
  if items.isEmpty then
    let row := fun text => (Line.ofText text).cells b.innerWidth (.ink Theme.comment)
    let blank := List.replicate (b.innerHeight - 1) (row "")
    ⟨b.draw (row "(no output)" :: blank), offset⟩
  else scrolled b items offset 1

end StepTrace.Pane
