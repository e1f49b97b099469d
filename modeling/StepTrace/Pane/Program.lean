import StepTrace.Pane.Highlight
import StepTrace.Pane.Window
import StepTrace.Text.Cuts

/-!
The pane of the program. The current line is marked and kept in the same row as far as possible.
-/

set_option autoImplicit false

namespace StepTrace.Pane

open Screen (Box Color Line Span Style)

/-- Why a line is the current one. -/
inductive Mark
  | current
  /-- The run waits for input here. -/
  | input
  /-- The run failed here. -/
  | error
deriving DecidableEq, Repr

def Mark.numberStyle : Mark → Style
  | error => { Style.ink Theme.error with bold := true }
  | _ => { Style.ink Theme.secondary with bold := true }

/-- The current line with its mark: its own colors on a bar, or the bar alone. -/
def Mark.cover (m : Mark) (s : Span) : Span :=
  let bar := fun color =>
    { s with style := { foreground := some .black, background := some color, bold := true } }
  match m with
  | current => { s with style := (Style.paper Theme.highlight).onto s.style }
  | input => bar Theme.secondary
  | error => bar Theme.error

structure ProgramScroll where
  offset : Nat := 0
  /-- The row that the current line is kept in; it is chosen when the pane is first drawn. -/
  row : Option Nat := none
deriving DecidableEq, Repr

/--
Scrolls so that the current line of `count` lines is in its row; near the ends the pane stays full.
A line that is not there does not scroll.
-/
def ProgramScroll.follow (s : ProgramScroll) (count visible current : Nat) : ProgramScroll :=
  let row := min (s.row.getD (visible / 2)) (visible - 1)
  { row := some row
    offset :=
      if 0 < current ∧ current ≤ count then clampOffset (current - 1 - row) count visible
      else s.offset }

/-- A number at the end of four places. -/
def lineNumber (n : Nat) : String :=
  let digits := toString n
  "".pushn ' ' (4 - digits.length) ++ digits ++ " "

def programLine (current : Nat) (mark : Mark) (line : String) (number : Nat) : Line :=
  let spans := Highlight.code line
  if number = current then ⟨⟨lineNumber number, mark.numberStyle⟩ :: spans.map mark.cover, {}⟩
  else ⟨⟨lineNumber number, .ink Theme.comment⟩ :: spans, {}⟩

/-- The program with its current line, and where it is scrolled to then. -/
def program (width height : Nat) (focused : Bool) (source : String) (current : Nat) (mark : Mark)
    (scroll : ProgramScroll) : Drawing × ProgramScroll :=
  let b : Box := ⟨width, height, " Source ", borderStyle focused⟩
  let lines := Text.lines source
  let visible := visibleRows height
  let scroll := scroll.follow lines.length visible current
  let shown := ((lines.zipIdx 1).drop scroll.offset).take visible
  let rows := shown.map fun (line, number) =>
    (programLine current mark line number).cells b.innerWidth
  (⟨b.draw rows, scroll.offset⟩, scroll)

end StepTrace.Pane
