import StepTrace.Pane.Window

/-!
The status bar: on the left the step and a message, on the right the keys and the state of the run.
-/

set_option autoImplicit false

namespace StepTrace.Pane

open Screen (Cell Color Line Span Style)

/-- What the status bar tells. -/
structure Status where
  message : String := ""
  /-- The current step, counted from zero. -/
  current : Nat := 0
  total : Nat := 0
  hasError : Bool := false
  needsInput : Bool := false
  isPlaying : Bool := false
deriving DecidableEq, Repr

namespace Status

/-- Bold black letters on a color. -/
def badge (color : Color) : Style :=
  { foreground := some .black, background := some color, bold := true }

/-- Letters in the row of the bar. -/
def plain (color : Color) : Style :=
  { foreground := some color, background := some Theme.highlight }

/-- The place among the steps, counted from one. -/
def stepText (s : Status) : String :=
  if s.total = 0 then " Step 0/0 "
  else " Step " ++ toString (s.current + 1) ++ "/" ++ toString s.total ++ " "

def stepColor (s : Status) : Color :=
  if s.hasError then Theme.error else if s.needsInput then Theme.secondary else Theme.primary

/-- The step and the message. -/
def left (s : Status) : Line where
  spans :=
    [⟨s.stepText, badge s.stepColor⟩, ⟨" | ", plain Theme.comment⟩,
      ⟨" " ++ s.message ++ " ", plain (if s.hasError then Theme.error else Theme.text)⟩]

def keys : List (String × String) :=
  [(" ←/→ ", " step "), (" ⎵ ", " play "), (" ↵/⌫ ", " end/start "), (" v ", " view "),
    (" g ", " graph "), (" b ", " bars "), (" [/] ", " move "), (" r ", " rerun "),
    (" q ", " quit ")]

/-- The state of the run, where there is one to tell. -/
def indicator? (s : Status) : Option (String × Color) :=
  if s.needsInput then some (" ⌨ INPUT ", Theme.secondary)
  else if s.isPlaying then some (" ▶ PLAYING ", Theme.secondary)
  else if 0 < s.total ∧ s.total ≤ s.current + 1 then some (" END ", Theme.error)
  else if s.current = 0 then some (" START ", Theme.success)
  else none

/-- The keys and the state of the run, with lines between. -/
def right (s : Status) : Line where
  spans :=
    let key := fun (key, meaning) =>
      [(⟨key, { Style.ink .black with background := some Theme.comment }⟩ : Span),
        ⟨meaning, plain Theme.text⟩]
    let state := s.indicator?.map fun (text, color) => [(⟨text, badge color⟩ : Span)]
    ((keys.map key ++ state.toList).intersperse [⟨"│", plain Theme.comment⟩]).flatten

/-- The bar: the left part takes 45 percent of it. -/
def draw (s : Status) (width : Nat) : List Cell :=
  let row := Style.paper Theme.highlight
  let share := width * 45 / 100
  s.left.cells share row ++ s.right.cellsAtEnd (width - share) row

end Status

end StepTrace.Pane
