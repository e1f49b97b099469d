/-!
Panes: boxes on the screen whose rows can be scrolled, and their colors, by what they stand for.
Every cell of the screen holds a character in a style; the spans of a line are laid over the style
of the row, and what does not fit into a row is cut off.
-/

set_option autoImplicit false

namespace StepTrace.Screen

/-! ### Screens of cells -/

inductive Color
  | rgb (red green blue : UInt8)
  | black
deriving DecidableEq, Repr

/-- How a cell is shown; a missing color is the one of the terminal. -/
structure Style where
  foreground : Option Color := none
  background : Option Color := none
  bold : Bool := false
deriving DecidableEq, Repr

namespace Style

def ink (c : Color) : Style := { foreground := some c }

def paper (c : Color) : Style := { background := some c }

/-- A style laid over another one, which shows where it says nothing. -/
def onto (upper lower : Style) : Style where
  foreground := upper.foreground <|> lower.foreground
  background := upper.background <|> lower.background
  bold := upper.bold || lower.bold

end Style

structure Cell where
  glyph : Char
  style : Style
deriving DecidableEq, Repr

/-- A text in one style. -/
structure Span where
  text : String
  style : Style := {}
deriving DecidableEq, Repr

/-- A line of spans; its own style is that of its row, unless the line is empty. -/
structure Line where
  spans : List Span
  style : Style := {}
deriving DecidableEq, Repr

/-- The first `n` of some things, with `filler` for those that are missing. -/
def fit {α : Type} (n : Nat) (filler : α) (items : List α) : List α :=
  items.take n ++ List.replicate (n - items.length) filler

theorem length_fit {α : Type} (n : Nat) (filler : α) (items : List α) :
    (fit n filler items).length = n := by
  simp [fit]
  omega

namespace Line

def ofText (text : String) (style : Style := {}) : Line := ⟨[⟨text, style⟩], {}⟩

def glyphs (l : Line) (row : Style) : List Cell :=
  l.spans.flatMap fun s => s.text.toList.map fun c => ⟨c, s.style.onto row⟩

/-- The style of the row of a line, where the row had a style before. -/
def rowStyle (l : Line) (row : Style) : Style :=
  if (l.glyphs row).isEmpty then row else l.style.onto row

def cells (l : Line) (width : Nat) (row : Style := {}) : List Cell :=
  let row := l.rowStyle row
  fit width ⟨' ', row⟩ (l.glyphs row)

/-- A row of cells that ends with a line; of a line that does not fit, the beginning is shown. -/
def cellsAtEnd (l : Line) (width : Nat) (row : Style := {}) : List Cell :=
  let row := l.rowStyle row
  let shown := (l.glyphs row).take width
  List.replicate (width - shown.length) ⟨' ', row⟩ ++ shown

end Line

/-- A box that is drawn around rows. -/
structure Box where
  width : Nat
  height : Nat
  title : String
  border : Style

namespace Box

/-- The number of cells between the sides. -/
def innerWidth (b : Box) : Nat := b.width - 2

/-- The number of rows between top and bottom. -/
def innerHeight (b : Box) : Nat := b.height - 2

/-- A row of a box: cells between its left and its right end. -/
def row (b : Box) (left right : Char) (inner : List Cell) : List Cell :=
  match b.width with
  | 0 => []
  | 1 => [⟨left, b.border⟩]
  | n + 2 => ⟨left, b.border⟩ :: fit n ⟨' ', {}⟩ inner ++ [⟨right, b.border⟩]

/-- The top or the bottom of a box, with a text over it. -/
def edge (b : Box) (left right : Char) (text : String) : List Cell :=
  let line := fit b.innerWidth '─' text.toList
  b.row left right (line.map fun c => ⟨c, b.border⟩)

def draw (b : Box) (rows : List (List Cell)) : List (List Cell) :=
  let top := b.edge '┌' '┐' b.title
  match b.height with
  | 0 => []
  | 1 => [top]
  | n + 2 => top :: (fit n [] rows).map (b.row '│' '│') ++ [b.edge '└' '┘' ""]

end Box

end StepTrace.Screen

namespace StepTrace.Pane.Theme

open Screen (Color)

def text : Color := .rgb 205 214 244

/-- Brackets, nodes and the badge of a run without a failure. -/
def primary : Color := .rgb 137 180 250

/-- Marks of the current line and of the selection, and what waits for input. -/
def secondary : Color := .rgb 250 179 135

def comment : Color := .rgb 108 112 134

def success : Color := .rgb 166 227 161

def error : Color := .rgb 243 139 168

def keyword : Color := .rgb 203 166 247

def string : Color := .rgb 166 227 161

def number : Color := .rgb 250 179 135

def name : Color := .rgb 249 226 175

def typeName : Color := .rgb 148 226 213

def focusedBorder : Color := .rgb 249 226 175

def border : Color := .rgb 108 112 134

/-- Behind the current line, the selection and the status bar. -/
def highlight : Color := .rgb 50 50 70

/-- Behind a cell that differs from the step before. -/
def changed : Color := .rgb 249 226 175

def read : Color := .rgb 137 180 250

def write : Color := .rgb 243 139 168

/-- References back to what has been drawn. -/
def back : Color := .rgb 245 194 231

end StepTrace.Pane.Theme

namespace StepTrace.Pane

open Screen (Box Cell Line Style)

/-- The style of a border; the pane in use stands out. -/
def borderStyle (focused : Bool) : Style :=
  if focused then { Style.ink Theme.focusedBorder with bold := true } else .ink Theme.border

/-- The number of rows that a pane shows; the least height counts as one row. -/
def visibleRows (height : Nat) : Nat := max (height - 2) 1

/-- The offset nearest to the given one at which the pane is full, if there are enough rows. -/
def clampOffset (offset count visible : Nat) : Nat :=
  if visible < count then min offset (count - visible) else 0

/-- What is scrolled as one: lines in rows of a style. -/
structure Item where
  lines : List Line
  style : Style := {}

def Item.ofLine (l : Line) : Item := { lines := [l] }

def Item.ofText (text : String) (style : Style) : Item := ⟨[.ofText text], style⟩

/-- The items that fit into some rows together; no part of an item is shown. -/
def fitting : (rows : Nat) → List Item → List Item
  | _, [] => []
  | rows, i :: rest =>
    if i.lines.length ≤ rows then i :: fitting (rows - i.lines.length) rest else []

/-- A drawn pane, and the offset that it is drawn at. -/
structure Drawing where
  rows : List (List Cell)
  offset : Nat

/-- A box with the items from an offset on; `padding` cells stay free on the left of every row. -/
def scrolled (b : Box) (items : List Item) (offset : Nat) (padding : Nat := 0) : Drawing :=
  let offset := clampOffset offset items.length (visibleRows b.height)
  let shown := fitting b.innerHeight (items.drop offset)
  let free := List.replicate padding (⟨' ', {}⟩ : Cell)
  { rows := b.draw (shown.flatMap fun i =>
      i.lines.map fun l => free ++ l.cells (b.innerWidth - padding) i.style)
    offset := offset }

end StepTrace.Pane
