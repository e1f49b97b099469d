import StepTrace.Pane.Highlight
import StepTrace.Pane.Window
import StepTrace.View.Reconstruction

/-!
The panes of the variables and of the structures. The first has a row for each variable, with its
type and its value on one line. The second has for every structural variable its name and shape, the
structure drawn in rows of text, and an empty row.
-/

set_option autoImplicit false

namespace StepTrace.Pane

open Screen (Box Line Span Style)

/-- The mark in front of what is selected. -/
def selectionSpan (selected : Bool) : Span :=
  ⟨if selected then "▸ " else "  ", .ink Theme.secondary⟩

def nameSpan (name : String) : Span := ⟨name, { Style.ink Theme.name with bold := true }⟩

def variableLine (name : String) (b : Binding) (selected : Bool) : Line where
  spans :=
    [selectionSpan selected, nameSpan name, ⟨": " ++ b.typeName, .ink Theme.typeName⟩,
      ⟨" = ", .ink Theme.comment⟩] ++ Highlight.value b.value.text
  style := if selected then .paper Theme.highlight else {}

/-- What a pane without anything to show says. -/
def placeholder (text : String) : Item := .ofText text (.ink Theme.comment)

/-- The items, or a placeholder if there are none. -/
def orPlaceholder (items : List Item) (text : String) : List Item :=
  if items.isEmpty then [placeholder text] else items

/-- The variables of a step, in an order. -/
def inspector (width height : Nat) (focused : Bool) (step : Option Step) (o : VariableOrder)
    (selected : Option String) (offset : Nat) : Drawing :=
  let b : Box := ⟨width, height, " Variables ", borderStyle focused⟩
  let shown := (step.map (·.shown o)).getD []
  let items := shown.map fun (name, v) => .ofLine (variableLine name v (selected == some name))
  scrolled b (orPlaceholder items "(no variables)") offset

/-! ### Structures -/

def commentSpan (text : String) : Span := ⟨text, .ink Theme.comment⟩

/-! ### Arrays -/

/-- The style of a cell: written wins over read, and changed wins over both. -/
def cellStyle (c : Cell) : Style :=
  if c.changed then
    { foreground := some .black, background := some Theme.changed, bold := c.read || c.write }
  else if c.write then { Style.ink Theme.write with bold := true }
  else if c.read then { Style.ink Theme.read with bold := true }
  else .ink Theme.text

def accessMark (c : Cell) : String := if c.write then "w" else if c.read then "r" else " "

/-- A text in the middle of `width` places; of an odd number of free places most are behind it. -/
def centered (width : Nat) (text : String) : String :=
  let free := width - text.length
  "".pushn ' ' (free / 2) ++ text ++ "".pushn ' ' (free - free / 2)

/-- A number at the end of three places. -/
def barNumber (n : Nat) : String :=
  let digits := toString n
  "".pushn ' ' (3 - digits.length) ++ digits

/-- The places that a bar of a height in percent takes; the full height is 24 of them. -/
def barLength (height : Float) : Nat := (Number.greater (height / 100 * 24).round 1).toUInt64.toNat

/-- A row for every cell, with a bar. -/
def barLines (cells : List Cell) (bars : List Float) : List Line :=
  (cells.zip bars).mapIdx fun i (c, height) =>
    ⟨[commentSpan ("  " ++ barNumber i ++ " "),
      ⟨"".pushn '█' (barLength height), { cellStyle c with background := none }⟩,
      ⟨" " ++ c.text, cellStyle c⟩], {}⟩

/-- The places that a cell takes: enough for its text and for its index. -/
def cellWidth (i : Nat) (c : Cell) : Nat := max c.text.length (toString i).length

/-- The cells in a row, their indices below, and below these the accesses if there are any. -/
def cellLines (brackets : Brackets) (cells : List Cell) : List Line :=
  let indent : Span := ⟨"".pushn ' ' (brackets.opening.length + 3), {}⟩
  let values := cells.mapIdx fun i c => (⟨centered (cellWidth i c) c.text, cellStyle c⟩ : Span)
  let indices := cells.mapIdx fun i c =>
    commentSpan (centered (cellWidth i c) (toString i) ++ "   ")
  let marks := cells.mapIdx fun i c =>
    (⟨centered (cellWidth i c) (accessMark c) ++ "   ",
      { cellStyle c with background := none }⟩ : Span)
  let row := commentSpan ("  " ++ brackets.opening ++ " ") ::
    values.intersperse (commentSpan " │ ") ++ [commentSpan (" " ++ brackets.closing)]
  [⟨row, {}⟩, ⟨indent :: indices, {}⟩] ++
    if cells.any fun c => c.read || c.write then [⟨indent :: marks, {}⟩] else []

/-- An array, with bars if they are wanted and there are some. -/
def arrayLines (a : ArrayView) (wantBars : Bool) : List Line :=
  match wantBars, a.bars with
  | true, some bars => barLines a.cells bars
  | _, _ =>
    if a.cells.isEmpty then
      [⟨[commentSpan ("  " ++ a.brackets.opening ++ a.brackets.closing)], {}⟩]
    else cellLines a.brackets a.cells

/-! ### Lists, trees and graphs -/

def cycleSpan : Span := ⟨cycleMark, .ink Theme.back⟩

def chainLine (c : Chain) : Line where
  spans :=
    ⟨"  ", {}⟩ ::
      (c.nodes.flatMap fun n =>
        [⟨"[" ++ n.label ++ "]", .ink Theme.primary⟩, commentSpan " → "]) ++
      [match c.finish with
        | .null => ⟨"None", .ink Theme.number⟩
        | .cycle _ => cycleSpan
        | .value t => ⟨t, .ink Theme.text⟩]

/-- What stands for a tree in its own row. -/
def treeSpan : Tree → Span
  | .node n _ => ⟨"(" ++ n.label ++ ")", .ink Theme.primary⟩
  | .empty => commentSpan "∅"
  | .cycle _ => cycleSpan
  | .leaf t => ⟨t, .ink Theme.text⟩

/-- Where a tree hangs. -/
inductive Twig
  | root
  /-- Another one of its siblings follows. -/
  | inner
  | last
deriving DecidableEq, Repr

/-- What is drawn in front of a tree. -/
def Twig.text : Twig → String
  | root => ""
  | inner => "├─ "
  | last => "└─ "

/-- What is drawn in front of the rows below a tree. -/
def Twig.below : Twig → String
  | root => ""
  | inner => "│  "
  | last => "   "

mutual

/-- A row for every node, below its parent. -/
def treeLines (indent : String) (twig : Twig) : Tree → List Line
  | .node n children =>
    ⟨[commentSpan (indent ++ twig.text), treeSpan (.node n [])], {}⟩ ::
      childLines (indent ++ twig.below) children
  | t => [⟨[commentSpan (indent ++ twig.text), treeSpan t], {}⟩]

def childLines (indent : String) : List Tree → List Line
  | [] => []
  | t :: rest =>
    treeLines indent (if rest.isEmpty then .last else .inner) t ++ childLines indent rest

end

/-- The text of the node with an id; one that is no node is shown by its id. -/
def nodeText (g : Graph) (id : String) : String :=
  ((g.nodes.find? (·.id == id)).map Node.label).getD id

/-- How many nodes and edges there are, and a row for every edge. -/
def graphLines (g : Graph) : List Line :=
  let count := "  " ++ toString g.nodes.length ++ " nodes, " ++ toString g.edges.length ++
    " edges (g: layout)"
  ⟨[commentSpan count], {}⟩ :: g.edges.map fun e =>
    ⟨[⟨"  ", {}⟩, ⟨nodeText g e.source, .ink Theme.primary⟩,
      if e.back then ⟨" ↺ ", .ink Theme.back⟩ else commentSpan " → ",
      ⟨nodeText g e.target, .ink Theme.primary⟩], {}⟩

def tableLines (rows : List (String × String)) : List Line :=
  if rows.isEmpty then [⟨[commentSpan "  \x7b\x7d"], {}⟩]
  else rows.map fun (key, text) =>
    ⟨[⟨"  " ++ key, .ink Theme.secondary⟩, commentSpan " │ ", ⟨text, .ink Theme.text⟩], {}⟩

/-! ### The pane -/

def structureLines (wantBars : Bool) : Structure → List Line
  | .array a => arrayLines a wantBars
  | .chain c => [chainLine c]
  | .tree t => treeLines "  " .root t
  | .graph g => graphLines g
  | .table rows => tableLines rows

/-- The rows of a variable: a head, its structure, and an empty row. -/
def viewLines (v : VariableView) (selected wantBars : Bool) : List Line :=
  ⟨[selectionSpan selected, nameSpan v.name,
    ⟨"  " ++ v.binding.value.shape.label, .ink Theme.typeName⟩], {}⟩ ::
    structureLines wantBars v.drawn ++ [.ofText ""]

def structures (width height : Nat) (focused : Bool) (views : List VariableView)
    (selected : Option String) (wantBars : Bool) (offset : Nat) : Drawing :=
  let b : Box := ⟨width, height, " Structures ", borderStyle focused⟩
  let items := views.flatMap fun v =>
    (viewLines v (selected == some v.name) wantBars).map Item.ofLine
  scrolled b (orPlaceholder items "(no data structures)") offset

end StepTrace.Pane
