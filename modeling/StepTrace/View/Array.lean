import StepTrace.Snapshot
import StepTrace.Step

/-!
Arrays as rows of cells. A cell shows whether its item differs from the one in the step before, and
whether the item was read or written since then.
-/

set_option autoImplicit false

namespace StepTrace

namespace Snapshot

mutual

/-- Whether two copies are the same; an undefined number is the same as another one. -/
def same : Snapshot → Snapshot → Bool
  | none, none => true
  | bool a, bool b => a == b
  | int m, int n => m == n
  | float x, float y => x == y || (x.isNaN && y.isNaN)
  | str s, str t => s == t
  | plainList xs, plainList ys => sameItems xs ys
  | list i xs, list j ys => i == j && sameItems xs ys
  | tuple xs, tuple ys => sameItems xs ys
  | set xs, set ys => sameItems xs ys
  | deque xs, deque ys => sameItems xs ys
  | mapping xs, mapping ys => sameFields xs ys
  | object i c xs, object j d ys => i == j && c == d && sameFields xs ys
  | cyclic i, cyclic j => i == j
  | _, _ => false

def sameItems : List Snapshot → List Snapshot → Bool
  | [], [] => true
  | x :: xs, y :: ys => same x y && sameItems xs ys
  | _, _ => false

/-- Whether two mappings have the same entries in the same order. -/
def sameFields : List (String × Snapshot) → List (String × Snapshot) → Bool
  | [], [] => true
  | (j, x) :: xs, (k, y) :: ys => j == k && same x y && sameFields xs ys
  | _, _ => false

end

end Snapshot

/-- The brackets around the cells. -/
inductive Brackets
  | list | tuple | set | deque
deriving DecidableEq, Repr

namespace Brackets

def opening : Brackets → String
  | list => "["
  | tuple => "("
  | set => "\x7b"
  | deque => "Front ⇄"

def closing : Brackets → String
  | list => "]"
  | tuple => ")"
  | set => "\x7d"
  | deque => "⇄ Back"

/-- The brackets for a copy with items. -/
def of : Snapshot → Brackets
  | .tuple _ => tuple
  | .set _ => set
  | .deque _ => deque
  | _ => list

end Brackets

structure Cell where
  text : String
  /-- The step before had another item in this place. -/
  changed : Bool
  read : Bool
  write : Bool
deriving DecidableEq, Repr

structure ArrayView where
  brackets : Brackets
  cells : List Cell
  /-- Heights in percent, if all items are numbers. -/
  bars : Option (List Float)

namespace ArrayView

/-- Whether an item differs from the one that was in its place. -/
def isChanged (before : Array Snapshot) (i : Nat) (item : Snapshot) : Bool :=
  match before[i]? with
  | some old => !old.same item
  | none => false

/-- Whether a container was accessed at an index. -/
def isAccessed (accesses : List Access) (id : Option String) (kind : AccessKind) (i : Nat) : Bool :=
  accesses.any fun a => a.kind == kind && id == some a.container && a.index == (i : Int)

/--
The heights of bars for numbers: in percent of the greatest one, which counts as 1 at least. No bar
is lower than 5 percent.
-/
def barHeights (numbers : List Float) : List Float :=
  let top := numbers.foldl Number.greater 1
  numbers.map fun x => Number.greater (x / top * 100) 5

/-- The bars for items: there are some, and all of them are numbers. -/
def bars? (items : List Snapshot) : Option (List Float) :=
  if items.isEmpty then none else (items.mapM Snapshot.number?).map barHeights

/-- The cells of items, with the items that were there before. -/
def cellsOf (items before : List Snapshot) (id : Option String) (accesses : List Access) :
    List Cell :=
  let before := before.toArray
  items.mapIdx fun i item =>
    { text := item.text
      changed := isChanged before i item
      read := isAccessed accesses id .read i
      write := isAccessed accesses id .write i }

def ofItems (brackets : Brackets) (items before : List Snapshot) (id : Option String)
    (accesses : List Access) : ArrayView where
  brackets := brackets
  cells := cellsOf items before id accesses
  bars := if brackets = .deque then none else bars? items

end ArrayView

end StepTrace
