import StepTrace.Heap
import StepTrace.Number.Layout
import StepTrace.Text.Quoted

/-!
The texts of values. Containers show their elements; a container inside itself shows as three dots.
-/

set_option autoImplicit false

namespace StepTrace

/-- Fractions have a point or an exponent of at least two digits. -/
def fractionStyle : Number.NumberStyle := ⟨some (-4), some 16, true, 2⟩

/-- The text of a number with a fractional part. -/
def floatText (f : Float) : String :=
  if f.isNaN then "nan"
  else if f.isInf then (if Number.signBit f then "-inf" else "inf")
  else fractionStyle.write f

/-- What a container shows in place of itself. -/
def Object.ellipsis : Object → String
  | .list _ => "[...]"
  | .dict _ => "\x7b...\x7d"
  | _ => "..."

/-- Appends what `item` appends for each element, with commas between. -/
def appendSeparated {α : Type} (item : String → α → String) (out : String) : List α → String
  | [] => out
  | [a] => item out a
  | a :: rest => appendSeparated item (item out a ++ ", ") rest

namespace Heap

/-- Appends the text of an object, where `item` appends the text of an element. -/
def appendObject (h : Heap) (item : String → Value → String) (out : String) : Object → String
  | .list l => appendSeparated item (out ++ "[") l.items.toList ++ "]"
  | .tuple items =>
    match items.toList with
    | [v] => item (out ++ "(") v ++ ",)"
    | vs => appendSeparated item (out ++ "(") vs ++ ")"
  | .set s =>
    if s.isEmpty then out ++ "set()" else appendSeparated item (out ++ "\x7b") s.values ++ "\x7d"
  | .deque items => appendSeparated item (out ++ "deque([") items.toList ++ "])"
  | .dict d =>
    let entry := fun (out : String) (kv : Value × Value) => item (item out kv.1 ++ ": ") kv.2
    let entries := fun out => appendSeparated entry (out ++ "\x7b") d.entries.values ++ "\x7d"
    match d.factory with
    | some f => entries (item (out ++ "defaultdict(") f ++ ", ") ++ ")"
    | none => entries out
  | .range p =>
    let bounds := toString p.start.toInt ++ ", " ++ toString p.stop.toInt
    out ++ "range(" ++ bounds ++
      (if p.step = 1 then "" else ", " ++ toString p.step.toInt) ++ ")"
  | .instance i => out ++ "<" ++ h.className i.cls ++ " object>"
  | .class c => out ++ "<class '" ++ c.name ++ "'>"
  | .function f => out ++ "<function " ++ f.name ++ ">"
  | .boundMethod _ function =>
    let name := match h.get? function with
      | some (.function f) => f.name
      | _ => "?"
    out ++ "<bound method " ++ name ++ ">"
  | .builtinMethod _ name => out ++ "<built-in method " ++ name ++ ">"
  | .module m => out ++ "<module '" ++ m.name ++ "'>"
  | .super cls _ => out ++ "<super: <class '" ++ h.className cls ++ "'>>"
  | .exception kind message => out ++ kind ++ "(" ++ Text.quoted message ++ ")"

/--
Appends the text of a value. `active` are the containers around it; `room` is more than the number
of objects that can still be entered.
-/
def appendValue (h : Heap) : Nat → List ObjId → String → Value → String
  | 0, _, out, _ => out
  | room + 1, active, out, v =>
    match v with
    | .none => out ++ "None"
    | .bool b => out ++ (if b then "True" else "False")
    | .int n => out ++ toString n.toInt
    | .float f => out ++ floatText f
    | .str s => out ++ Text.quoted s
    | .builtin b =>
      if b.isType then out ++ "<class '" ++ b.name ++ "'>"
      else out ++ "<built-in function " ++ b.name ++ ">"
    | .ref id =>
      match h.get? id with
      | none => out ++ "<invalid reference>"
      | some o =>
        if active.contains id then out ++ o.ellipsis
        else h.appendObject (h.appendValue room (id :: active)) out o

/-- How a program would write a value, as far as there is a way to write it. -/
def repr (h : Heap) (v : Value) : String := h.appendValue (h.size + 2) [] "" v

/-- The text of a value: a string is its own text. -/
def str (h : Heap) : Value → String
  | .str s => s
  | v => h.repr v

end Heap

end StepTrace
