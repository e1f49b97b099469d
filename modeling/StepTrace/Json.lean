import StepTrace.Ordered
import StepTrace.Number.Layout

/-!
Structured documents, and their written form. Integers and fractions are told apart; the members of
an object keep their order.
-/

set_option autoImplicit false

namespace StepTrace

/-- A document. -/
inductive Json
  | null
  | bool (value : Bool)
  | int (value : Int)
  | float (value : Float)
  | str (value : String)
  | arr (items : List Json)
  | obj (members : List (String × Json))

instance : Inhabited Json := ⟨.null⟩

namespace Json

/-- A fraction is written with the fewest digits that read back; at least one follows the point. -/
def fractionStyle : Number.NumberStyle := ⟨some (-5), some 16, true, 1⟩

/-- One character of a written text. -/
def escapedChar (c : Char) : List Char :=
  match c with
  | '"' => ['\\', '"']
  | '\\' => ['\\', '\\']
  | '\x08' => ['\\', 'b']
  | '\x0c' => ['\\', 'f']
  | '\n' => ['\\', 'n']
  | '\r' => ['\\', 'r']
  | '\t' => ['\\', 't']
  | c =>
    if c.toNat < 32 then
      ['\\', 'u', '0', '0'] ++ Number.padZeros 2 (Nat.toDigits 16 c.toNat)
    else [c]

def appendText (out : String) (s : String) : String :=
  (s.toList.foldl (fun out c => if c.toNat < 32 || c == '"' || c == '\\' then
      (escapedChar c).foldl String.push out else out.push c) (out.push '"')).push '"'

mutual

/-- Appends a written document, without spaces. -/
def appendTo (out : String) : Json → String
  | null => out ++ "null"
  | bool b => out ++ (if b then "true" else "false")
  | int n => out ++ toString n
  | float f => out ++ fractionStyle.write f
  | str s => appendText out s
  | arr items => (appendItems (out.push '[') true items).push ']'
  | obj members => (appendMembers (out.push '\x7b') true members).push '\x7d'

def appendItems (out : String) (first : Bool) : List Json → String
  | [] => out
  | j :: rest => appendItems (appendTo (if first then out else out.push ',') j) false rest

def appendMembers (out : String) (first : Bool) : List (String × Json) → String
  | [] => out
  | (k, j) :: rest =>
    let out := appendText (if first then out else out.push ',') k
    appendMembers (appendTo (out.push ':') j) false rest

end

def write (j : Json) : String := appendTo "" j

/-- The member under a name; a later one of the same name counts. -/
def member? (members : List (String × Json)) (name : String) : Option Json :=
  (members.reverse.find? (·.1 == name)).map Prod.snd

/-- The member of an object under a name. -/
def get? (j : Json) (name : String) : Option Json :=
  match j with
  | obj members => member? members name
  | _ => none

def str? : Json → Option String
  | str s => some s
  | _ => none

def bool? : Json → Option Bool
  | bool b => some b
  | _ => none

/-- A 64-bit integer. -/
def word? : Json → Option Int64
  | int n => Number.ofInt? n
  | _ => none

/-- A natural number below `2 ^ 64`. -/
def nat? : Json → Option Nat
  | int n => if 0 ≤ n ∧ n < 0x10000000000000000 then some n.toNat else none
  | _ => none

def arr? : Json → Option (List Json)
  | arr items => some items
  | _ => none

/-- The number that a number stands for. -/
def float? : Json → Option Float
  | int n => some (Float.ofInt n)
  | float f => some f
  | _ => none

/-! ### Equality -/

mutual

def same : Json → Json → Bool
  | null, null => true
  | bool b, bool b' => b == b'
  | int n, int n' => n == n'
  | float f, float f' => decide (f = f')
  | str s, str s' => s == s'
  | arr items, arr items' => sameItems items items'
  | obj members, obj members' => sameMembers members members'
  | _, _ => false

def sameItems : List Json → List Json → Bool
  | [], [] => true
  | j :: rest, j' :: rest' => same j j' && sameItems rest rest'
  | _, _ => false

def sameMembers : List (String × Json) → List (String × Json) → Bool
  | [], [] => true
  | (k, j) :: rest, (k', j') :: rest' => k == k' && same j j' && sameMembers rest rest'
  | _, _ => false

end

mutual

theorem same_iff : (j j' : Json) → (same j j' = true ↔ j = j')
  | null, j' | bool _, j' | int _, j' | float _, j' | str _, j' => by cases j' <;> simp [same]
  | arr items, j' => by cases j' <;> simp [same, sameItems_iff items]
  | obj members, j' => by cases j' <;> simp [same, sameMembers_iff members]

theorem sameItems_iff : (items items' : List Json) → (sameItems items items' = true ↔ items = items')
  | [], items' => by cases items' <;> simp [sameItems]
  | j :: rest, items' => by cases items' <;> simp [sameItems, same_iff j, sameItems_iff rest]

theorem sameMembers_iff : (members members' : List (String × Json)) →
    (sameMembers members members' = true ↔ members = members')
  | [], members' => by cases members' <;> simp [sameMembers]
  | (k, j) :: rest, members' => by
    cases members' <;> simp [sameMembers, same_iff j, sameMembers_iff rest, Prod.ext_iff]

end

instance : DecidableEq Json := fun j j' => decidable_of_iff (same j j' = true) (same_iff j j')

end Json

end StepTrace
