import StepTrace.Display
import StepTrace.Json

/-!
Copies of values that no longer depend on the heap: their written form as documents, their text on
one line, and how they are taken. Containers with an identity, and those that documents do not have,
are objects with a tag. A container inside itself becomes a reference back, and what lies too deep
is left out.
-/

set_option autoImplicit false

namespace StepTrace

/-- A copy of a value. -/
inductive Snapshot
  | none
  | bool (b : Bool)
  | int (n : Int64)
  | float (f : Float)
  | str (s : String)
  | plainList (items : List Snapshot)
  /-- A list that reports its accesses under `id`. -/
  | list (id : String) (items : List Snapshot)
  | tuple (items : List Snapshot)
  | set (items : List Snapshot)
  | deque (items : List Snapshot)
  | mapping (entries : List (String × Snapshot))
  | object (id cls : String) (fields : List (String × Snapshot))
  /-- A reference back to a container around this place. -/
  | cyclic (id : String)

instance : Inhabited Snapshot := ⟨.none⟩

namespace Snapshot

/-- The items of what is drawn as an array. -/
def sequenceItems? : Snapshot → Option (List Snapshot)
  | plainList items | list _ items | tuple items => some items
  | _ => Option.none

def items? : Snapshot → Option (List Snapshot)
  | set items | deque items => some items
  | v => v.sequenceItems?

/-- The fields of a mapping or an object. -/
def fields? : Snapshot → Option (List (String × Snapshot))
  | mapping entries => some entries
  | object _ _ fields => some fields
  | _ => Option.none

def identity? : Snapshot → Option String
  | list id _ | object id _ _ | cyclic id => some id
  | _ => Option.none

def number? : Snapshot → Option Float
  | int n => some (Number.ofWord n)
  | float f => some f
  | _ => Option.none

def isScalar : Snapshot → Bool
  | none | bool _ | int _ | float _ | str _ => true
  | _ => false

def tagName : String := "__type__"

def tagged (tag : String) (members : List (String × Json)) : Json :=
  .obj ((tagName, .str tag) :: members)

mutual

/-- The document for a copy. Infinite and undefined numbers are given by name. -/
def toJson : Snapshot → Json
  | none => .null
  | bool b => .bool b
  | int n => .int n.toInt
  | float f => if f.isFinite then .float f else .str (floatText f)
  | str s => .str s
  | plainList items => .arr (itemsToJson items)
  | list id items => tagged "list" [("id", .str id), ("items", .arr (itemsToJson items))]
  | tuple items => tagged "tuple" [("items", .arr (itemsToJson items))]
  | set items => tagged "set" [("items", .arr (itemsToJson items))]
  | deque items => tagged "deque" [("items", .arr (itemsToJson items))]
  | mapping entries => .obj (fieldsToJson entries)
  | object id cls fields =>
    tagged "object" [("id", .str id), ("class", .str cls), ("data", .obj (fieldsToJson fields))]
  | cyclic id => tagged "cyclic" [("id", .str id)]

def itemsToJson : List Snapshot → List Json
  | [] => []
  | v :: rest => v.toJson :: itemsToJson rest

def fieldsToJson : List (String × Snapshot) → List (String × Json)
  | [] => []
  | (k, v) :: rest => (k, v.toJson) :: fieldsToJson rest

end

@[simp] theorem itemsToJson_eq_map (items : List Snapshot) :
    itemsToJson items = items.map toJson := by
  induction items with
  | nil => rfl
  | cons v rest ih => simp [itemsToJson, ih]

@[simp] theorem fieldsToJson_eq_map (fields : List (String × Snapshot)) :
    fieldsToJson fields = fields.map fun (k, v) => (k, v.toJson) := by
  induction fields with
  | nil => rfl
  | cons field rest ih => simp [fieldsToJson, ih]

/-- An id in a document: a text, or a number. -/
def idOf? : Json → Option String
  | .str s => some s
  | .int n => some (toString n)
  | .float f => some (Json.fractionStyle.write f)
  | _ => Option.none


def tagOf? (members : List (String × Json)) : Option String :=
  (members.lookup tagName).bind Json.str?

mutual

/-- The copy that a document describes; a tag that does not fit leaves a mapping. -/
def ofJson : Json → Snapshot
  | .null => none
  | .bool b => bool b
  | .int n =>
    match Number.ofInt? n with
    | some w => int w
    | Option.none => float (Float.ofInt n)
  | .float f => float f
  | .str s => str s
  | .arr items => plainList (itemsOfJson items)
  | .obj members =>
    match tagOf? members, (members.lookup "id").bind idOf? with
    | some "list", some id =>
      match itemsOfMembers members with
      | some items => list id items
      | Option.none => mapping (fieldsOfJson members)
    | some "tuple", _ =>
      match itemsOfMembers members with
      | some items => tuple items
      | Option.none => mapping (fieldsOfJson members)
    | some "set", _ =>
      match itemsOfMembers members with
      | some items => set items
      | Option.none => mapping (fieldsOfJson members)
    | some "deque", _ =>
      match itemsOfMembers members with
      | some items => deque items
      | Option.none => mapping (fieldsOfJson members)
    | some "object", some id =>
      match dataOfMembers members with
      | some fields => object id (((members.lookup "class").bind Json.str?).getD "object") fields
      | Option.none => mapping (fieldsOfJson members)
    | some "cyclic", some id => cyclic id
    | _, _ => mapping (fieldsOfJson members)

def itemsOfJson : List Json → List Snapshot
  | [] => []
  | j :: rest => ofJson j :: itemsOfJson rest

def fieldsOfJson : List (String × Json) → List (String × Snapshot)
  | [] => []
  | (k, j) :: rest => (k, ofJson j) :: fieldsOfJson rest

def itemsOfMembers : List (String × Json) → Option (List Snapshot)
  | [] => Option.none
  | (k, j) :: rest =>
    if k == "items" then
      match j with
      | .arr items => some (itemsOfJson items)
      | _ => Option.none
    else itemsOfMembers rest

/-- The fields of the object under the name `data`. -/
def dataOfMembers : List (String × Json) → Option (List (String × Snapshot))
  | [] => Option.none
  | (k, j) :: rest =>
    if k == "data" then
      match j with
      | .obj members => some (fieldsOfJson members)
      | _ => Option.none
    else dataOfMembers rest

end

@[simp] theorem itemsOfJson_eq_map (items : List Json) : itemsOfJson items = items.map ofJson := by
  induction items with
  | nil => rfl
  | cons j rest ih => simp [itemsOfJson, ih]

@[simp] theorem fieldsOfJson_eq_map (members : List (String × Json)) :
    fieldsOfJson members = members.map fun (k, j) => (k, ofJson j) := by
  induction members with
  | nil => rfl
  | cons member rest ih => simp [fieldsOfJson, ih]

theorem itemsOfMembers_eq (members : List (String × Json)) :
    itemsOfMembers members =
      match members.lookup "items" with
      | some (.arr items) => some (items.map ofJson)
      | _ => Option.none := by
  induction members with
  | nil => rfl
  | cons member rest ih =>
    obtain ⟨k, j⟩ := member
    rw [itemsOfMembers.eq_def, List.lookup_cons]
    by_cases same : k = "items"
    next => cases j <;> simp [same]
    next => simp [same, ih, beq_false_of_ne (Ne.symm same)]

theorem dataOfMembers_eq (members : List (String × Json)) :
    dataOfMembers members =
      match members.lookup "data" with
      | some (.obj fields) => some (fields.map fun (k, j) => (k, ofJson j))
      | _ => Option.none := by
  induction members with
  | nil => rfl
  | cons member rest ih =>
    obtain ⟨k, j⟩ := member
    rw [dataOfMembers.eq_def, List.lookup_cons]
    by_cases same : k = "data"
    next => cases j <;> simp [same]
    next => simp [same, ih, beq_false_of_ne (Ne.symm same)]

end Snapshot

/-! ### Copies on one line, as a program would write them -/

/-- What is shown for a reference back. -/
def cycleMark : String := "⟳"

namespace Snapshot

mutual

def text : Snapshot → String
  | none => "None"
  | bool b => if b then "True" else "False"
  | int n => toString n.toInt
  | float f => floatText f
  | str s => Text.quoted s
  | plainList items | list _ items => "[" ++ ", ".intercalate (texts items) ++ "]"
  | tuple items =>
    match texts items with
    | [t] => "(" ++ t ++ ",)"
    | ts => "(" ++ ", ".intercalate ts ++ ")"
  | set items =>
    match texts items with
    | [] => "set()"
    | ts => "\x7b" ++ ", ".intercalate ts ++ "\x7d"
  | deque items => "deque([" ++ ", ".intercalate (texts items) ++ "])"
  | mapping entries => "\x7b" ++ ", ".intercalate (entryTexts Text.quoted entries) ++ "\x7d"
  | object _ cls fields => cls ++ "\x7b" ++ ", ".intercalate (entryTexts id fields) ++ "\x7d"
  | cyclic _ => cycleMark

def texts : List Snapshot → List String
  | [] => []
  | v :: rest => v.text :: texts rest

/-- The texts of entries, where `key` gives the text of a key. -/
def entryTexts (key : String → String) : List (String × Snapshot) → List String
  | [] => []
  | (k, v) :: rest => (key k ++ ": " ++ v.text) :: entryTexts key rest

end

/-- The text in a node: a string is its own text. -/
def label : Snapshot → String
  | str s => s
  | v => v.text

theorem texts_eq_map (items : List Snapshot) : texts items = items.map text := by
  induction items with
  | nil => rfl
  | cons v rest ih => simp [texts, ih]

theorem entryTexts_eq_map (key : String → String) (entries : List (String × Snapshot)) :
    entryTexts key entries = entries.map fun (k, v) => key k ++ ": " ++ v.text := by
  induction entries with
  | nil => rfl
  | cons e rest ih => simp [entryTexts, ih]

end Snapshot

/-! ### Taking copies of values -/

/-- What stands for a value that lies too deep. -/
def elided : Snapshot := .str "..."

namespace Heap

/-- The copy of an object, where `item` copies an element. -/
def captureObject (h : Heap) (item : Value → Snapshot) (id : ObjId) : Object → Snapshot
  | .list l =>
    let items := l.items.toList.map item
    if l.tracker.isSome then .list (toString id) items else .plainList items
  | .tuple items => .tuple (items.toList.map item)
  | .set s => .set (s.values.map item)
  | .deque items => .deque (items.toList.map item)
  | .dict d =>
    .mapping (Ordered.ofList (d.entries.values.map fun (k, v) => (h.str k, item v))).toList
  | .instance i =>
    let shown := i.fields.filter fun name _ => !name.startsWith "__"
    .object (toString id) (h.className i.cls) (shown.toList.map fun (name, v) => (name, item v))
  | _ => .str (h.repr (.ref id))

/--
The copy of a value with `room` levels of nesting, the value's own one included; `path` are the
containers around it.
-/
def captureWithin (h : Heap) : Nat → List ObjId → Value → Snapshot
  | 0, _, _ => elided
  | room + 1, path, v =>
    match v with
    | .none => .none
    | .bool b => .bool b
    | .int n => .int n
    | .float f => .float f
    | .str s => .str s
    | .builtin _ => .str (h.repr v)
    | .ref id =>
      if path.contains id then .cyclic (toString id)
      else
        match h.get? id with
        | none => .str ("<Error: dangling reference " ++ toString id ++ ">")
        | some o => h.captureObject (h.captureWithin room (id :: path)) id o

/-- The copy of a value, with the levels below `maxDepth` left out. -/
def capture (h : Heap) (maxDepth : Nat) (v : Value) : Snapshot :=
  h.captureWithin (maxDepth + 1) [] v

section

variable {h : Heap} {path : List ObjId} {id : ObjId}

theorem captureWithin_fresh (fresh : id ∉ path) (room : Nat) {o : Object}
    (found : h.get? id = some o) :
    h.captureWithin (room + 1) path (.ref id) =
      h.captureObject (h.captureWithin room (id :: path)) id o := by
  simp [captureWithin, fresh, found]

theorem captureWithin_around (around : id ∈ path) (room : Nat) :
    h.captureWithin (room + 1) path (.ref id) = .cyclic (toString id) := by
  simp [captureWithin, around]

end

end Heap

end StepTrace
