import StepTrace.Proofs.Copies

/-!
Copies written as documents and read back. What is written reads back as it was, unless a mapping
looks like a container with a tag or a number is not finite; and whatever a document is read as is
written so that it reads back the same.
-/

set_option autoImplicit false

namespace StepTrace

/-! ### Parts at any depth -/

-- `P` holds of a whole, of its parts, and of theirs.
inductive Throughout {α : Type} (parts : α → List α) (P : α → Prop) : α → Prop
  | intro {a : α} (here : P a) (inside : ∀ part ∈ parts a, Throughout parts P part) :
    Throughout parts P a

namespace Throughout

variable {α : Type} {parts : α → List α} {P Q : α → Prop} {a : α}

theorem leaf (here : P a) (alone : parts a = []) : Throughout parts P a :=
  .intro here (by simp [alone])

theorem here (h : Throughout parts P a) : P a := by
  cases h
  assumption

theorem inside (h : Throughout parts P a) : ∀ part ∈ parts a, Throughout parts P part := by
  cases h
  assumption

theorem mono (imp : ∀ a, P a → Q a) (h : Throughout parts P a) : Throughout parts Q a := by
  induction h with
  | intro here _ ih => exact .intro (imp _ here) ih

end Throughout

def Json.parts : Json → List Json
  | arr items => items
  | obj members => members.map Prod.snd
  | _ => []

abbrev Json.All (P : Json → Prop) (j : Json) : Prop := Throughout parts P j

namespace Snapshot

abbrev All (P : Snapshot → Prop) (v : Snapshot) : Prop := Throughout parts P v

/-! ### Tags -/

def tags : List String := ["list", "tuple", "set", "deque", "object", "cyclic"]

-- What the tag of an object says, if the members fit it.
def tagged? (members : List (String × Json)) : Option Snapshot :=
  match tagOf? members, (members.lookup "id").bind idOf? with
  | some "list", some id => (itemsOfMembers members).map (list id)
  | some "tuple", _ => (itemsOfMembers members).map tuple
  | some "set", _ => (itemsOfMembers members).map set
  | some "deque", _ => (itemsOfMembers members).map deque
  | some "object", some id =>
    (dataOfMembers members).map
      (object id (((members.lookup "class").bind Json.str?).getD "object"))
  | some "cyclic", some id => some (cyclic id)
  | _, _ => Option.none

theorem ofJson_obj (members : List (String × Json)) :
    ofJson (.obj members) =
      (tagged? members).getD (mapping (members.map fun (k, j) => (k, ofJson j))) := by
  rw [ofJson.eq_def]
  dsimp only
  rw [fieldsOfJson_eq_map, tagged?]
  generalize tagOf? members = tag, (members.lookup "id").bind idOf? = id
  split
  case h_1 | h_2 | h_3 | h_4 => cases itemsOfMembers members <;> rfl
  case h_5 => cases dataOfMembers members <;> rfl
  case h_6 => rfl
  case h_7 => simp_all

-- Whether an object has what its tag asks for: an id, a list of items, an object with fields.
def complete (tag : Option String) (id items data : Bool) : Bool :=
  match tag with
  | some "list" => id && items
  | some "tuple" | some "set" | some "deque" => items
  | some "object" => id && data
  | some "cyclic" => id
  | _ => false

theorem tagged?_isSome (members : List (String × Json)) :
    (tagged? members).isSome =
      complete (tagOf? members) ((members.lookup "id").bind idOf?).isSome
        (itemsOfMembers members).isSome (dataOfMembers members).isSome := by
  rw [tagged?]
  generalize tagOf? members = tag, (members.lookup "id").bind idOf? = id
  split
  case h_7 => cases id <;> unfold complete <;> split <;> simp_all
  all_goals simp [complete]

/-! ### Copies that come back -/

-- Of a copy itself, not of its parts: a number is finite, and no entries are taken for those of a
-- container with a tag.
def Readable : Snapshot → Prop
  | float f => f.isFinite = true
  | mapping entries => tagged? (fieldsToJson entries) = Option.none
  | _ => True

theorem map_ofJson_toJson {items : List Snapshot} (back : ∀ v ∈ items, ofJson v.toJson = v) :
    (items.map toJson).map ofJson = items := by
  rw [List.map_map]
  exact (List.map_congr_left back).trans items.map_id

theorem map_ofJson_toJson_fields {fields : List (String × Snapshot)}
    (back : ∀ v ∈ fields.map Prod.snd, ofJson v.toJson = v) :
    (fields.map fun (k, v) => (k, v.toJson)).map (fun (k, j) => (k, ofJson j)) = fields := by
  rw [List.map_map]
  apply (List.map_congr_left (g := id) fun field hfield => ?_).trans fields.map_id
  simp [back field.2 (List.mem_map_of_mem hfield)]

theorem ofJson_toJson {v : Snapshot} (readable : v.All Readable) : ofJson v.toJson = v := by
  induction readable with
  | @intro v here _ ih =>
    cases v with
    | none | bool | str => simp [toJson, ofJson]
    | int n => simp [toJson, ofJson]
    | float f =>
      have finite : f.isFinite = true := here
      simp [toJson, finite, ofJson]
    | plainList items =>
      have back : (items.map toJson).map ofJson = items := map_ofJson_toJson ih
      simp only [toJson, ofJson, itemsToJson_eq_map, itemsOfJson_eq_map, back]
    | list id items | tuple items | set items | deque items =>
      have back : (items.map toJson).map ofJson = items := map_ofJson_toJson ih
      simp only [toJson, tagged, ofJson_obj, tagged?, tagOf?, tagName, itemsOfMembers_eq]
      simp [List.lookup_cons, idOf?, Json.str?, -List.map_map, back]
    | mapping entries =>
      have untagged : tagged? (fieldsToJson entries) = Option.none := here
      have back : (entries.map fun (k, v) => (k, v.toJson)).map (fun (k, j) => (k, ofJson j)) =
          entries := map_ofJson_toJson_fields ih
      rw [toJson, ofJson_obj, untagged, fieldsToJson_eq_map, back]
      rfl
    | object id cls fields =>
      have back : (fields.map fun (k, v) => (k, v.toJson)).map (fun (k, j) => (k, ofJson j)) =
          fields := map_ofJson_toJson_fields ih
      simp only [toJson, tagged, ofJson_obj, tagged?, tagOf?, tagName, dataOfMembers_eq]
      simp only [fieldsToJson_eq_map]
      simp [List.lookup_cons, idOf?, Json.str?, -List.map_map]
      exact back
    | cyclic id =>
      simp [toJson, tagged, ofJson_obj, tagged?, tagOf?, tagName, List.lookup_cons, idOf?,
        Json.str?]

/-! ### Copies that no tag confuses -/

-- Of a copy itself: a number is finite, no entry is a tag.
def Unambiguous : Snapshot → Prop
  | float f => f.isFinite = true
  | mapping entries => ∀ tag ∈ tags, (tagName, str tag) ∉ entries
  | _ => True

theorem tagOf?_of_tagged? {members : List (String × Json)} (h : (tagged? members).isSome) :
    ∃ tag ∈ tags, tagOf? members = some tag := by
  rw [tagged?_isSome] at h
  generalize tagOf? members = tag at h
  unfold complete at h
  split at h
  case h_7 => cases h
  all_goals exact ⟨_, by decide, rfl⟩

theorem lookup_fieldsToJson (entries : List (String × Snapshot)) (k : String) :
    (fieldsToJson entries).lookup k = (entries.lookup k).map toJson := by
  induction entries with
  | nil => rfl
  | cons entry rest ih =>
    rw [fieldsToJson, List.lookup_cons, List.lookup_cons, ih]
    split <;> rfl

-- Only a text is written as a text, if numbers are finite.
theorem eq_str_of_toJson {v : Snapshot} (h : v.Unambiguous) {s : String}
    (text : v.toJson.str? = some s) : v = str s := by
  cases v with
  | str => simpa [toJson, Json.str?] using text
  | float f =>
    have finite : f.isFinite = true := h
    simp [toJson, finite, Json.str?] at text
  | _ => simp [toJson, tagged, Json.str?] at text

theorem readable_of_unambiguous {v : Snapshot} (h : v.All Unambiguous) : v.All Readable := by
  induction h with
  | @intro v here inside ih =>
    refine .intro ?_ ih
    cases v with
    | float f => exact here
    | mapping entries =>
      rw [Readable, ← Option.not_isSome_iff_eq_none]
      intro looks
      obtain ⟨tag, known, tagOf⟩ := tagOf?_of_tagged? looks
      rw [tagOf?, lookup_fieldsToJson] at tagOf
      obtain ⟨j, found, text⟩ := Option.bind_eq_some_iff.mp tagOf
      obtain ⟨w, entry, rfl⟩ := Option.map_eq_some_iff.mp found
      have part : (tagName, w) ∈ entries := by
        obtain ⟨before, after, rfl, -⟩ := List.lookup_eq_some_iff.mp entry
        simp
      have unambiguous := (inside w (List.mem_map_of_mem part)).here
      rw [eq_str_of_toJson unambiguous text] at part
      exact here tag known part
    | _ => trivial

/-- Reading undoes writing, if numbers are finite and no entry of a mapping is a tag. -/
theorem reading_undoes_writing {v : Snapshot} (h : v.All Unambiguous) : ofJson v.toJson = v :=
  ofJson_toJson (readable_of_unambiguous h)

-- A tracked list in an object that has a field with the name of the tag, and a mapping whose tag is
-- that of no container.
theorem reading_undoes_writing_nested :
    let entries := mapping [("b", float 1.5), ("__type__", str "heap"), ("a", cyclic "7")]
    let v := object "7" "Node" [("rest", list "8" [entries, int 1]), ("__type__", str "list")]
    v.All Unambiguous ∧ ofJson v.toJson = v := by
  intro entries v
  have half : Unambiguous (float 1.5) := by
    rw [Unambiguous]
    decide +kernel
  have inner : entries.All Unambiguous := by
    apply Throughout.intro
    next => simp [entries, Unambiguous, tags, tagName]
    next => simpa [entries, parts] using ⟨.leaf half rfl, .leaf trivial rfl, .leaf trivial rfl⟩
  have rest : (list "8" [entries, int 1]).All Unambiguous :=
    .intro trivial (by simpa [parts] using ⟨inner, .leaf trivial rfl⟩)
  have h : v.All Unambiguous :=
    .intro trivial (by simpa [v, parts] using ⟨rest, .leaf trivial rfl⟩)
  exact ⟨h, reading_undoes_writing h⟩

end Snapshot

/-! ### Documents that copies are read from -/

namespace Json

inductive Kind
  | null | bool | number | text (s : String) | array | object

-- What reading a document as a copy and writing it again leaves as it is.
def kind : Json → Kind
  | null => .null
  | bool _ => .bool
  | int _ | float _ => .number
  | str s => .text s
  | arr _ => .array
  | obj _ => .object

-- Infinite numbers are in no document; integers may have any size that a fraction can have.
def Finite (j : Json) : Prop := ∀ f, j.float? = some f → f.isFinite = true

end Json

namespace Snapshot

section

variable {members members' : List (String × Json)}

theorem tagOf?_eq_some_iff {tag : String} :
    tagOf? members = some tag ↔ (members.lookup tagName).map Json.kind = some (.text tag) := by
  rw [tagOf?]
  rcases members.lookup tagName with _ | j
  · simp
  · cases j <;> simp [Json.str?, Json.kind]

theorem idOf?_isSome_iff :
    ((members.lookup "id").bind idOf?).isSome ↔
      (members.lookup "id").map Json.kind = some .number ∨
        ∃ s, (members.lookup "id").map Json.kind = some (.text s) := by
  rcases members.lookup "id" with _ | j
  · simp
  · cases j <;> simp [idOf?, Json.kind]

theorem itemsOfMembers_isSome_iff :
    (itemsOfMembers members).isSome ↔ (members.lookup "items").map Json.kind = some .array := by
  rw [itemsOfMembers_eq]
  rcases members.lookup "items" with _ | j
  · simp
  · cases j <;> simp [Json.kind]

theorem dataOfMembers_isSome_iff :
    (dataOfMembers members).isSome ↔ (members.lookup "data").map Json.kind = some .object := by
  rw [dataOfMembers_eq]
  rcases members.lookup "data" with _ | j
  · simp
  · cases j <;> simp [Json.kind]

-- Whether a tag fits is decided by the kinds of the members.
theorem tagged?_isSome_congr
    (same : ∀ k, (members.lookup k).map Json.kind = (members'.lookup k).map Json.kind) :
    (tagged? members).isSome = (tagged? members').isSome := by
  have tag : tagOf? members = tagOf? members' := by
    apply Option.ext
    simp [tagOf?_eq_some_iff, same]
  have id : ((members.lookup "id").bind idOf?).isSome =
      ((members'.lookup "id").bind idOf?).isSome := by
    rw [Bool.eq_iff_iff]
    simp only [idOf?_isSome_iff, same]
  have items : (itemsOfMembers members).isSome = (itemsOfMembers members').isSome := by
    rw [Bool.eq_iff_iff]
    simp only [itemsOfMembers_isSome_iff, same]
  have data : (dataOfMembers members).isSome = (dataOfMembers members').isSome := by
    rw [Bool.eq_iff_iff]
    simp only [dataOfMembers_isSome_iff, same]
  rw [tagged?_isSome, tagged?_isSome, tag, id, items, data]

end

theorem kind_obj (members : List (String × Json)) :
    (ofJson (.obj members)).toJson.kind = .object := by
  rw [ofJson_obj]
  cases looks : tagged? members with
  | none => simp [toJson, Json.kind]
  | some v =>
    rw [Option.getD_some]
    unfold tagged? at looks
    split at looks
    case h_6 =>
      cases looks
      simp [toJson, tagged, Json.kind]
    case h_7 => cases looks
    all_goals
      obtain ⟨_, _, rfl⟩ := Option.map_eq_some_iff.mp looks
      simp [toJson, tagged, Json.kind]

theorem kind_reread {j : Json} (finite : j.Finite) : (ofJson j).toJson.kind = j.kind := by
  cases j with
  | null | bool | str | arr => simp [ofJson, toJson, Json.kind]
  | int n =>
    rw [ofJson]
    cases Number.ofInt? n with
    | none => simp [toJson, finite _ rfl, Json.kind]
    | some w => simp [toJson, Json.kind]
  | float f => simp [ofJson, toJson, finite f rfl, Json.kind]
  | obj members => exact kind_obj members

theorem tagged?_reread {members : List (String × Json)}
    (finite : ∀ j ∈ members.map Prod.snd, j.Finite) :
    (tagged? (fieldsToJson (members.map fun (k, j) => (k, ofJson j)))).isSome =
      (tagged? members).isSome := by
  apply tagged?_isSome_congr
  intro k
  rw [lookup_fieldsToJson]
  induction members with
  | nil => rfl
  | cons member rest ih =>
    obtain ⟨head, tail⟩ := List.forall_mem_cons.mp finite
    rw [List.map_cons, List.lookup_cons, List.lookup_cons]
    split
    next => simp [kind_reread head]
    next => exact ih tail

theorem mem_of_lookup {members : List (String × Json)} {k : String} {j : Json}
    (found : members.lookup k = some j) : j ∈ members.map Prod.snd := by
  obtain ⟨before, after, rfl, -⟩ := List.lookup_eq_some_iff.mp found
  simp

theorem eq_of_itemsOfMembers {members : List (String × Json)} {items : List Snapshot}
    (h : itemsOfMembers members = some items) :
    ∃ js, .arr js ∈ members.map Prod.snd ∧ items = js.map ofJson := by
  rw [itemsOfMembers_eq] at h
  split at h
  next js found => exact ⟨js, mem_of_lookup found, (Option.some.inj h).symm⟩
  next => cases h

theorem eq_of_dataOfMembers {members : List (String × Json)} {fields : List (String × Snapshot)}
    (h : dataOfMembers members = some fields) :
    ∃ inner, .obj inner ∈ members.map Prod.snd ∧
      fields = inner.map fun (k, j) => (k, ofJson j) := by
  rw [dataOfMembers_eq] at h
  split at h
  next inner found => exact ⟨inner, mem_of_lookup found, (Option.some.inj h).symm⟩
  next => cases h

theorem All.of_parts {v : Snapshot} {js : List Json} (here : v.Readable)
    (parts : v.parts = js.map ofJson) (inner : ∀ j ∈ js, (ofJson j).All Readable) :
    v.All Readable := by
  apply Throughout.intro here
  intro part hpart
  rw [parts] at hpart
  obtain ⟨j, hj, rfl⟩ := List.mem_map.mp hpart
  exact inner j hj

-- What is in a container with a tag lies two levels below it in the document.
theorem all_of_tagged? {members : List (String × Json)} {v : Snapshot}
    (looks : tagged? members = some v)
    (below : ∀ j ∈ members.map Prod.snd, ∀ part ∈ j.parts, (ofJson part).All Readable) :
    v.All Readable := by
  unfold tagged? at looks
  split at looks
  case h_1 | h_2 | h_3 | h_4 =>
    obtain ⟨items, fit, rfl⟩ := Option.map_eq_some_iff.mp looks
    obtain ⟨js, member, rfl⟩ := eq_of_itemsOfMembers fit
    exact .of_parts trivial rfl (below _ member)
  case h_5 =>
    obtain ⟨fields, fit, rfl⟩ := Option.map_eq_some_iff.mp looks
    obtain ⟨inner, member, rfl⟩ := eq_of_dataOfMembers fit
    exact .of_parts trivial (by simp [parts, Json.parts]) (below _ member)
  case h_6 =>
    cases looks
    exact .leaf trivial rfl
  case h_7 => cases looks

-- A tag may take its items from the parts of a part, so these are looked after as well.
theorem readable_of_finite {j : Json} (finite : j.All Json.Finite) :
    (ofJson j).All Readable ∧ ∀ part ∈ j.parts, (ofJson part).All Readable := by
  induction finite with
  | @intro j here inside ih =>
    have inner : ∀ part ∈ j.parts, (ofJson part).All Readable := fun part h => (ih part h).1
    refine ⟨?_, inner⟩
    cases j with
    | null | bool | str => exact .leaf trivial rfl
    | int n =>
      rw [ofJson]
      split
      next => exact .leaf trivial rfl
      next => exact .leaf (here _ rfl) rfl
    | float f => exact .leaf (here f rfl) rfl
    | arr items =>
      rw [ofJson, itemsOfJson_eq_map]
      exact .of_parts trivial rfl inner
    | obj members =>
      rw [ofJson_obj]
      cases looks : tagged? members with
      | some v => exact all_of_tagged? looks fun j hj => (ih j hj).2
      | none =>
        have reread := tagged?_reread fun j hj => (inside j hj).here
        rw [looks, Option.isSome_none, Option.isSome_eq_false_iff, Option.isNone_iff_eq_none]
          at reread
        exact .of_parts reread (by simp [parts, Json.parts]) inner

/--
Writing what was read and reading it again changes nothing, however little the document fits. A
mapping that a tag was left in stays a mapping.
-/
theorem rereading_changes_nothing {j : Json} (finite : j.All Json.Finite) :
    ofJson (ofJson j).toJson = ofJson j ∧
      ∀ entries, ofJson j = mapping entries →
        ofJson (.obj (fieldsToJson entries)) = mapping entries := by
  have again := ofJson_toJson (readable_of_finite finite).1
  refine ⟨again, fun entries degraded => ?_⟩
  rw [degraded, toJson] at again
  exact again

-- A list without items, under an id that is a number beyond 64 bits.
theorem rereading_changes_nothing_malformed :
    let j := Json.obj [("__type__", .str "list"), ("id", .int 0x10000000000000000),
      ("items", .obj [("__type__", .str "cyclic"), ("id", .int 7)])]
    j.All Json.Finite ∧
      ofJson j = mapping [("__type__", str "list"), ("id", float (Float.ofInt 0x10000000000000000)),
        ("items", cyclic "7")] ∧
      ofJson (ofJson j).toJson = ofJson j := by
  intro j
  have text : ∀ s, (Json.str s).All Json.Finite := fun _ => .leaf nofun rfl
  have number : ∀ n, (Float.ofInt n).isFinite = true → (Json.int n).All Json.Finite :=
    fun n finite => .leaf (by simp [Json.Finite, Json.float?, finite]) rfl
  have beyond : (Json.int 0x10000000000000000).All Json.Finite := number _ (by decide +kernel)
  have seven : (Json.int 7).All Json.Finite := number _ (by decide +kernel)
  have items : (Json.obj [("__type__", .str "cyclic"), ("id", .int 7)]).All Json.Finite := by
    apply Throughout.intro
    next => simp [Json.Finite, Json.float?]
    next => simpa [Json.parts] using ⟨text _, seven⟩
  have finite : j.All Json.Finite := by
    apply Throughout.intro
    next => simp [j, Json.Finite, Json.float?]
    next => simpa [j, Json.parts] using ⟨text _, beyond, items⟩
  exact ⟨finite, by rfl, (rereading_changes_nothing finite).1⟩

end Snapshot

end StepTrace
