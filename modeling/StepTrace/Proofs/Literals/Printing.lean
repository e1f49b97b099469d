import Mathlib
import StepTrace.Display
import StepTrace.Proofs.Literals.Basic

/-!
The texts of literals. They are those that their values show.
-/

set_option autoImplicit false

namespace StepTrace

namespace Literal

mutual

def text : Literal → String
  | none => "None"
  | bool b => if b then "True" else "False"
  | int n => toString n.toInt
  | str s => Text.quoted s
  | list items => "[" ++ ", ".intercalate (textAll items) ++ "]"
  | tuple [item] => "(" ++ item.text ++ ",)"
  | tuple items => "(" ++ ", ".intercalate (textAll items) ++ ")"
  | dict entries => "\x7b" ++ ", ".intercalate (textEntries entries) ++ "\x7d"
  | set items => "\x7b" ++ ", ".intercalate (textAll items) ++ "\x7d"

def textAll : List Literal → List String
  | [] => []
  | l :: rest => l.text :: textAll rest

def textEntries : List (Literal × Literal) → List String
  | [] => []
  | (k, v) :: rest => (k.text ++ ": " ++ v.text) :: textEntries rest

end

theorem textAll_eq_map (items : List Literal) : textAll items = items.map text :=
  eq_map_of_cons rfl (fun _ _ => rfl) items

theorem textEntries_eq_map (entries : List (Literal × Literal)) :
    textEntries entries = entries.map fun e => e.1.text ++ ": " ++ e.2.text :=
  eq_map_of_cons rfl (fun _ _ => rfl) entries

end Literal

theorem appendSeparated_eq {α : Type} {item : String → α → String} {as : List α}
    {texts : List String}
    (items : List.Forall₂ (fun a text => ∀ out, item out a = out ++ text) as texts) (out : String) :
    appendSeparated item out as = out ++ ", ".intercalate texts := by
  induction items generalizing out with
  | nil => simp [appendSeparated]
  | cons first others ih =>
    cases others with
    | nil => simp [appendSeparated, first]
    | cons second others =>
      rw [appendSeparated, ih, first, String.intercalate_cons_cons]
      · simp only [String.append_assoc]
      · simp

namespace Heap.Spells

variable {h : Heap} {v : Value} {l : Literal}

theorem forall₂_text {item : String → Value → String} {vs : List Value} {items : List Literal}
    (written : ∀ l ∈ items, ∀ v, h.Spells v l → ∀ out, item out v = out ++ l.text)
    (spelled : List.Forall₂ h.Spells vs items) :
    List.Forall₂ (fun v text => ∀ out, item out v = out ++ text) vs (items.map Literal.text) := by
  induction spelled with
  | nil => exact .nil
  | cons first _ rest =>
    obtain ⟨written₁, written⟩ := List.forall_mem_cons.1 written
    exact .cons (written₁ _ first) (rest written)

theorem appendSeparated_items {item : String → Value → String} {vs : List Value}
    {items : List Literal}
    (written : ∀ l ∈ items, ∀ v, h.Spells v l → ∀ out, item out v = out ++ l.text)
    (spelled : List.Forall₂ h.Spells vs items) (out : String) :
    appendSeparated item out vs = out ++ ", ".intercalate (Literal.textAll items) := by
  rw [Literal.textAll_eq_map]
  exact appendSeparated_eq (forall₂_text written spelled) out

theorem appendSeparated_entries {item : String → Value → String} {kvs : List (Value × Value)}
    {entries : List (Literal × Literal)}
    (written : ∀ e ∈ entries, ∀ v, (h.Spells v e.1 → ∀ out, item out v = out ++ e.1.text) ∧
      (h.Spells v e.2 → ∀ out, item out v = out ++ e.2.text))
    (keys : List.Forall₂ h.Spells (kvs.map Prod.fst) (entries.map Prod.fst))
    (values : List.Forall₂ h.Spells (kvs.map Prod.snd) (entries.map Prod.snd)) (out : String) :
    appendSeparated (fun out (kv : Value × Value) => item (item out kv.1 ++ ": ") kv.2) out kvs =
      out ++ ", ".intercalate (Literal.textEntries entries) := by
  rw [Literal.textEntries_eq_map]
  refine appendSeparated_eq ?_ out
  have pairs := forall₂_pairs keys values
  clear keys values
  induction pairs with
  | nil => exact .nil
  | cons first _ rest =>
    obtain ⟨written₁, written⟩ := List.forall_mem_cons.1 written
    refine .cons (fun out => ?_) (rest written)
    rw [(written₁ _).1 first.1, (written₁ _).2 first.2]
    simp only [String.append_assoc]

theorem appendValue_ref {id : ObjId} {o : Object} {path : List ObjId} (found : h.get? id = some o)
    (outside : id ∉ path) (room : Nat) (out : String) :
    h.appendValue (room + 1) path out (.ref id) =
      h.appendObject (h.appendValue room (id :: path)) out o := by
  have no : path.contains id = false := by simpa using outside
  rw [Heap.appendValue, found]
  dsimp only
  rw [no]
  rfl

theorem appendObject_tuple {item : String → Value → String} {vs : Array Value}
    {items : List Literal}
    (written : ∀ l ∈ items, ∀ v, h.Spells v l → ∀ out, item out v = out ++ l.text)
    (spelled : List.Forall₂ h.Spells vs.toList items) (out : String) :
    h.appendObject item out (.tuple vs) = out ++ (Literal.tuple items).text := by
  rw [Heap.appendObject]
  generalize vs.toList = vs at spelled
  cases spelled with
  | nil =>
    change out ++ "(" ++ ")" = out ++ "()"
    simp only [String.append_assoc]
    rfl
  | @cons _ l _ _ first others =>
    cases others with
    | nil =>
      change item (out ++ "(") _ ++ ",)" = _
      rw [written l (List.mem_singleton_self l) _ first, Literal.text]
      simp only [String.append_assoc]
    | cons second others =>
      change appendSeparated item (out ++ "(") _ ++ ")" = _
      rw [appendSeparated_items written (.cons first (.cons second others)), Literal.text]
      · simp only [String.append_assoc]
      · simp

-- Inside the containers of `path` no container of the value shows as its ellipsis.
theorem appendValue_eq (spells : h.Spells v l) {path : List ObjId} (around : Around h path l)
    {room : Nat} (deep : l.depth < room) (out : String) :
    h.appendValue room path out v = out ++ l.text := by
  induction l generalizing v path room out with
  | none | bool | int | str =>
    cases spells
    cases deep <;> rfl
  | list items ih =>
    obtain ⟨room, rfl, inside⟩ := Literal.below_room deep
    have outer := spells
    cases spells with
    | list found spelled =>
      rw [appendValue_ref found (around.not_mem outer), Heap.appendObject, Literal.text,
        appendSeparated_items (fun l hl v spells =>
          ih l hl spells (around.cons outer hl) (inside l hl)) spelled]
      simp only [String.append_assoc]
  | tuple items ih =>
    obtain ⟨room, rfl, inside⟩ := Literal.below_room deep
    have outer := spells
    cases spells with
    | tuple found spelled =>
      have written : ∀ l ∈ items, ∀ v, h.Spells v l → ∀ out, _ = out ++ l.text := fun l hl v spells =>
        ih l hl spells (around.cons outer hl) (inside l hl)
      rw [appendValue_ref found (around.not_mem outer), appendObject_tuple written spelled]
  | dict entries ih =>
    obtain ⟨room, rfl, inside⟩ := Literal.below_room deep
    have outer := spells
    cases spells with
    | dict found plain indexed keys values =>
      rw [appendValue_ref found (around.not_mem outer), Heap.appendObject, plain, Literal.text]
      dsimp only
      rw [appendSeparated_entries (fun e he v => ?_) keys values]
      · simp only [String.append_assoc]
      · have parts : e.1 ∈ (Literal.dict entries).parts ∧ e.2 ∈ (Literal.dict entries).parts := by
          constructor <;> exact List.mem_flatMap.2 ⟨e, he, by simp⟩
        exact ⟨fun spells => (ih e he).1 spells (around.cons outer parts.1) (inside _ parts.1),
          fun spells => (ih e he).2 spells (around.cons outer parts.2) (inside _ parts.2)⟩
  | set items ih =>
    obtain ⟨room, rfl, inside⟩ := Literal.below_room deep
    have outer := spells
    cases spells with
    | @set id s items found some indexed spelled =>
      have filled : s.isEmpty = false := by
        refine Bool.eq_false_iff.2 fun empty => ?_
        have bare : s.entries = #[] := Array.isEmpty_iff.1 empty
        rw [Ordered.values, Ordered.toList, bare] at spelled
        exact some (List.forall₂_nil_left_iff.1 spelled)
      rw [appendValue_ref found (around.not_mem outer), Heap.appendObject, filled, Literal.text,
        appendSeparated_items (fun l hl v spells =>
          ih l hl spells (around.cons outer hl) (inside l hl)) spelled]
      simp only [String.append_assoc]
      rfl

theorem repr_eq (spells : h.Spells v l) : h.repr v = l.text := by
  have deep : l.depth < h.size + 2 := Nat.lt_add_right 1 (Nat.lt_succ_of_le spells.depth_le)
  rw [Heap.repr, spells.appendValue_eq (List.forall_mem_nil _) deep, String.empty_append]

end Heap.Spells

end StepTrace
