import Mathlib.Data.List.Forall2
import Mathlib.Data.List.Perm.Subperm
import StepTrace.Proofs.Indexes

/-!
Values that a program can write down, as trees, and the values on a heap that such trees stand for.
-/

set_option autoImplicit false

namespace StepTrace

inductive Literal
  | none
  | bool (b : Bool)
  | int (n : Int64)
  | str (s : String)
  | list (items : List Literal)
  | tuple (items : List Literal)
  | dict (entries : List (Literal × Literal))
  | set (items : List Literal)

namespace Literal

@[induction_eliminator]
theorem induction {P : Literal → Prop} (none : P .none) (bool : ∀ b, P (.bool b))
    (int : ∀ n, P (.int n)) (str : ∀ s, P (.str s))
    (list : ∀ items, (∀ l ∈ items, P l) → P (.list items))
    (tuple : ∀ items, (∀ l ∈ items, P l) → P (.tuple items))
    (dict : ∀ entries : List (Literal × Literal), (∀ e ∈ entries, P e.1 ∧ P e.2) →
      P (.dict entries))
    (set : ∀ items, (∀ l ∈ items, P l) → P (.set items)) (l : Literal) : P l :=
  Literal.rec (motive_1 := P) (motive_2 := fun items => ∀ l ∈ items, P l)
    (motive_3 := fun entries => ∀ e ∈ entries, P e.1 ∧ P e.2) (motive_4 := fun e => P e.1 ∧ P e.2)
    none bool int str list tuple dict set (List.forall_mem_nil _)
    (fun _ _ first others => List.forall_mem_cons.2 ⟨first, others⟩) (List.forall_mem_nil _)
    (fun _ _ first others => List.forall_mem_cons.2 ⟨first, others⟩) (fun _ _ => And.intro) l

mutual

-- How many containers are inside each other.
def depth : Literal → Nat
  | list items | tuple items | set items => depthAll items + 1
  | dict entries => depthEntries entries + 1
  | _ => 0

def depthAll : List Literal → Nat
  | [] => 0
  | l :: rest => max l.depth (depthAll rest)

def depthEntries : List (Literal × Literal) → Nat
  | [] => 0
  | (k, v) :: rest => max (max k.depth v.depth) (depthEntries rest)

end

mutual

-- How many containers there are.
def containers : Literal → Nat
  | list items | tuple items | set items => containersAll items + 1
  | dict entries => containersEntries entries + 1
  | _ => 0

def containersAll : List Literal → Nat
  | [] => 0
  | l :: rest => l.containers + containersAll rest

def containersEntries : List (Literal × Literal) → Nat
  | [] => 0
  | (k, v) :: rest => k.containers + v.containers + containersEntries rest

end

-- The literals right inside a container.
def parts : Literal → List Literal
  | list items | tuple items | set items => items
  | dict entries => entries.flatMap fun e => [e.1, e.2]
  | _ => []

theorem depth_le_depthAll {l : Literal} {items : List Literal} (h : l ∈ items) :
    l.depth ≤ depthAll items := by
  induction items with
  | nil => cases h
  | cons first rest ih =>
    rw [depthAll]
    rcases List.mem_cons.1 h with rfl | h
    · exact Nat.le_max_left ..
    · exact Nat.le_trans (ih h) (Nat.le_max_right ..)

theorem depthAll_attained (items : List Literal) :
    depthAll items = 0 ∨ ∃ l ∈ items, l.depth = depthAll items := by
  induction items with
  | nil => exact .inl rfl
  | cons first rest ih =>
    rw [depthAll]
    rcases Nat.le_total first.depth (depthAll rest) with le | le
    · rw [Nat.max_eq_right le]
      exact ih.imp id fun ⟨l, hl, same⟩ => ⟨l, List.mem_cons_of_mem _ hl, same⟩
    · rw [Nat.max_eq_left le]
      exact .inr ⟨first, List.mem_cons_self, rfl⟩

theorem depthEntries_eq (entries : List (Literal × Literal)) :
    depthEntries entries = depthAll (entries.flatMap fun e => [e.1, e.2]) := by
  induction entries with
  | nil => rfl
  | cons first rest ih =>
    rw [depthEntries, ih, Nat.max_assoc]
    rfl

-- Of the parts of a container at least one is as deep as the container allows.
theorem deepest (l : Literal) : l.depth ≤ 1 ∨ ∃ part ∈ l.parts, l.depth = part.depth + 1 := by
  have of_all : ∀ items, depthAll items + 1 ≤ 1 ∨
      ∃ part ∈ items, depthAll items + 1 = part.depth + 1 := by
    intro items
    rcases depthAll_attained items with shallow | ⟨part, here, same⟩
    · exact .inl (by omega)
    · exact .inr ⟨part, here, by omega⟩
  cases l with
  | list items | tuple items | set items => exact of_all items
  | dict entries =>
    rw [depth, depthEntries_eq]
    exact of_all _
  | _ => exact .inl (Nat.zero_le _)

theorem depth_lt {l part : Literal} (h : part ∈ l.parts) : part.depth < l.depth := by
  cases l with
  | list items | tuple items | set items => exact Nat.lt_succ_of_le (depth_le_depthAll h)
  | dict entries =>
    rw [depth, depthEntries_eq]
    exact Nat.lt_succ_of_le (depth_le_depthAll h)
  | _ => cases h

theorem below_room {l : Literal} {room : Nat} (deep : l.depth < room) :
    ∃ n, room = n + 1 ∧ ∀ part ∈ l.parts, part.depth < n := by
  cases room with
  | zero => cases deep
  | succ n =>
    exact ⟨n, rfl, fun part here => Nat.lt_of_lt_of_le (depth_lt here) (Nat.le_of_lt_succ deep)⟩

end Literal

/-! ### On a heap -/

-- The value is built from no others than those that the literal spells. The least integer has no
-- literal, as a sign is not part of a number, and the empty set has none at all. Dictionaries and
-- sets are indexed by the hash keys of their keys, as they are all along a run.
inductive Heap.Spells (h : Heap) : Value → Literal → Prop
  | none : Spells h .none .none
  | bool (b : Bool) : Spells h (.bool b) (.bool b)
  | int {n : Int64} (other : n ≠ Int64.minValue) : Spells h (.int n) (.int n)
  | str (s : String) : Spells h (.str s) (.str s)
  | list {id : ObjId} {l : ListObject} {items : List Literal} (found : h.get? id = some (.list l))
    (spelled : List.Forall₂ (Spells h) l.items.toList items) : Spells h (.ref id) (.list items)
  | tuple {id : ObjId} {vs : Array Value} {items : List Literal}
    (found : h.get? id = some (.tuple vs)) (spelled : List.Forall₂ (Spells h) vs.toList items) :
    Spells h (.ref id) (.tuple items)
  | dict {id : ObjId} {d : DictObject} {entries : List (Literal × Literal)}
    (found : h.get? id = some (.dict d)) (plain : d.factory = Option.none)
    (indexed : DictIndexed h d)
    (keys : List.Forall₂ (Spells h) d.keys (entries.map Prod.fst))
    (values : List.Forall₂ (Spells h) (d.entries.values.map Prod.snd) (entries.map Prod.snd)) :
    Spells h (.ref id) (.dict entries)
  | set {id : ObjId} {s : SetObject} {items : List Literal} (found : h.get? id = some (.set s))
    (some : items ≠ []) (indexed : SetIndexed h s)
    (spelled : List.Forall₂ (Spells h) s.values items) : Spells h (.ref id) (.set items)

theorem forall₂_pairs {α β : Type} {R : α → β → Prop} {as : List (α × α)} {bs : List (β × β)}
    (first : List.Forall₂ R (as.map Prod.fst) (bs.map Prod.fst))
    (second : List.Forall₂ R (as.map Prod.snd) (bs.map Prod.snd)) :
    List.Forall₂ (fun a b => R a.1 b.1 ∧ R a.2 b.2) as bs := by
  rw [List.forall₂_map_left_iff, List.forall₂_map_right_iff] at first second
  induction first with
  | nil => exact .nil
  | cons first₁ _ ih =>
    cases second with
    | cons second₁ second => exact .cons ⟨first₁, second₁⟩ (ih second)

namespace Heap.Spells

variable {h : Heap} {v : Value} {l l' : Literal}

theorem eq_of_forall₂ {vs : List Value} {items items' : List Literal}
    (ih : ∀ l ∈ items, ∀ v l', h.Spells v l → h.Spells v l' → l = l')
    (spelled : List.Forall₂ h.Spells vs items) (spelled' : List.Forall₂ h.Spells vs items') :
    items = items' := by
  induction spelled generalizing items' with
  | nil =>
    cases spelled'
    rfl
  | cons first _ rest =>
    obtain ⟨same, ih⟩ := List.forall_mem_cons.1 ih
    cases spelled' with
    | cons first' others' => rw [same _ _ first first', rest ih others']

-- A value spells as one literal only.
theorem unique (spells : h.Spells v l) (spells' : h.Spells v l') : l = l' := by
  induction l generalizing v l' with
  | none | bool | int | str =>
    cases spells
    cases spells'
    rfl
  | list items ih =>
    cases spells with
    | list found spelled =>
      cases spells' with
      | list found' spelled' =>
        cases found.symm.trans found'
        rw [eq_of_forall₂ (fun l hl _ _ => ih l hl) spelled spelled']
      | tuple found' | dict found' | set found' => cases found.symm.trans found'
  | tuple items ih =>
    cases spells with
    | tuple found spelled =>
      cases spells' with
      | tuple found' spelled' =>
        cases found.symm.trans found'
        rw [eq_of_forall₂ (fun l hl _ _ => ih l hl) spelled spelled']
      | list found' | dict found' | set found' => cases found.symm.trans found'
  | dict entries ih =>
    cases spells with
    | dict found _ _ keys values =>
      cases spells' with
      | dict found' _ _ keys' values' =>
        cases found.symm.trans found'
        have first := eq_of_forall₂ (List.forall_mem_map.2 fun e he _ _ => (ih e he).1) keys keys'
        have second :=
          eq_of_forall₂ (List.forall_mem_map.2 fun e he _ _ => (ih e he).2) values values'
        rw [List.zip_of_prod first second, ← List.zip_of_prod rfl rfl]
      | list found' | tuple found' | set found' => cases found.symm.trans found'
  | set items ih =>
    cases spells with
    | set found _ _ spelled =>
      cases spells' with
      | set found' _ _ spelled' =>
        cases found.symm.trans found'
        rw [eq_of_forall₂ (fun l hl _ _ => ih l hl) spelled spelled']
      | list found' | tuple found' | dict found' => cases found.symm.trans found'

theorem exists_of_mem {vs : List Value} {items : List Literal}
    (spelled : List.Forall₂ h.Spells vs items) : ∀ l ∈ items, ∃ v, h.Spells v l := by
  induction spelled with
  | nil => exact List.forall_mem_nil _
  | cons first _ ih => exact List.forall_mem_cons.2 ⟨⟨_, first⟩, ih⟩

theorem of_part (spells : h.Spells v l) : ∀ part ∈ l.parts, ∃ w, h.Spells w part := by
  cases spells with
  | none | bool | int | str => exact List.forall_mem_nil _
  | list _ spelled | tuple _ spelled | set _ _ _ spelled => exact exists_of_mem spelled
  | dict _ _ _ keys values =>
    intro part here
    obtain ⟨e, he, here⟩ := List.mem_flatMap.1 here
    rcases List.mem_pair.1 here with rfl | rfl
    · exact exists_of_mem keys _ (List.mem_map_of_mem he)
    · exact exists_of_mem values _ (List.mem_map_of_mem he)

theorem ref_of_depth (spells : h.Spells v l) (deep : 0 < l.depth) :
    ∃ id, v = .ref id ∧ id < h.size := by
  cases spells with
  | none | bool | int | str => cases deep
  | list found | tuple found | dict found | set found =>
    exact ⟨_, rfl, (Array.getElem?_eq_some_iff.1 found).1⟩

-- The containers around a value: each spells as a literal that is deeper than its own.
def Around (h : Heap) (path : List ObjId) (l : Literal) : Prop :=
  ∀ id ∈ path, ∃ outer, h.Spells (.ref id) outer ∧ l.depth < outer.depth

theorem Around.not_mem {path : List ObjId} {id : ObjId} (around : Around h path l)
    (spells : h.Spells (.ref id) l) : id ∉ path := by
  intro here
  obtain ⟨outer, spells', deeper⟩ := around id here
  rw [spells.unique spells'] at deeper
  exact Nat.lt_irrefl _ deeper

theorem Around.cons {path : List ObjId} {id : ObjId} {part : Literal} (around : Around h path l)
    (spells : h.Spells (.ref id) l) (here : part ∈ l.parts) : Around h (id :: path) part := by
  have inside := Literal.depth_lt here
  refine List.forall_mem_cons.2 ⟨⟨l, spells, inside⟩, fun id' here' => ?_⟩
  obtain ⟨outer, spells', deeper⟩ := around id' here'
  exact ⟨outer, spells', Nat.lt_trans inside deeper⟩

theorem Around.lt_size {path : List ObjId} (around : Around h path l) :
    ∀ id ∈ path, id < h.size := by
  intro id here
  obtain ⟨outer, spells, deeper⟩ := around id here
  obtain ⟨_, same, old⟩ := spells.ref_of_depth (Nat.zero_lt_of_lt deeper)
  cases same
  exact old

theorem length_le_size {path : List ObjId} (distinct : path.Nodup)
    (old : ∀ id ∈ path, id < h.size) : path.length ≤ h.size := by
  have ids : path ⊆ List.range h.size := fun id here => List.mem_range.2 (old id here)
  have le := (List.subperm_of_subset distinct ids).length_le
  rwa [List.length_range] at le

-- No container is inside itself, so there are at least as many objects as containers in a row.
theorem depth_add_length_le (spells : h.Spells v l) {path : List ObjId} (distinct : path.Nodup)
    (around : Around h path l) : l.depth + path.length ≤ h.size := by
  obtain ⟨n, bound⟩ : ∃ n, l.depth ≤ n := ⟨_, Nat.le_refl _⟩
  induction n generalizing v l path with
  | zero =>
    have := length_le_size distinct around.lt_size
    omega
  | succ n ih =>
    rcases Nat.eq_zero_or_pos l.depth with leaf | deep
    · have := length_le_size distinct around.lt_size
      omega
    · obtain ⟨id, rfl, old⟩ := spells.ref_of_depth deep
      have distinct' : (id :: path).Nodup := List.nodup_cons.2 ⟨around.not_mem spells, distinct⟩
      rcases l.deepest with shallow | ⟨part, here, same⟩
      · have := length_le_size distinct' (List.forall_mem_cons.2 ⟨old, around.lt_size⟩)
        rw [List.length_cons] at this
        omega
      · obtain ⟨w, inner⟩ := spells.of_part part here
        have := ih inner distinct' (around.cons spells here) (by omega)
        rw [List.length_cons] at this
        omega

theorem depth_le (spells : h.Spells v l) : l.depth ≤ h.size :=
  spells.depth_add_length_le List.nodup_nil (List.forall_mem_nil _)

end Heap.Spells

end StepTrace
