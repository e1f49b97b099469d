import Mathlib.Data.List.Basic
import StepTrace.View.Reconstruction

/-!
The order of variables over a session. Whatever is observed and moved, every name has one place, and
a name that is moved leaves the others in their order.
-/

set_option autoImplicit false

namespace StepTrace

/-! ### Members of a list put elsewhere -/

section

variable {α : Type} [DecidableEq α] {l : List α} {a b : α} {p : α → Bool}

theorem idxOf_filter (l : List α) (shown : p a) :
    (l.filter p).idxOf a = (l.take (l.idxOf a)).countP p := by
  induction l with
  | nil => rfl
  | cons x l ih =>
    by_cases same : x = a
    next => simp [same, shown]
    next => by_cases hx : p x <;> simp [List.idxOf_cons, hx, beq_false_of_ne same, ih]

-- Taken as far as the place of `b`, the list without `a` shows as many members as the whole one
-- shows before `b`.
theorem countP_take_erase (shownA : p a) (shownB : p b) (different : a ≠ b) (hb : b ∈ l) :
    ((l.erase a).take (l.idxOf b)).countP p = (l.filter p).idxOf b := by
  induction l with
  | nil => cases hb
  | cons x l ih =>
    by_cases atB : x = b
    next => simp [atB, shownB]
    next =>
      have later : b ∈ l := by simpa [Ne.symm atB] using hb
      by_cases atA : x = a
      next =>
        -- `a` was before `b`: without it all of them move up, `b` into the part that is counted
        have onward : l.take (l.idxOf b + 1) = l.take (l.idxOf b) ++ [b] := by
          rw [List.take_succ_eq_append_getElem (List.idxOf_lt_length_of_mem later),
            List.getElem_idxOf]
        simp [List.idxOf_cons, atA, beq_false_of_ne different, shownA, shownB, onward,
          idxOf_filter l shownB]
      next =>
        have rest := ih later
        by_cases hx : p x <;> simp [List.idxOf_cons, hx, atA, beq_false_of_ne atB, rest]

theorem idxOf_of_getElem? {i : Nat} (distinct : l.Nodup) (here : l[i]? = some a) :
    l.idxOf a = i := by
  obtain ⟨inside, rfl⟩ := List.getElem?_eq_some_iff.1 here
  exact distinct.idxOf_getElem i inside

theorem idxOf?_eq_some {i : Nat} (distinct : l.Nodup) : l.idxOf? a = some i ↔ l[i]? = some a := by
  rw [List.idxOf?_eq_some_iff, List.getElem?_eq_some_iff]
  constructor
  next =>
    rintro ⟨inside, here, -⟩
    exact ⟨inside, here⟩
  next =>
    rintro ⟨inside, rfl⟩
    refine ⟨inside, rfl, fun j before same => ?_⟩
    have place := distinct.idxOf_getElem j (by omega)
    rw [same, distinct.idxOf_getElem i inside] at place
    omega

end

namespace VariableOrder

variable {o o' : VariableOrder} {name target : String} {names : List String} {i : Nat}

theorem notMem_rest (distinct : names.Nodup) (i : Nat) : name ∉ (names.erase name).take i := by
  intro here
  exact distinct.not_mem_erase (List.mem_of_mem_take here)

theorem erase_placed (distinct : names.Nodup) (i : Nat) :
    (placed names name i).erase name = names.erase name := by
  unfold placed
  simp [List.erase_append_right _ (notMem_rest distinct i)]

theorem getElem?_placed (known : name ∈ names) (inside : i < names.length) :
    (placed names name i)[i]? = some name := by
  have rest : (names.erase name).length = names.length - 1 := List.length_erase_of_mem known
  have before : ((names.erase name).take i).length = i := by simp [rest]; omega
  unfold placed
  simp [before]

-- What is shown of the names changes as if there were no others.
theorem filter_placed {p : String → Bool} (shown : p name) (shown' : p target)
    (different : name ≠ target) (known : target ∈ names) :
    (placed names name (names.idxOf target)).filter p =
      placed (names.filter p) name ((names.filter p).idxOf target) := by
  have before := countP_take_erase shown shown' different known
  rw [List.countP_eq_length_filter] at before
  have split : (names.filter p).erase name =
      ((names.erase name).take (names.idxOf target)).filter p ++
        ((names.erase name).drop (names.idxOf target)).filter p := by
    rw [← List.filter_append, List.take_append_drop, List.erase_filter]
  unfold placed
  simp [split, ← before, shown]

/-! ### Single operations -/

theorem names_observe (o : VariableOrder) (s : Step) :
    (o.observe s).names = o.names ++ s.bindings.keys.filter fun name => name ∉ o.names := by
  have seen : ∀ (keys : List String) (o : VariableOrder), keys.Nodup →
      (keys.foldl see o).names = o.names ++ keys.filter fun name => name ∉ o.names := by
    intro keys
    induction keys with
    | nil => simp
    | cons key keys ih =>
      intro o distinct
      obtain ⟨fresh, distinct⟩ := List.nodup_cons.1 distinct
      rw [List.foldl_cons, ih _ distinct, names_see]
      by_cases known : key ∈ o.names
      next => simp [known]
      next =>
        have same : (keys.filter fun name => name ∉ o.names ++ [key]) =
            keys.filter fun name => name ∉ o.names := by
          apply List.filter_congr
          intro name later
          simp [ne_of_mem_of_not_mem later fresh]
        rw [if_neg known, same, List.filter_cons_of_pos (by simpa using known), List.append_assoc,
          List.singleton_append]
  exact seen s.bindings.keys o s.bindings.keys_nodup

theorem mem_observe {s : Step} :
    name ∈ (o.observe s).names ↔ name ∈ o.names ∨ name ∈ s.bindings.keys := by
  by_cases known : name ∈ o.names <;> simp [names_observe, known]

theorem move?_isSome :
    (o.move? name target).isSome ↔ name ∈ o.names ∧ target ∈ o.names ∧ name ≠ target := by
  unfold move?
  split <;> simp_all

theorem known_of_move? (moved : o.move? name target = some o') :
    name ∈ o.names ∧ target ∈ o.names ∧ name ≠ target := by
  apply move?_isSome.1
  rw [moved]
  rfl

theorem names_move? (moved : o.move? name target = some o') :
    o'.names = placed o.names name (o.names.idxOf target) := by
  unfold move? at moved
  split at moved <;> cases moved
  rfl

theorem nodup_visible (o : VariableOrder) (s : Step) : (o.visible s).Nodup := o.nodup.filter _

/-- A name is shifted to the place of another one that is visible; this place is so far away. -/
theorem shift?_eq_some {s : Step} {offset : Int} :
    o.shift? name s offset = some o' ↔
      ∃ (i j : Nat) (target : String), (o.visible s)[i]? = some name ∧
        (o.visible s)[j]? = some target ∧ (j : Int) = i + offset ∧
        o.move? name target = some o' := by
  simp only [shift?, Option.bind_eq_bind, Option.bind_eq_some_iff,
    idxOf?_eq_some (o.nodup_visible s)]
  constructor
  next =>
    rintro ⟨i, here, moved⟩
    split at moved
    · cases moved
    · obtain ⟨target, there, moved⟩ := Option.bind_eq_some_iff.1 moved
      exact ⟨i, _, target, here, there, by omega, moved⟩
  next =>
    rintro ⟨i, j, target, here, there, far, moved⟩
    refine ⟨i, here, ?_⟩
    rw [← far, if_neg (by omega)]
    exact Option.bind_eq_some_iff.2 ⟨target, there, moved⟩

/-! ### What an operation on the place of a name answers -/

-- It answers if it changes the names, and then only this name comes to another place among them.
structure Answers (o : VariableOrder) (name : String) (answer : Option VariableOrder) : Prop where
  changed : answer.isSome ↔ (answer.getD o).names ≠ o.names
  others : (answer.getD o).names.erase name = o.names.erase name
  perm : (answer.getD o).names.Perm o.names

theorem Answers.refused (o : VariableOrder) (name : String) : o.Answers name none where
  changed := by simp
  others := rfl
  perm := .refl _

theorem answers_move? (o : VariableOrder) (name target : String) :
    o.Answers name (o.move? name target) := by
  cases moved : o.move? name target with
  | none => exact .refused o name
  | some o' =>
    obtain ⟨known, known', different⟩ := known_of_move? moved
    have names := names_move? moved
    constructor
    next =>
      have here := getElem?_placed known (List.idxOf_lt_length_of_mem known')
      simp only [Option.isSome_some, Option.getD_some, true_iff, names]
      intro same
      rw [same, List.getElem?_idxOf known'] at here
      exact different (Option.some.inj here).symm
    next => simp [names, erase_placed o.nodup]
    next => simpa [names] using placed_perm known _

theorem answers_shift? (o : VariableOrder) (name : String) (s : Step) (offset : Int) :
    o.Answers name (o.shift? name s offset) := by
  cases moved : o.shift? name s offset with
  | none => exact .refused o name
  | some o' =>
    obtain ⟨-, -, target, -, -, -, moved⟩ := shift?_eq_some.1 moved
    rw [← moved]
    exact o.answers_move? name target

theorem visible_move? {s : Step} (moved : o.move? name target = some o')
    (shown : name ∈ o.visible s) (shown' : target ∈ o.visible s) :
    o'.visible s = placed (o.visible s) name ((o.visible s).idxOf target) := by
  obtain ⟨-, known', different⟩ := known_of_move? moved
  unfold visible at *
  rw [names_move? moved]
  exact filter_placed (List.mem_filter.1 shown).2 (List.mem_filter.1 shown').2 different known'

theorem place_move? (moved : o.move? name target = some o') :
    ∃ i : Nat, o.names[i]? = some target ∧ o'.names[i]? = some name := by
  obtain ⟨known, known', -⟩ := known_of_move? moved
  refine ⟨o.names.idxOf target, List.getElem?_idxOf known', ?_⟩
  rw [names_move? moved]
  exact getElem?_placed known (List.idxOf_lt_length_of_mem known')

/-- Names that are hidden do not count for how far a name is shifted. -/
theorem place_shift? {s : Step} {offset : Int} (moved : o.shift? name s offset = some o') :
    ∃ i j : Nat, (o.visible s)[i]? = some name ∧ (o'.visible s)[j]? = some name ∧
      (j : Int) = i + offset := by
  obtain ⟨i, j, target, here, there, far, moved⟩ := shift?_eq_some.1 moved
  have shown := List.mem_of_getElem? here
  obtain ⟨inside, -⟩ := List.getElem?_eq_some_iff.1 there
  have names := visible_move? moved shown (List.mem_of_getElem? there)
  rw [idxOf_of_getElem? (o.nodup_visible s) there] at names
  refine ⟨i, j, here, ?_, far⟩
  rw [names]
  exact getElem?_placed shown inside

theorem shift?_isSome {s : Step} {offset : Int} :
    (o.shift? name s offset).isSome ↔
      offset ≠ 0 ∧ ∃ i j : Nat, (o.visible s)[i]? = some name ∧ j < (o.visible s).length ∧
        (j : Int) = i + offset := by
  simp only [Option.isSome_iff_exists, shift?_eq_some]
  constructor
  next =>
    rintro ⟨o', i, j, target, here, there, far, moved⟩
    obtain ⟨-, -, different⟩ := known_of_move? moved
    refine ⟨?_, i, j, here, (List.getElem?_eq_some_iff.1 there).1, far⟩
    rintro rfl
    obtain rfl : i = j := by omega
    exact different (Option.some.inj (here.symm.trans there))
  next =>
    rintro ⟨away, i, j, here, inside, far⟩
    have there := List.getElem?_eq_getElem inside
    have known : ∀ {name}, name ∈ o.visible s → name ∈ o.names := List.mem_of_mem_filter
    have different : name ≠ (o.visible s)[j] := by
      rintro rfl
      have same := (List.getElem?_inj inside (o.nodup_visible s)).1 (there.trans here.symm)
      omega
    have moves := move?_isSome.2
      ⟨known (List.mem_of_getElem? here), known (List.getElem_mem inside), different⟩
    obtain ⟨o', moved⟩ := Option.isSome_iff_exists.1 moves
    exact ⟨o', i, j, _, here, there, far, moved⟩

/-! ### Sessions -/

inductive Command
  | observe (s : Step)
  | move (name target : String)
  | shift (name : String) (s : Step) (offset : Int)
  | clear

/-- The order after a command; a move that is refused leaves all names in place. -/
def after (o : VariableOrder) : Command → VariableOrder
  | .observe s => o.observe s
  | .move name target => (o.move? name target).getD o
  | .shift name s offset => (o.shift? name s offset).getD o
  | .clear => .empty

-- The steps observed since the names were cleared last, from those before the command.
def Command.note (steps : List Step) : Command → List Step
  | .observe s => steps ++ [s]
  | .clear => []
  | _ => steps

def run (commands : List Command) : VariableOrder := commands.foldl after .empty

def observed (commands : List Command) : List Step := commands.foldl Command.note []

-- The names of an order are those of the variables in some steps.
def Knows (o : VariableOrder) (steps : List Step) : Prop :=
  ∀ name, name ∈ o.names ↔ ∃ s ∈ steps, name ∈ s.bindings.keys

theorem Knows.after {steps : List Step} (knows : o.Knows steps) (c : Command) :
    (o.after c).Knows (c.note steps) := by
  intro name
  cases c with
  | observe s =>
    simp [VariableOrder.after, Command.note, mem_observe, knows name, or_and_right, exists_or]
  | move moved target => exact (o.answers_move? moved target).perm.mem_iff.trans (knows name)
  | shift moved s offset => exact (o.answers_shift? moved s offset).perm.mem_iff.trans (knows name)
  | clear => simp [VariableOrder.after, Command.note, empty]

theorem knows_run (commands : List Command) : (run commands).Knows (observed commands) := by
  have further : ∀ (o : VariableOrder) (steps : List Step), o.Knows steps →
      (commands.foldl VariableOrder.after o).Knows (commands.foldl Command.note steps) := by
    induction commands with
    | nil => exact fun _ _ knows => knows
    | cons c commands ih => exact fun _ _ knows => ih _ _ (knows.after c)
  exact further .empty [] (by simp [Knows, empty])

end VariableOrder

/--
After any session the names are those of the variables seen since names were cleared, each of them
once. New names come to the end, in the order of their step. A name that is moved or shifted changes
its place among the others, which keep theirs, and a shift takes it by so many places among the
names that are visible.
-/
theorem names_keep_their_places (commands : List VariableOrder.Command) :
    let o := VariableOrder.run commands
    o.names.Nodup ∧
    (∀ name, name ∈ o.names ↔ ∃ s ∈ VariableOrder.observed commands, name ∈ s.bindings.keys) ∧
    (∀ s, (o.observe s).names = o.names ++ s.bindings.keys.filter fun name => name ∉ o.names) ∧
    (∀ name target, o.Answers name (o.move? name target) ∧
      ((o.move? name target).isSome ↔ name ∈ o.names ∧ target ∈ o.names ∧ name ≠ target) ∧
      ∀ o', o.move? name target = some o' →
        ∃ i : Nat, o.names[i]? = some target ∧ o'.names[i]? = some name) ∧
    ∀ name s offset, o.Answers name (o.shift? name s offset) ∧
      ((o.shift? name s offset).isSome ↔
        offset ≠ 0 ∧ ∃ i j : Nat, (o.visible s)[i]? = some name ∧ j < (o.visible s).length ∧
          (j : Int) = i + offset) ∧
      ∀ o', o.shift? name s offset = some o' →
        ∃ i j : Nat, (o.visible s)[i]? = some name ∧ (o'.visible s)[j]? = some name ∧
          (j : Int) = i + offset := by
  intro o
  refine ⟨o.nodup, VariableOrder.knows_run commands, o.names_observe, ?_, ?_⟩
  next =>
    intro name target
    exact ⟨o.answers_move? name target, VariableOrder.move?_isSome,
      fun o' moved => VariableOrder.place_move? moved⟩
  next =>
    intro name s offset
    exact ⟨o.answers_shift? name s offset, VariableOrder.shift?_isSome,
      fun o' moved => VariableOrder.place_shift? moved⟩

-- A step with variables of these names.
def Step.naming (names : List String) : Step :=
  ⟨1, "", .ofList (names.map fun name => (name, ⟨"int", .int 0, none⟩)), [], Step.atLine 1⟩

-- Two of the names between the old and the new place of `a` are hidden.
theorem names_keep_their_places_hidden :
    let commands : List VariableOrder.Command :=
      [.observe (.naming ["z"]), .clear, .observe (.naming ["a", "x", "b"]),
        .observe (.naming ["x", "y", "c"]), .move "c" "b"]
    let o := VariableOrder.run commands
    let s := Step.naming ["a", "b", "c"]
    o.names = ["a", "x", "c", "b", "y"] ∧ ∃ o', o.shift? "a" s 2 = some o' ∧
      o'.names = ["x", "c", "b", "a", "y"] ∧
      ∃ i j : Nat, (o.visible s)[i]? = some "a" ∧ (o'.visible s)[j]? = some "a" ∧
        (j : Int) = i + 2 := by
  intro commands o s
  have names : o.names = ["a", "x", "c", "b", "y"] := by decide +kernel
  have shifted : (o.shift? "a" s 2).map VariableOrder.names = some ["x", "c", "b", "a", "y"] := by
    decide +kernel
  obtain ⟨o', shifted, names'⟩ := Option.map_eq_some_iff.1 shifted
  obtain ⟨-, -, -, -, shift⟩ := names_keep_their_places commands
  obtain ⟨-, -, place⟩ := shift "a" s 2
  exact ⟨names, o', shifted, names', place o' shifted⟩

end StepTrace
