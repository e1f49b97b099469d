import StepTrace.Proofs.Literals.Hashing
import StepTrace.Proofs.Literals.Evaluation

/-!
A printed value, assigned to a name and run, is the value again.
-/

set_option autoImplicit false

namespace StepTrace

/-! ### Marked displays -/

section

variable {l : Literal} {x : String}

theorem Expr.Writes.trackAll {es : List Expr} {items : List Literal}
    (ih : ∀ l ∈ items, ∀ e, Expr.Writes e l → e.track.Writes l)
    (writes : List.Forall₂ Expr.Writes es items) :
    List.Forall₂ Expr.Writes (StepTrace.trackAll es) items := by
  induction writes with
  | nil => exact .nil
  | cons first _ rest =>
    obtain ⟨ih₁, ih⟩ := List.forall_mem_cons.1 ih
    exact .cons (ih₁ _ first) (rest ih)

theorem trackEntries_fst (es : List (Expr × Expr)) :
    (trackEntries es).map Prod.fst = trackAll (es.map Prod.fst) := by
  induction es with
  | nil => rfl
  | cons e rest ih => rw [trackEntries, List.map_cons, List.map_cons, trackAll, ih]

theorem trackEntries_snd (es : List (Expr × Expr)) :
    (trackEntries es).map Prod.snd = trackAll (es.map Prod.snd) := by
  induction es with
  | nil => rfl
  | cons e rest ih => rw [trackEntries, List.map_cons, List.map_cons, trackAll, ih]

theorem Expr.Writes.track {e : Expr} (writes : e.Writes l) : e.track.Writes l := by
  induction l generalizing e with
  | none | bool | int | str =>
    cases writes
    rw [Expr.track] <;> first | constructor | nofun
  | list items ih =>
    cases writes with
    | list loc inside =>
      rw [Expr.track]
      exact .tracked loc (trackAll (fun l hl _ => ih l hl) inside)
    | tracked loc inside =>
      rw [Expr.track] <;> first | exact .tracked loc inside | nofun
  | tuple items ih =>
    cases writes with
    | tuple loc inside =>
      rw [Expr.track]
      exact .tuple loc (trackAll (fun l hl _ => ih l hl) inside)
  | dict entries ih =>
    cases writes with
    | dict loc keys values =>
      rw [Expr.track]
      refine .dict loc ?_ ?_
      · rw [trackEntries_fst]
        exact trackAll (List.forall_mem_map.2 fun e he _ => (ih e he).1) keys
      · rw [trackEntries_snd]
        exact trackAll (List.forall_mem_map.2 fun e he _ => (ih e he).2) values
  | set items ih =>
    cases writes with
    | set loc inside =>
      rw [Expr.track]
      exact .set loc (trackAll (fun l hl _ => ih l hl) inside)

theorem Program.Assigns.marked {p : Program} (assigns : p.Assigns x l) (t : Bool) :
    Program.Assigns x l (markIf t trackBlock p) := by
  obtain ⟨loc, loc', value⟩ := assigns
  cases t
  · exact .intro loc loc' value
  · exact .intro loc loc' value.track

end

/-! ### Running the assignment -/

theorem assign_name (r : Interp) (line : Nat) (w : Value) (loc : Location) (x : String)
    (m : Machine) : r.assign line (.name loc x) w m =
      .ok () (m.modifyVars (m.bindingScope x) fun vars => vars.insert x w) := by
  rw [Interp.assign]
  rfl

theorem assignEach_name (r : Interp) (line : Nat) (w : Value) (loc : Location) (x : String)
    (m : Machine) : r.assignEach line w [.name loc x] m =
      .ok () (m.modifyVars (m.bindingScope x) fun vars => vars.insert x w) :=
  (Run.bind_ok (assign_name r line w loc x m)).trans rfl

-- A name that has just been bound means what it is bound to.
theorem lookup?_bound {m : Machine} {x : String} {w : Value} (known : m.frame.scope < m.scopes.size)
    (own : m.frame.globals = []) :
    (m.modifyVars (m.bindingScope x) fun vars => vars.insert x w).lookup? x = some w := by
  have undeclared : ¬ m.frame.globals.contains x = true := by simp [own]
  obtain ⟨bound, size⟩ : ∃ n, m.scopes.size = n + 1 :=
    Nat.exists_eq_add_one.2 (Nat.zero_lt_of_lt known)
  rw [Machine.bindingScope, if_neg undeclared]
  unfold Machine.lookup? Machine.modifyVars
  dsimp only
  rw [if_neg undeclared, Array.size_modify, size, Machine.lookupFrom]
  dsimp only
  rw [Array.getElem?_modify, if_pos rfl, Array.getElem?_eq_getElem known]
  dsimp only [Option.map_some]
  rw [Ordered.get?_insert_self]

-- The assignment comes to its end, and the name has a value that spells as the literal.
theorem Program.Assigns.runs {p : Program} {x : String} {l : Literal} {fuel : Nat} {m : Machine}
    (assigns : p.Assigns x l) (evaluates : l.Evaluates (interp fuel) m.evaluating)
    (known : m.frame.scope < m.scopes.size) (own : m.frame.globals = []) (going : m.halted = false)
    (steps : m.hasRoom = true) (room : m.heap.size + l.containers ≤ m.heap.limit) :
    ∃ m' w, runProgram fuel p m = .ok () m' ∧ m'.lookup? x = some w ∧
      m.heap.Extends m'.heap l.containers ∧ m'.heap.Spells w l := by
  obtain @⟨loc, loc', e, value⟩ := assigns
  let before : Machine := { m with lastLine := loc.line }.record (Step.atLine loc.line)
  have passed : Run.boundary loc.line m = .ok () before :=
    Run.boundary_of_room loc.line going steps
  obtain ⟨w, h, evaluated, extended, spells⟩ := evaluates e before value rfl room
  let after : Machine := { before with heap := h }
  have assigned := assignEach_name (interp fuel) loc.line w loc' x after
  have ran : (interp fuel).execStmt (.assign loc [.name loc' x] e) before = .ok .normal _ :=
    (Run.bind_ok evaluated).trans (Run.bind_ok assigned)
  have ended : (interp fuel).execBlock [.assign loc [.name loc' x] e] m = .ok .normal _ :=
    (Run.bind_ok passed).trans (Run.bind_ok ran)
  have meant : (after.modifyVars (after.bindingScope x) fun vars => vars.insert x w).lookup? x =
      some w := lookup?_bound known own
  exact ⟨_, w, Run.bind_ok ended, meant, extended, spells⟩

/--
A printed value is a program text for the value: `x = ` followed by it parses, and with room for
the containers in it the program ends with an equal value in `x` that prints the same.
-/
theorem printed_values_evaluate {h : Heap} {v : Value} {l : Literal} (spells : h.Spells v l)
    (shallow : l.depth ≤ 150) (room : h.size + l.containers ≤ h.limit) :
    ∃ p, parseProgram ("x = " ++ h.repr v) = .ok p ∧
      ∀ (marks : Bool) (config : Config) (inputs : List String) (fuel : Nat), 150 < fuel →
        ∃ m w, runProgram fuel (markIf marks trackBlock p)
            { Machine.start config inputs with heap := h } = .ok () m ∧
          m.lookup? "x" = some w ∧ m.heap.equal v w = true ∧ m.heap.repr w = h.repr v := by
  rw [spells.repr_eq]
  obtain ⟨p, parsed, assigns⟩ := spells.parses shallow
  refine ⟨p, parsed, fun marks config inputs fuel enough => ?_⟩
  let start : Machine := { Machine.start config inputs with heap := h }
  have evaluates : l.Evaluates (interp fuel) start.evaluating :=
    spells.evaluates (by omega) (by change 0 + _ < _; rw [evaluationLimit]; omega)
  have steps : start.hasRoom = true :=
    decide_eq_true (Nat.lt_of_lt_of_le (Nat.zero_lt_succ 9) config.budget.least_le)
  obtain ⟨m, w, done, meant, extended, spells'⟩ :=
    (assigns.marked marks).runs evaluates (m := start) Nat.zero_lt_one rfl rfl steps room
  refine ⟨m, w, done, meant, ?_, spells'.repr_eq⟩
  exact (spells.mono extended.keeps).equalWithin spells' (by rw [comparedDepth]; omega)

theorem printed_values_evaluate_dict_of_tuple :
    let d := DictObject.empty.insert (.str "it's") (.str "it's") (.ref 0)
    let h : Heap := ⟨#[.tuple #[.int (-3)], .dict d], 4⟩
    h.repr (.ref 1) = "\x7b\"it's\": (-3,)\x7d" ∧
      ∃ p, parseProgram ("x = " ++ h.repr (.ref 1)) = .ok p ∧
        ∃ m w, runProgram 151 p { Machine.start {} [] with heap := h } = .ok () m ∧
          m.lookup? "x" = some w ∧ m.heap.equal (.ref 1) w = true ∧
          m.heap.repr w = h.repr (.ref 1) := by
  intro d h
  have tuple : h.Spells (.ref 0) (.tuple [.int (-3)]) := .tuple rfl (.cons (.int (by decide)) .nil)
  have entries : h.SpellsEntries d [(.str "it's", .tuple [.int (-3)])] :=
    (Heap.SpellsEntries.empty h).insert (.str "it's") tuple
      ((Heap.Spells.str "it's").hashKey_iff.2 rfl) List.not_mem_nil
  have spells : h.Spells (.ref 1) (.dict [(.str "it's", .tuple [.int (-3)])]) :=
    .dict rfl entries.plain entries.indexed entries.keys entries.values
  have printed : h.repr (.ref 1) = "\x7b\"it's\": (-3,)\x7d" :=
    spells.repr_eq.trans (by decide +kernel)
  obtain ⟨p, parsed, runs⟩ := printed_values_evaluate spells (by decide) (by decide)
  exact ⟨printed, p, parsed, runs false {} [] 151 (by decide)⟩

end StepTrace
