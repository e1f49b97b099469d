import StepTrace.Proofs.Fuel
import StepTrace.Proofs.Plain

/-!
Twin runs: the second one may have marks on its list displays, more input and a greater step budget.
What an operation can tell of them is said here once, for all comparisons of two runs.
-/

set_option autoImplicit false

namespace StepTrace

structure Surplus where
  marks : Bool
  inputs : List String
  config : Config
  budget : StepBudget
  enough : config.budget.count ≤ budget.count

structure Machine.Twins (u : Surplus) (m m' : Machine) : Prop where
  config : m.config = u.config
  config' : m'.config = { u.config with budget := u.budget }
  heap : m.heap.Alike u.marks m'.heap
  scopes : m'.scopes = m.scopes
  frame : m'.frame = m.frame
  callers : m'.callers = m.callers
  output : m'.output = m.output
  inputs : m'.inputs = m.inputs ++ u.inputs
  accesses : u.marks = false → m'.accesses = m.accesses
  modules : m'.modules = m.modules
  steps : u.marks = false → m'.steps = m.steps
  plain : m'.steps.toList.map Step.plain = m.steps.toList.map Step.plain
  halted : m'.halted = m.halted
  lastLine : m'.lastLine = m.lastLine
  evaluating : m'.evaluating = m.evaluating

namespace Machine.Twins

variable {u : Surplus} {m m' : Machine}

theorem vars (T : Twins u m m') (id : ScopeId) : m'.vars id = m.vars id := by
  unfold Machine.vars
  rw [T.scopes]

theorem lookupFrom (T : Twins u m m') (name : String) (bound : Nat) (scope : Option ScopeId) :
    m'.lookupFrom name bound scope = m.lookupFrom name bound scope := by
  induction bound generalizing scope with
  | zero => rfl
  | succ bound ih =>
    cases scope with
    | none => rfl
    | some id => simp only [Machine.lookupFrom, T.scopes, ih]

theorem lookup? (T : Twins u m m') (name : String) : m'.lookup? name = m.lookup? name := by
  unfold Machine.lookup?
  rw [T.frame, T.scopes, T.vars]
  simp only [T.lookupFrom]

theorem bindingScope (T : Twins u m m') (name : String) :
    m'.bindingScope name = m.bindingScope name := by
  unfold Machine.bindingScope
  rw [T.frame]

theorem enclosingScope (T : Twins u m m') : m'.enclosingScope = m.enclosingScope := by
  unfold Machine.enclosingScope
  rw [T.frame, T.scopes]

theorem modifyVars (T : Twins u m m') (id : ScopeId) (f : Namespace → Namespace) :
    Twins u (m.modifyVars id f) (m'.modifyVars id f) :=
  { T with scopes := by simp only [Machine.modifyVars, T.scopes] }

theorem size (T : Twins u m m') : m'.steps.size = m.steps.size := by
  have lengths := congrArg List.length T.plain
  simp only [List.length_map, Array.length_toList] at lengths
  exact lengths

theorem hasRoom (T : Twins u m m') (room : m.hasRoom = true) : m'.hasRoom = true := by
  unfold Machine.hasRoom at room ⊢
  rw [T.config, decide_eq_true_iff] at room
  rw [T.config', T.size, decide_eq_true_iff]
  exact Nat.lt_of_lt_of_le room u.enough

theorem hasRoom_eq (T : Twins u m m') (same : u.budget = u.config.budget) :
    m'.hasRoom = m.hasRoom := by
  unfold Machine.hasRoom
  rw [T.config, T.config', T.size, same]

/-! ### Steps -/

theorem binding (T : Twins u m m') (v : Value) : (m'.binding v).plain = (m.binding v).plain := by
  have depth : m'.config.maxDepth = m.config.maxDepth := by rw [T.config, T.config']
  have captured := T.heap.capture m.config.maxDepth v
  unfold Machine.binding Binding.plain
  rw [depth, T.heap.typeName, captured]
  cases v with
  | ref id =>
    rcases T.heap.points (.ref id) with same | ⟨_, _, left, right⟩ | ⟨_, left, right⟩
    · rw [same]
    · simp only [left, right]
    · simp only [left, right]
  | none | bool | int | float | str | builtin => rfl

theorem visible (T : Twins u m m') :
    ((m'.vars m'.frame.scope).filter fun name v =>
      !m'.config.filter.hides name && !m'.heap.isCode v) =
      (m.vars m.frame.scope).filter fun name v =>
        !m.config.filter.hides name && !m.heap.isCode v := by
  have filter : m'.config.filter = m.config.filter := by rw [T.config, T.config']
  rw [filter, T.vars, T.frame]
  simp only [T.heap.isCode]

theorem toStep (T : Twins u m m') (explanation : String) :
    (m'.toStep explanation).plain = (m.toStep explanation).plain := by
  have bindings : m'.shown.mapValues Binding.plain = m.shown.mapValues Binding.plain := by
    unfold Machine.shown
    dsimp only
    rw [T.visible, Ordered.mapValues_mapValues, Ordered.mapValues_mapValues]
    exact congrArg (Ordered.mapValues · _) (funext T.binding)
  unfold Step.plain Machine.toStep
  dsimp only
  rw [bindings, T.lastLine, T.output]

theorem toStep_eq (T : Twins u m m') (unmarked : u.marks = false) (explanation : String) :
    m'.toStep explanation = m.toStep explanation := by
  have heaps : m'.heap = m.heap := (unmarked ▸ T.heap).eq
  have depth : m'.config.maxDepth = m.config.maxDepth := by rw [T.config, T.config']
  have bindings : m'.binding = m.binding := by
    funext v
    unfold Machine.binding
    rw [heaps, depth]
  unfold Machine.toStep Machine.shown
  dsimp only
  rw [T.visible, bindings, T.lastLine, T.output, T.accesses unmarked]

theorem record (T : Twins u m m') (explanation : String) :
    Twins u (m.record explanation) (m'.record explanation) :=
  { T with
    accesses := fun _ => rfl
    steps := fun unmarked => by
      simp only [Machine.record, T.steps unmarked, T.toStep_eq unmarked]
    plain := by
      simp only [Machine.steps_record, List.map_append, List.map_cons, T.plain, T.toStep] }

theorem finish (T : Twins u m m') (same : u.budget = u.config.budget) :
    Twins u m.finish m'.finish := by
  by_cases room : m.hasRoom = true
  · rw [Machine.finish_of_room room, Machine.finish_of_room (T.hasRoom room)]
    exact T.record _
  · have full : ¬ m'.hasRoom = true := T.hasRoom_eq same ▸ room
    rw [Machine.finish_of_full room, Machine.finish_of_full full]
    exact T

theorem steps_finish (T : Twins u m m') (unmarked : u.marks = false) :
    m.finish.steps.toList <+: m'.finish.steps.toList := by
  by_cases room : m.hasRoom = true
  · rw [Machine.finish_of_room room, Machine.finish_of_room (T.hasRoom room)]
    exact ⟨[], by rw [(T.record _).steps unmarked, List.append_nil]⟩
  · rw [Machine.finish_of_full room, ← T.steps unmarked]
    exact m'.steps_finish

end Machine.Twins

/-! ### Operations -/

-- Why the first of two twin runs may be cut short: it waits for input that the second one has, or
-- its budget is spent.
def Surplus.Cut (u : Surplus) (e : Stop) (s t : List Step) : Prop :=
  (e = .needsInput ∧ u.inputs ≠ [] ∨ e = .halted ∧ u.config.budget.count < u.budget.count) ∧
    (u.marks = false → s <+: t)

theorem Answer.ite {rel : Machine → Machine → Prop} {ends : Stop → List Step → Prop}
    {cut : Stop → List Step → List Step → Prop} {α : Type} {A : α → α → Prop} {c c' : Prop}
    [Decidable c] [Decidable c'] {x x' y y' : EStateM.Result Stop Machine α} (same : c' ↔ c)
    (hx : c → Answer rel ends cut A x y) (hy : ¬ c → Answer rel ends cut A x' y') :
    Answer rel ends cut A (if c then x else x') (if c' then y else y') := by
  by_cases h : c
  · rw [if_pos h, if_pos (same.mpr h)]
    exact hx h
  · rw [if_neg h, if_neg fun h' => h (same.mp h')]
    exact hy h

theorem Machine.Twins.alloc {u : Surplus} {m m' : Machine} (T : Machine.Twins u m m')
    {o o' : Object} (h : o.Alike u.marks o') :
    Answer (Machine.Twins u) (fun _ _ => True) u.Cut Eq (Run.alloc o m) (Run.alloc o' m') := by
  refine .ite (by rw [T.heap.size, T.heap.limit]) (fun _ => ?_) fun _ => ?_
  · rw [T.heap.size]
    exact .ok rfl { T with heap := T.heap.push h }
  · rw [T.heap.limit]
    exact .error T trivial

theorem Machine.Twins.change {u : Surplus} {m m' : Machine} (T : Machine.Twins u m m')
    (id : ObjId) {f g : Object → Object}
    (h : ∀ o o', o.Alike u.marks o' → (f o).Alike u.marks (g o')) :
    Answer (Machine.Twins u) (fun _ _ => True) u.Cut Eq (Run.change id f m) (Run.change id g m') :=
  .ok rfl { T with heap := T.heap.modify id h }

theorem Machine.Twins.note {u : Surplus} {m m' : Machine} (T : Machine.Twins u m m')
    (kind : AccessKind) {l l' : ListObject} (h : (Object.list l).Alike u.marks (.list l'))
    (i : Int64) :
    ∃ m₁ m₁', Interp.note kind l i m = .ok () m₁ ∧ Interp.note kind l' i m' = .ok () m₁' ∧
      Machine.Twins u m₁ m₁' := by
  cases h with
  | same =>
    unfold Interp.note
    cases l.tracker with
    | some id =>
      exact ⟨_, _, rfl, rfl, { T with
        accesses := fun unmarked => congrArg (Array.push · _) (T.accesses unmarked) }⟩
    | none => exact ⟨_, _, rfl, rfl, T⟩
  | list items place marked =>
    exact ⟨_, _, rfl, rfl, { T with
      accesses := fun unmarked => Bool.noConfusion (marked.symm.trans unmarked) }⟩

theorem Object.Alike.items {marks : Bool} {l l' : ListObject}
    (h : (Object.list l).Alike marks (.list l')) : l'.items = l.items := by
  cases h <;> rfl

theorem Machine.Twins.readElement {u : Surplus} {m m' : Machine} (T : Machine.Twins u m m')
    (id : ObjId) {l l' : ListObject} (h : (Object.list l).Alike u.marks (.list l')) (i : Int64) :
    Answer (Machine.Twins u) (fun _ _ => True) u.Cut Eq ((Primitive.readElement id l i).run m)
      ((Primitive.readElement id l' i).run m') := by
  obtain ⟨m₁, m₁', left, right, T⟩ := T.note .read h i
  have left : (Primitive.readElement id l i).run m = _ := Run.bind_ok left
  have right : (Primitive.readElement id l' i).run m' = _ := Run.bind_ok right
  rw [left, right, h.items]
  cases (position? l.items.size i).bind (l.items[·]?) with
  | some v => exact .ok rfl T
  | none => exact .error T trivial

theorem Machine.Twins.writeElement {u : Surplus} {m m' : Machine} (T : Machine.Twins u m m')
    (id : ObjId) {l l' : ListObject} (h : (Object.list l).Alike u.marks (.list l')) (i : Int64)
    (v : Value) :
    Answer (Machine.Twins u) (fun _ _ => True) u.Cut Eq ((Primitive.writeElement id l i v).run m)
      ((Primitive.writeElement id l' i v).run m') := by
  obtain ⟨m₁, m₁', left, right, T⟩ := T.note .write h i
  have left : (Primitive.writeElement id l i v).run m = _ := Run.bind_ok left
  have right : (Primitive.writeElement id l' i v).run m' = _ := Run.bind_ok right
  rw [left, right, h.items]
  cases position? l.items.size i with
  | some p =>
    refine T.change id fun o o' ho => ?_
    cases ho with
    | same => exact .same _
    | list items place marked => exact .list (items.setIfInBounds p v) place marked
    | function k marked => exact .function k marked
  | none => exact .error T trivial

theorem Operation.twins (u : Surplus) (fuel : Bool) {α : Type} {A : α → α → Prop} {x y : Run α}
    (h : Operation ⟨u.marks, fuel, true, true⟩ .all A x y) {m m' : Machine} (T : Machine.Twins u m m') :
    Answer (Machine.Twins u) (fun _ _ => True) u.Cut A (x m) (y m') := by
  cases h with
  | fault | outOfFuel => exact .error T trivial
  | faultAtLine f =>
    dsimp only
    rw [T.lastLine]
    exact .error T trivial
  | heap => exact .ok ⟨T.heap, m.heap.mayDeclare_true⟩ T
  | frame => exact .ok ⟨T.frame.symm, Bool.le_true _, trivial⟩ T
  | enclosingScope => exact .ok T.enclosingScope.symm T
  | alloc h => exact T.alloc h
  | allocTracked items =>
    refine T.alloc ?_
    rw [T.heap.size]
    exact .same _
  | allocMarked marked items => exact T.alloc (.list items _ marked)
  | change id h => exact T.change id h
  | lookup name =>
    unfold Run.lookup
    rw [T.lookup?]
    split
    · exact .ok rfl T
    · exact .error T trivial
  | store name v =>
    unfold Run.store
    rw [T.bindingScope]
    exact .ok rfl (T.modifyVars _ _)
  | delete name =>
    unfold Run.delete
    dsimp only
    rw [T.bindingScope, T.vars]
    split
    · exact .ok rfl (T.modifyVars _ _)
    · exact .error T trivial
  | declareGlobal names =>
    unfold Run.declareGlobal
    rw [T.frame]
    split
    · exact .ok rfl T
    · exact .ok rfl { T with frame := rfl }
  | newScope vars parent =>
    unfold Run.newScope
    rw [T.scopes]
    exact .ok rfl { T with scopes := rfl }
  | varsOf id =>
    unfold Run.varsOf
    rw [T.vars]
    exact .ok rfl T
  | checkDepth =>
    refine .ite ?_ (fun _ => .ok rfl T) fun _ => .error T trivial
    rw [Machine.depth, Machine.depth, T.callers, T.config, T.config']
  | print text =>
    exact .ok rfl { T with output := congrArg (· ++ text) T.output }
  | nextInput =>
    unfold Run.nextInput
    rw [T.inputs]
    cases m.inputs with
    | cons line rest => exact .ok rfl { T with inputs := rfl }
    | nil =>
      cases more : u.inputs with
      | nil => exact .error T trivial
      | cons line rest =>
        -- The first run waits here, with the steps that both have.
        refine .short ⟨.inl ⟨rfl, by rw [more]; exact List.cons_ne_nil _ _⟩, fun unmarked => ?_⟩
        rw [← T.steps unmarked]
        exact List.prefix_rfl
  | readElement id h i => exact T.readElement id h i
  | writeElement id h i v => exact T.writeElement id h i v
  | imported? name =>
    unfold Run.imported?
    rw [T.modules]
    exact .ok rfl T
  | remember name v => exact .ok rfl { T with modules := congrArg ((name, v) :: ·) T.modules }

-- The second run has room for a step where the first one has, and perhaps where it has not.
theorem Machine.Twins.recordOrHalt {u : Surplus} {m m' : Machine} (T : Machine.Twins u m m')
    (explanation : String) :
    Answer (Machine.Twins u) (fun _ _ => True) u.Cut (Eq (α := Unit))
      (if m.hasRoom then .ok () (m.record explanation) else .error .halted { m with halted := true })
      (if m'.hasRoom then .ok () (m'.record explanation)
        else .error .halted { m' with halted := true }) := by
  by_cases room : m.hasRoom = true
  · rw [if_pos room, if_pos (T.hasRoom room)]
    exact .ok rfl (T.record explanation)
  · rw [if_neg room]
    split
    · next room' =>
      refine .short ⟨.inr ⟨rfl, ?_⟩, fun unmarked => ?_⟩
      · rw [Machine.hasRoom, decide_eq_true_iff, T.config] at room
        rw [Machine.hasRoom, decide_eq_true_iff, T.config', T.size] at room'
        exact Nat.lt_of_le_of_lt (Nat.not_lt.mp room) room'
      · simp only [Run.state, Machine.steps_record, T.steps unmarked]
        exact List.prefix_append _ _
    · exact .error { T with halted := rfl } trivial

theorem Run.twins_boundary (u : Surplus) (line : Nat) {m m' : Machine} (T : Machine.Twins u m m') :
    Answer (Machine.Twins u) (fun _ _ => True) u.Cut Eq (Run.boundary line m)
      (Run.boundary line m') := by
  have moved : Machine.Twins u { m with lastLine := line } { m' with lastLine := line } :=
    { T with lastLine := rfl }
  exact .ite (by rw [T.halted]) (fun _ => .error T trivial) fun _ => moved.recordOrHalt _

theorem twinSimulation (u : Surplus) :
    Simulation ⟨u.marks, false, true, true⟩ (Machine.Twins u) (fun _ _ => True) u.Cut where
  step := fun h _ _ T => h.twins u false T
  boundary := fun line _ _ T => Run.twins_boundary u line T
  frame := fun T => T.frame
  callers := fun T => T.callers
  maxCallDepth := fun T => by rw [T.config, T.config']
  evaluating := fun T => T.evaluating
  heap := fun T => T.heap
  reframe := fun T _ _ => { T with frame := rfl, callers := rfl }
  deepen := fun T _ => { T with evaluating := rfl }
  fault := fun _ _ => trivial
  globals := rfl
  starved := fun fuel => Bool.noConfusion fuel
  resume := fun h grows => ⟨h.1, fun unmarked => (h.2 unmarked).trans (grows rfl)⟩

/-! ### Runs -/

theorem Machine.Twins.start (u : Surplus) (inputs : List String) :
    Machine.Twins u (.start u.config inputs)
      (.start { u.config with budget := u.budget } (inputs ++ u.inputs)) :=
  ⟨rfl, rfl, .refl _, rfl, rfl, rfl, rfl, rfl, fun _ => rfl, rfl, fun _ => rfl, rfl, rfl, rfl, rfl⟩

theorem runProgram_twins (u : Surplus) (fuel : Nat) (p : Program) (inputs : List String) :
    Answer (Machine.Twins u) (fun _ _ => True) u.Cut Eq
      (runProgram fuel p (.start u.config inputs))
      (runProgram fuel (markIf u.marks trackBlock p)
        (.start { u.config with budget := u.budget } (inputs ++ u.inputs))) :=
  (twinSimulation u).run
    (runProgram_lockstep rfl (.refl fuel) (Bool.le_refl u.marks) p (Bool.le_true _)) (.start u inputs)

theorem runProgram_unmarked {u : Surplus} (unmarked : u.marks = false) (fuel : Nat) (p : Program)
    (inputs : List String) :
    Answer (Machine.Twins u) (fun _ _ => True) u.Cut Eq
      (runProgram fuel p (.start u.config inputs))
      (runProgram fuel p (.start { u.config with budget := u.budget } (inputs ++ u.inputs))) := by
  have answer := runProgram_twins u fuel p inputs
  rw [unmarked] at answer
  exact answer

theorem Machine.Twins.rawTrace?_error {u : Surplus} {m m' : Machine} (T : Machine.Twins u m m')
    (unmarked : u.marks = false) (e : Stop) :
    rawTrace? (.error e m') = rawTrace? (.error e m) := by
  cases e <;> simp only [rawTrace?, T.steps unmarked, T.output]

theorem rawTrace?_steps {result : EStateM.Result Stop Machine Unit} {t : RawTrace}
    (h : rawTrace? result = some t) : (Run.state result).steps.toList <+: t.steps := by
  cases result with
  | ok _ m =>
    cases h
    exact m.steps_finish
  | error e m =>
    cases e with
    | needsInput | halted =>
      cases h
      exact List.prefix_rfl
    | fault f =>
      cases h
      exact List.prefix_append _ _
    | outOfFuel => cases h

-- Without marks, more input and a greater budget can only add steps.
theorem traceProgram?_extends {u : Surplus} (unmarked : u.marks = false) {fuel : Nat} {p : Program}
    {inputs : List String} {t t' : RawTrace}
    (ht : traceProgram? fuel u.config p inputs = some t)
    (ht' : traceProgram? fuel { u.config with budget := u.budget } p (inputs ++ u.inputs) = some t') :
    t.steps <+: t'.steps := by
  have answer := runProgram_unmarked unmarked fuel p inputs
  unfold traceProgram? at ht ht'
  generalize runProgram fuel p (.start u.config inputs) = result at ht answer
  generalize runProgram fuel p _ = result' at ht' answer
  cases answer with
  | ok _ T =>
    cases ht
    cases ht'
    exact T.steps_finish unmarked
  | error T =>
    rw [T.rawTrace?_error unmarked, ht] at ht'
    cases ht'
    exact List.prefix_rfl
  | @short e m _ cut =>
    have before := cut.2 unmarked
    have after := before.trans (rawTrace?_steps ht')
    rcases cut.1 with ⟨rfl, -⟩ | ⟨rfl, -⟩
    · cases ht
      exact after
    · cases ht
      exact after

theorem Traces.extends {config : Config} {source : String} {inputs more : List String}
    {budget : StepBudget} (enough : config.budget.count ≤ budget.count) {t t' : RawTrace}
    (h : Traces config source inputs t)
    (h' : Traces { config with budget := budget } source (inputs ++ more) t') :
    t.steps <+: t'.steps := by
  obtain ⟨n, h⟩ := h
  obtain ⟨k, h'⟩ := h'
  have left := trace?_mono (Nat.le_max_left n k) h
  have right := trace?_mono (Nat.le_max_right n k) h'
  unfold trace? at left right
  cases parsed : parseProgram source with
  | ok p =>
    rw [parsed] at left right
    exact traceProgram?_extends (u := ⟨false, more, config, budget, enough⟩) rfl left right
  | error e =>
    rw [parsed] at left right
    cases left
    cases right
    exact List.prefix_rfl

end StepTrace
