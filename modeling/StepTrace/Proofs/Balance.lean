import StepTrace.Proofs.History

/-!
What a computation does to the frames, to the count of nested expressions and to the scopes: what it
enters it leaves again, also where it stops; it makes new scopes, and binds names in those that are
there.
-/

set_option autoImplicit false

namespace StepTrace

/-! ### What a computation leaves of the frames -/

-- The same frames with the same scopes, and expressions nested as deep. Only the current frame may
-- have declared further names global.
structure Machine.Balanced (m m' : Machine) : Prop where
  config : m'.config = m.config
  frame : ∃ globals, m'.frame = { m.frame with globals := globals }
  callers : m'.callers = m.callers
  evaluating : m'.evaluating = m.evaluating

namespace Machine.Balanced

variable {m m' m'' : Machine}

theorem refl (m : Machine) : m.Balanced m := ⟨rfl, ⟨m.frame.globals, rfl⟩, rfl, rfl⟩

theorem trans (h : m.Balanced m') (h' : m'.Balanced m'') : m.Balanced m'' := by
  obtain ⟨_, frame⟩ := h.frame
  obtain ⟨globals, frame'⟩ := h'.frame
  refine ⟨h'.config.trans h.config, ⟨globals, ?_⟩, h'.callers.trans h.callers,
    h'.evaluating.trans h.evaluating⟩
  rw [frame', frame]

theorem scope (h : m.Balanced m') : m'.frame.scope = m.frame.scope := by
  obtain ⟨_, frame⟩ := h.frame
  rw [frame]

end Machine.Balanced

theorem Primitive.balanced {α : Type} (a : Primitive α) (m : Machine) :
    m.Balanced (Run.state (a.run m)) := by
  have still : ∀ m' : Machine, m'.config = m.config → m'.frame = m.frame →
      m'.callers = m.callers → m'.evaluating = m.evaluating → m.Balanced m' :=
    fun _ config frame callers evaluating =>
      ⟨config, ⟨m.frame.globals, frame⟩, callers, evaluating⟩
  cases a with
  | readElement id l i =>
    obtain ⟨accesses, -, run⟩ := readElement_eq id l i m
    rw [run]
    split <;> exact still _ rfl rfl rfl rfl
  | writeElement id l i v =>
    obtain ⟨accesses, -, run⟩ := writeElement_eq id l i v m
    rw [run]
    split <;> exact still _ rfl rfl rfl rfl
  | boundary line =>
    simp only [run, Run.boundary]
    split
    · exact .refl m
    · split <;> exact still _ rfl rfl rfl rfl
  | finish =>
    simp only [run, Machine.finish]
    split <;> exact still _ rfl rfl rfl rfl
  | declareGlobal names =>
    simp only [run, Run.declareGlobal]
    split
    · exact .refl m
    · exact ⟨rfl, ⟨_, rfl⟩, rfl, rfl⟩
  | alloc | allocTracked =>
    simp only [run, Run.allocTracked, Run.heap_bind, Run.alloc]
    split <;> exact still _ rfl rfl rfl rfl
  | lookup | delete | checkDepth | nextInput =>
    simp only [run, Run.lookup, Run.delete, Run.checkDepth, Run.nextInput]
    split <;> exact still _ rfl rfl rfl rfl
  | _ => exact still _ rfl rfl rfl rfl

namespace Run

variable {α : Type} {m : Machine}

theorem state_inFrame {f : Frame} {x : Run α} (room : m.depth < m.config.maxCallDepth) :
    state (inFrame f x m) =
      { state (x (m.enter f)) with frame := m.frame, callers := m.callers } := by
  rw [inFrame_eq, if_pos room]
  change state (putBack _ _ _ (x (m.enter f))) = _
  cases x (m.enter f) <;> rfl

theorem state_deeper {x : Run α} (room : m.evaluating < evaluationLimit) :
    state (deeper x m) = { state (x m.deepen) with evaluating := m.evaluating } := by
  rw [deeper_eq, if_pos room]
  change state (putBack _ _ _ (x m.deepen)) = _
  cases x m.deepen <;> rfl

variable {id : ObjId}

theorem state_rearrange {l : ListObject} (x : Array Value → Run (Array Value × α))
    (found : m.heap.get? id = some (.list l)) :
    ∃ items, state (rearrange id x m) = putItems id items (state (x l.items (putItems id #[] m))) := by
  rw [rearrange_of_list found]
  cases x l.items (putItems id #[] m) <;> exact ⟨_, rfl⟩

theorem state_rearrange_of_other {x : Array Value → Run (Array Value × α)}
    (other : ∀ l, m.heap.get? id ≠ some (.list l)) :
    state (rearrange id x m) = state (x #[] m) := by
  rw [rearrange_of_other other]
  cases x #[] m <;> rfl

end Run

-- What a part puts back is what it has found.
theorem History.balanced {α : Type} {x : Run α} {m : Machine} {s : List Moment}
    (h : History x m s) : m.Balanced (Run.state (x m)) := by
  induction h with
  | primitive a m => exact a.balanced m
  | pure a m => exact .refl m
  | bind _ done _ ihx ihf =>
    rw [done] at ihx
    rw [Run.bind_ok done]
    exact ihx.trans ihf
  | bindStopped _ stopped ih =>
    rw [stopped] at ih
    rw [Run.bind_error stopped]
    exact ih
  | inFrame f room _ ih =>
    rw [Run.state_inFrame room]
    exact ⟨ih.config, ⟨_, rfl⟩, rfl, ih.evaluating⟩
  | deeper room _ ih =>
    rw [Run.state_deeper room]
    exact ⟨ih.config, ih.frame, ih.callers, rfl⟩
  | @rearrange _ x _ _ _ _ found _ ih =>
    obtain ⟨items, left⟩ := Run.state_rearrange x found
    rw [left]
    exact ⟨ih.config, ih.frame, ih.callers, ih.evaluating⟩
  | rearrangeOther other _ ih =>
    rw [Run.state_rearrange_of_other other]
    exact ih
  | @inFrameRefused _ x m f full =>
    have stopped : Run.inFrame f x m = .error (.fault .recursion) m := if_neg full
    rw [stopped]
    exact .refl m
  | @deeperRefused _ x m full =>
    have stopped : Run.deeper x m = .error (.fault .recursion) m := if_neg full
    rw [stopped]
    exact .refl m

/-! ### What the moments of a computation do to the frames -/

-- A moment is within one frame, or it enters or leaves one; or it begins or ends the evaluation of
-- an expression. Parts are entered within the limits only.
inductive Moment.Framed : Moment → Prop
  | within {m m' : Machine} (e : Event) (balanced : m.Balanced m') : Framed ⟨m, e, m'⟩
  | enters {m : Machine} (f : Frame) (room : m.depth < m.config.maxCallDepth) :
    Framed ⟨m, .silent, m.enter f⟩
  | leaves {m m' : Machine} (config : m'.config = m.config)
    (frames : m.callers = m'.frame :: m'.callers) (evaluating : m'.evaluating = m.evaluating) :
    Framed ⟨m, .unwound, m'⟩
  | deepens {m : Machine} (room : m.evaluating < evaluationLimit) : Framed ⟨m, .silent, m.deepen⟩
  | rises {m m' : Machine} (config : m'.config = m.config)
    (frame : ∃ globals, m'.frame = { m.frame with globals := globals })
    (callers : m'.callers = m.callers) (evaluating : m.evaluating = m'.evaluating + 1) :
    Framed ⟨m, .unwound, m'⟩

theorem History.framed {α : Type} {x : Run α} {m : Machine} {s : List Moment}
    (h : History x m s) : Course Moment.Framed m s (Run.state (x m)) := by
  induction h with
  | primitive a m => exact .single (Moment.Framed.within _ (a.balanced m))
  | pure a m => exact .nil m
  | bind _ done _ ihx ihf =>
    rw [done] at ihx
    rw [Run.bind_ok done]
    exact ihx.append ihf
  | bindStopped _ stopped ih =>
    rw [stopped] at ih
    rw [Run.bind_error stopped]
    exact ih
  | inFrame f room h ih =>
    refine .around (.enters f room) ih ?_
    rw [Run.state_inFrame room]
    exact .leaves rfl h.balanced.callers rfl
  | deeper room h ih =>
    refine .around (.deepens room) ih ?_
    rw [Run.state_deeper room]
    exact .rises rfl ⟨_, rfl⟩ rfl h.balanced.evaluating
  | @rearrange _ x _ _ _ _ found _ ih =>
    obtain ⟨items, left⟩ := Run.state_rearrange x found
    refine .around (.within _ ⟨rfl, ⟨_, rfl⟩, rfl, rfl⟩) ih ?_
    rw [left]
    exact .within _ ⟨rfl, ⟨_, rfl⟩, rfl, rfl⟩
  | rearrangeOther other _ ih =>
    rw [Run.state_rearrange_of_other other]
    exact ih
  | @inFrameRefused _ x m f full =>
    have stopped : Run.inFrame f x m = .error (.fault .recursion) m := if_neg full
    rw [stopped]
    exact .single (Moment.Framed.within _ (.refl m))
  | @deeperRefused _ x m full =>
    have stopped : Run.deeper x m = .error (.fault .recursion) m := if_neg full
    rw [stopped]
    exact .single (Moment.Framed.within _ (.refl m))

/-! ### What a computation does to the scopes -/

namespace Primitive

variable {α : Type}

-- The name that an operation binds or removes.
def name? : Primitive α → Option String
  | store name _ | delete name => some name
  | _ => none

def declares : Primitive α → Bool
  | declareGlobal _ => true
  | _ => false

def concernsNames : Primitive α → Bool
  | store .. | delete _ | declareGlobal _ | newScope .. => true
  | _ => false

theorem still_of_unconcerned (a : Primitive α) (h : a.concernsNames = false) (m : Machine) :
    (Run.state (a.run m)).frame = m.frame ∧ (Run.state (a.run m)).scopes = m.scopes := by
  cases a with
  | store | delete | declareGlobal | newScope => cases h
  | readElement id l i =>
    obtain ⟨accesses, -, run⟩ := readElement_eq id l i m
    rw [run]
    split <;> exact ⟨rfl, rfl⟩
  | writeElement id l i v =>
    obtain ⟨accesses, -, run⟩ := writeElement_eq id l i v m
    rw [run]
    split <;> exact ⟨rfl, rfl⟩
  | boundary line =>
    simp only [run, Run.boundary]
    split
    · exact ⟨rfl, rfl⟩
    · split <;> exact ⟨rfl, rfl⟩
  | finish =>
    simp only [run, Machine.finish]
    split <;> exact ⟨rfl, rfl⟩
  | alloc | allocTracked =>
    simp only [run, Run.allocTracked, Run.heap_bind, Run.alloc]
    split <;> exact ⟨rfl, rfl⟩
  | lookup | checkDepth | nextInput =>
    simp only [run, Run.lookup, Run.checkDepth, Run.nextInput]
    split <;> exact ⟨rfl, rfl⟩
  | _ => exact ⟨rfl, rfl⟩

-- Only a declaration changes the frame.
theorem frame_of_undeclared (a : Primitive α) (h : a.declares = false) (m : Machine) :
    (Run.state (a.run m)).frame = m.frame := by
  cases a with
  | declareGlobal => cases h
  | store | newScope => rfl
  | delete =>
    simp only [run, Run.delete]
    split <;> rfl
  | _ => exact (still_of_unconcerned _ rfl m).1

end Primitive

-- The scopes that were there are as they were, apart from those in `changed`.
structure Machine.Scoped (changed : ScopeId → Prop) (m m' : Machine) : Prop where
  grows : m.scopes.size ≤ m'.scopes.size
  others : ∀ id < m.scopes.size, ¬ changed id → m'.scopes[id]? = m.scopes[id]?

namespace Machine.Scoped

variable {changed changed' : ScopeId → Prop} {m m' : Machine}

theorem still (same : m'.scopes = m.scopes) : m.Scoped changed m' := by
  constructor
  · exact Nat.le_of_eq (congrArg Array.size same.symm)
  · intro id _ _
    rw [same]

theorem modifyVars (id : ScopeId) (f : Namespace → Namespace) (here : changed id) :
    m.Scoped changed (m.modifyVars id f) := by
  constructor
  · exact Nat.le_of_eq Array.size_modify.symm
  · intro other _ kept
    refine Array.getElem?_modify.trans (if_neg ?_)
    rintro rfl
    exact kept here

theorem imp (h : m.Scoped changed m') (le : ∀ id, changed id → changed' id) :
    m.Scoped changed' m' :=
  ⟨h.grows, fun id old kept => h.others id old fun here => kept (le id here)⟩

end Machine.Scoped

theorem Primitive.scopes {α : Type} (a : Primitive α) (m : Machine) :
    m.Scoped (fun id => ∃ name, a.name? = some name ∧ m.bindingScope name = id)
      (Run.state (a.run m)) := by
  cases a with
  | store name v =>
    exact Machine.Scoped.modifyVars (m.bindingScope name) (·.insert name v) ⟨name, rfl, rfl⟩
  | delete name =>
    simp only [run, Run.delete]
    split
    · exact Machine.Scoped.modifyVars (m.bindingScope name) (·.erase name) ⟨name, rfl, rfl⟩
    · exact .still rfl
  | newScope vars parent =>
    constructor
    · exact Nat.le_of_lt (Array.size_push .. ▸ Nat.lt_succ_self _)
    · intro id old _
      exact (Array.getElem?_push_lt old).trans (Array.getElem?_eq_getElem old).symm
  | declareGlobal =>
    refine .still ?_
    simp only [run, Run.declareGlobal]
    split <;> rfl
  | _ => exact .still (still_of_unconcerned _ rfl m).2

theorem History.grows {α : Type} {x : Run α} {m : Machine} {s : List Moment}
    (h : History x m s) :
    Course (fun u => u.before.scopes.size ≤ u.after.scopes.size) m s (Run.state (x m)) := by
  have aside : ∀ {m m' : Machine}, m.Aside m' → m.scopes.size ≤ m'.scopes.size := by
    rintro m _ ⟨_, _, _, _, rfl⟩
    exact Nat.le_refl _
  exact h.course (fun a m => (a.scopes m).grows) (fun m => Nat.le_refl _) aside aside

theorem Course.le_size {m m' : Machine} {s : List Moment}
    (course : Course (fun u => u.before.scopes.size ≤ u.after.scopes.size) m s m') :
    m.scopes.size ≤ m'.scopes.size := by
  induction course with
  | nil => exact Nat.le_refl _
  | cons hu _ ih => exact Nat.le_trans hu ih

end StepTrace
