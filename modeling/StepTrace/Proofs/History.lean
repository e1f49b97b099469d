import StepTrace.Proofs.Runs

/-!
The history of a computation: what it does one thing after the other, with the states before and
after. A run that stops leaves what it is in the middle of and does nothing else.
-/

set_option autoImplicit false

namespace StepTrace

/-! ### What a computation does -/

-- The operations that computations are made of. Reading and writing an element of a list include
-- the note about it.
inductive Primitive : Type → Type 1
  | fault {α : Type} (f : Fault) : Primitive α
  | faultAtLine {α : Type} (f : Nat → Fault) : Primitive α
  | outOfFuel {α : Type} : Primitive α
  | heap : Primitive Heap
  | frame : Primitive Frame
  | enclosingScope : Primitive (Option ScopeId)
  | alloc (o : Object) : Primitive Value
  | allocTracked (items : Array Value) : Primitive Value
  | change (id : ObjId) (f : Object → Object) : Primitive Unit
  | lookup (name : String) : Primitive Value
  | store (name : String) (v : Value) : Primitive Unit
  | delete (name : String) : Primitive Unit
  | declareGlobal (names : List String) : Primitive Unit
  | newScope (vars : Namespace) (parent : Option ScopeId) : Primitive ScopeId
  | varsOf (id : ScopeId) : Primitive Namespace
  | checkDepth : Primitive Unit
  | print (text : String) : Primitive Unit
  | nextInput : Primitive String
  | readElement (id : ObjId) (l : ListObject) (i : Int64) : Primitive Value
  | writeElement (id : ObjId) (l : ListObject) (i : Int64) (v : Value) : Primitive Unit
  | imported? (name : String) : Primitive (Option Value)
  | remember (name : String) (v : Value) : Primitive Unit
  | boundary (line : Nat) : Primitive Unit
  | finish : Primitive Unit

-- What can be seen of a moment from outside.
inductive Event
  | silent
  | recorded (step : Step)
  | printed (text : String)
  | received (line : String)
  -- An element of the tracked list `id` is read or written.
  | accessed (kind : AccessKind) (id : ObjId) (index : Int)
  | stopped (e : Stop)
  -- A part of the run is left, and what it had set aside is put back.
  | unwound

structure Moment where
  before : Machine
  event : Event
  after : Machine

-- The place that an index means; negative ones count from the end, and it may lie outside.
def indexIn (n : Nat) (i : Int64) : Int := if i < 0 then i.toInt + n else i.toInt

theorem indexIn_of_position? {n : Nat} {i : Int64} {p : Nat} (h : position? n i = some p) :
    0 ≤ indexIn n i ∧ indexIn n i < n := by
  unfold position? at h
  change (if 0 ≤ indexIn n i ∧ indexIn n i < n then _ else _) = _ at h
  split at h
  · assumption
  · cases h

namespace Primitive

def run {α : Type} : Primitive α → Run α
  | fault f => Run.fault f
  | faultAtLine f => fun m => .error (.fault (f m.lastLine)) m
  | outOfFuel => Run.outOfFuel
  | heap => Run.heap
  | frame => Run.frame
  | enclosingScope => Run.enclosingScope
  | alloc o => Run.alloc o
  | allocTracked items => Run.allocTracked items
  | change id f => Run.change id f
  | lookup name => Run.lookup name
  | store name v => Run.store name v
  | delete name => Run.delete name
  | declareGlobal names => Run.declareGlobal names
  | newScope vars parent => Run.newScope vars parent
  | varsOf id => Run.varsOf id
  | checkDepth => Run.checkDepth
  | print text => Run.print text
  | nextInput => Run.nextInput
  | readElement _ l i => do
    Interp.note .read l i
    Interp.inside "list" ((position? l.items.size i).bind (l.items[·]?))
  | writeElement id l i v => do
    Interp.note .write l i
    match position? l.items.size i with
    | some p => Run.changeItems id (·.setIfInBounds p v)
    | none => Run.fault (.outside "list assignment")
  | imported? name => Run.imported? name
  | remember name v => Run.remember name v
  | boundary line => Run.boundary line
  | finish => fun m => .ok () m.finish

-- The event of an operation that succeeds.
def mark {α : Type} : Primitive α → Machine → Event
  | print text, _ => .printed text
  | nextInput, m => .received (m.inputs.headD "")
  | readElement id l i, _ =>
    if l.tracker.isSome then .accessed .read id (indexIn l.items.size i) else .silent
  | writeElement id l i _, _ =>
    if l.tracker.isSome then .accessed .write id (indexIn l.items.size i) else .silent
  | boundary line, m => .recorded ({ m with lastLine := line }.toStep (Step.atLine line))
  | finish, m => if m.hasRoom then .recorded (m.toStep Step.finished) else .silent
  | _, _ => .silent

def event {α : Type} (a : Primitive α) (m : Machine) : Event :=
  match a.run m with
  | .ok _ _ => a.mark m
  | .error e _ => .stopped e

def moment {α : Type} (a : Primitive α) (m : Machine) : Moment :=
  ⟨m, a.event m, Run.state (a.run m)⟩

theorem event_ok {α : Type} {a : Primitive α} {m m' : Machine} {v : α} (h : a.run m = .ok v m') :
    a.event m = a.mark m := by
  rw [event, h]

theorem event_error {α : Type} {a : Primitive α} {m m' : Machine} {e : Stop}
    (h : a.run m = .error e m') : a.event m = .stopped e := by
  rw [event, h]

theorem note_ok (kind : AccessKind) (l : ListObject) (i : Int64) (m : Machine) :
    ∃ accesses, m.accesses.toList <+: accesses.toList ∧
      Interp.note kind l i m = .ok () { m with accesses := accesses } := by
  unfold Interp.note
  cases l.tracker with
  | none => exact ⟨_, List.prefix_rfl, rfl⟩
  | some id => exact ⟨_, Array.toList_push ▸ List.prefix_append .., rfl⟩

-- Apart from the note, to read an element leaves the state as it is, and to write one changes the
-- list.
theorem readElement_eq (id : ObjId) (l : ListObject) (i : Int64) (m : Machine) :
    ∃ accesses, m.accesses.toList <+: accesses.toList ∧ (readElement id l i).run m =
      match (position? l.items.size i).bind (l.items[·]?) with
      | some v => .ok v { m with accesses := accesses }
      | none => .error (.fault (.outside "list")) { m with accesses := accesses } := by
  obtain ⟨accesses, more, noted⟩ := note_ok .read l i m
  have run : (readElement id l i).run m = _ := Run.bind_ok noted
  refine ⟨accesses, more, ?_⟩
  rw [run]
  cases (position? l.items.size i).bind (l.items[·]?) <;> rfl

theorem writeElement_eq (id : ObjId) (l : ListObject) (i : Int64) (v : Value) (m : Machine) :
    ∃ accesses, m.accesses.toList <+: accesses.toList ∧ (writeElement id l i v).run m =
      match position? l.items.size i with
      | some p => Run.changeItems id (·.setIfInBounds p v) { m with accesses := accesses }
      | none => .error (.fault (.outside "list assignment")) { m with accesses := accesses } := by
  obtain ⟨accesses, more, noted⟩ := note_ok .write l i m
  have run : (writeElement id l i v).run m = _ := Run.bind_ok noted
  refine ⟨accesses, more, ?_⟩
  rw [run]
  cases position? l.items.size i <;> rfl

theorem mark_ne_stopped {α : Type} (a : Primitive α) (m : Machine) (e : Stop) :
    a.mark m ≠ .stopped e := by
  cases a <;> simp only [mark, ne_eq, reduceCtorEq, not_false_eq_true] <;> split <;>
    simp only [reduceCtorEq, not_false_eq_true]

end Primitive

/-! ### Subscripts -/

section

variable {r : Interp} {m : Machine} {id : ObjId} {l : ListObject} {index : Value} {n : Int64}

theorem indexOf_ok (container : String) (int : index.int? = some n) :
    Interp.indexOf container index m = .ok n m := by
  rw [Interp.indexOf, int]
  rfl

-- On a list a subscript is the operation on the element.
theorem getItem_list (found : m.heap.get? id = some (.list l)) (int : index.int? = some n) :
    r.getItem (.ref id) index m = (Primitive.readElement id l n).run m := by
  refine (Run.heap_bind _ m).trans ?_
  rw [found]
  exact Run.bind_ok (indexOf_ok "list" int)

theorem setItem_list (found : m.heap.get? id = some (.list l)) (int : index.int? = some n)
    (v : Value) :
    r.setItem (.ref id) index v m = (Primitive.writeElement id l n v).run m := by
  refine (Run.heap_bind _ m).trans ?_
  rw [found]
  exact Run.bind_ok (indexOf_ok "list" int)

end

-- The program reads or writes `id[n]`.
def Subscript (id : ObjId) (n : Int64) (m m' : Machine) : AccessKind → Prop
  | .read => ∃ v, ∀ r : Interp, r.getItem (.ref id) (.int n) m = .ok v m'
  | .write => ∃ v, ∀ r : Interp, r.setItem (.ref id) (.int n) v m = .ok () m'

-- It does so on a tracked list, at the place `i` of those that the list has then.
def Touches (kind : AccessKind) (id : ObjId) (i : Int) (m m' : Machine) : Prop :=
  ∃ l n, m.heap.get? id = some (.list l) ∧ l.tracker = some id ∧ i = indexIn l.items.size n ∧
    0 ≤ i ∧ i < l.items.size ∧ Subscript id n m m' kind

/-! ### Histories -/

def Machine.enter (f : Frame) (m : Machine) : Machine :=
  { m with frame := f, callers := m.frame :: m.callers }

def Machine.deepen (m : Machine) : Machine := { m with evaluating := m.evaluating + 1 }

-- The moments of a part that is entered from `m` at `m₁` and left from `m₂` to `m₃`.
def around (m m₁ : Machine) (s : List Moment) (m₂ m₃ : Machine) : List Moment :=
  ⟨m, .silent, m₁⟩ :: s ++ [⟨m₂, .unwound, m₃⟩]

-- A history follows the way in which a computation is put together.
inductive History : {α : Type} → Run α → Machine → List Moment → Prop
  | primitive {α : Type} (a : Primitive α) (m : Machine) : History a.run m [a.moment m]
  | pure {α : Type} (a : α) (m : Machine) : History (pure a) m []
  | bind {α β : Type} {x : Run α} {f : α → Run β} {m m₁ : Machine} {a : α} {s t : List Moment}
    (hx : History x m s) (done : x m = .ok a m₁) (hf : History (f a) m₁ t) :
    History (x >>= f) m (s ++ t)
  | bindStopped {α β : Type} {x : Run α} {f : α → Run β} {m m₁ : Machine} {e : Stop}
    {s : List Moment} (hx : History x m s) (stopped : x m = .error e m₁) : History (x >>= f) m s
  | inFrame {α : Type} {x : Run α} {m : Machine} {s : List Moment} (f : Frame)
    (room : m.depth < m.config.maxCallDepth) (h : History x (m.enter f) s) :
    History (Run.inFrame f x) m
      (around m (m.enter f) s (Run.state (x (m.enter f))) (Run.state (Run.inFrame f x m)))
  | inFrameRefused {α : Type} {x : Run α} {m : Machine} (f : Frame)
    (full : ¬ m.depth < m.config.maxCallDepth) :
    History (Run.inFrame f x) m [⟨m, .stopped (.fault .recursion), m⟩]
  | deeper {α : Type} {x : Run α} {m : Machine} {s : List Moment}
    (room : m.evaluating < evaluationLimit) (h : History x m.deepen s) :
    History (Run.deeper x) m
      (around m m.deepen s (Run.state (x m.deepen)) (Run.state (Run.deeper x m)))
  | deeperRefused {α : Type} {x : Run α} {m : Machine} (full : ¬ m.evaluating < evaluationLimit) :
    History (Run.deeper x) m [⟨m, .stopped (.fault .recursion), m⟩]
  | rearrange {α : Type} {x : Array Value → Run (Array Value × α)} {m : Machine} {id : ObjId}
    {l : ListObject} {s : List Moment} (found : m.heap.get? id = some (.list l))
    (h : History (x l.items) (Run.putItems id #[] m) s) :
    History (Run.rearrange id x) m
      (around m (Run.putItems id #[] m) s (Run.state (x l.items (Run.putItems id #[] m)))
        (Run.state (Run.rearrange id x m)))
  | rearrangeOther {α : Type} {x : Array Value → Run (Array Value × α)} {m : Machine} {id : ObjId}
    {s : List Moment} (other : ∀ l, m.heap.get? id ≠ some (.list l)) (h : History (x #[]) m s) :
    History (Run.rearrange id x) m s

/-! ### Moments in a row -/

-- Moments that follow each other from one state to another one, each of which satisfies `P`.
inductive Course (P : Moment → Prop) : Machine → List Moment → Machine → Prop
  | nil (m : Machine) : Course P m [] m
  | cons {u : Moment} {s : List Moment} {m : Machine} (hu : P u) (rest : Course P u.after s m) :
    Course P u.before (u :: s) m

namespace Course

variable {P Q : Moment → Prop} {m m₁ m₂ m₃ : Machine} {s t : List Moment}

theorem single {u : Moment} (hu : P u) : Course P u.before [u] u.after := .cons hu (.nil _)

theorem eq_of_nil (h : Course P m [] m₁) : m₁ = m := by
  cases h
  rfl

theorem append (hs : Course P m s m₁) (ht : Course P m₁ t m₂) : Course P m (s ++ t) m₂ := by
  induction hs with
  | nil => exact ht
  | cons hu _ ih => exact .cons hu (ih ht)

theorem around (enter : P ⟨m, .silent, m₁⟩) (hs : Course P m₁ s m₂)
    (leave : P ⟨m₂, .unwound, m₃⟩) : Course P m (around m m₁ s m₂ m₃) m₃ := by
  have left : Course P m₂ [⟨m₂, .unwound, m₃⟩] m₃ := .single leave
  exact .cons enter (hs.append left)

theorem split (h : Course P m (s ++ t) m₂) : ∃ m₁, Course P m s m₁ ∧ Course P m₁ t m₂ := by
  induction s generalizing m with
  | nil => exact ⟨m, .nil m, h⟩
  | cons u s ih =>
    cases h with
    | cons hu rest =>
      obtain ⟨m₁, hs, ht⟩ := ih rest
      exact ⟨m₁, .cons hu hs, ht⟩

theorem all (h : Course P m s m₁) : ∀ u ∈ s, P u := by
  induction h with
  | nil => exact fun _ hu => absurd hu List.not_mem_nil
  | cons hu _ ih => exact List.forall_mem_cons.2 ⟨hu, ih⟩

theorem imp (h : Course P m s m₁) (hPQ : ∀ u ∈ s, P u → Q u) : Course Q m s m₁ := by
  induction h with
  | nil => exact .nil _
  | cons hu _ ih =>
    obtain ⟨hq, rest⟩ := List.forall_mem_cons.1 hPQ
    exact .cons (hq hu) (ih rest)

end Course

/-! ### What holds of all moments -/

-- The states differ in what a part of a run sets aside and puts back.
def Machine.Aside (m m' : Machine) : Prop :=
  ∃ heap frame callers evaluating,
    m' = { m with heap := heap, frame := frame, callers := callers, evaluating := evaluating }

theorem Machine.aside_putBack {α β : Type} {g : α → β} {leave : α → Machine → Machine}
    {fail : Machine → Machine} (left : ∀ a (m : Machine), m.Aside (leave a m))
    (failed : ∀ m : Machine, m.Aside (fail m)) (result : EStateM.Result Stop Machine α) :
    (Run.state result).Aside (Run.state (Run.putBack g leave fail result)) := by
  cases result with
  | ok a m => exact left a m
  | error e m => exact failed m

-- A property of the moments of operations and refusals, and of those that enter and leave parts,
-- is one of all moments of a history.
theorem History.course {P : Moment → Prop}
    (operation : ∀ {α : Type} (a : Primitive α) (m : Machine), P (a.moment m))
    (refused : ∀ m, P ⟨m, .stopped (.fault .recursion), m⟩)
    (enter : ∀ {m m' : Machine}, m.Aside m' → P ⟨m, .silent, m'⟩)
    (leave : ∀ {m m' : Machine}, m.Aside m' → P ⟨m, .unwound, m'⟩)
    {α : Type} {x : Run α} {m : Machine} {s : List Moment} (h : History x m s) :
    Course P m s (Run.state (x m)) := by
  induction h with
  | primitive a m => exact .single (operation a m)
  | pure a m => exact .nil m
  | bind _ done _ ihx ihf =>
    rw [done] at ihx
    rw [Run.bind_ok done]
    exact ihx.append ihf
  | bindStopped _ stopped ih =>
    rw [stopped] at ih
    rw [Run.bind_error stopped]
    exact ih
  | inFrame f room _ ih =>
    refine .around (enter ⟨_, _, _, _, rfl⟩) ih (leave ?_)
    rw [Run.inFrame_eq, if_pos room]
    refine Machine.aside_putBack (fun _ m₁ => ?_) (fun m₁ => ?_) _ <;> exact ⟨_, _, _, _, rfl⟩
  | deeper room _ ih =>
    refine .around (enter ⟨_, _, _, _, rfl⟩) ih (leave ?_)
    rw [Run.deeper_eq, if_pos room]
    refine Machine.aside_putBack (fun _ m₁ => ?_) (fun m₁ => ?_) _ <;> exact ⟨_, _, _, _, rfl⟩
  | rearrange found _ ih =>
    refine .around (enter ⟨_, _, _, _, rfl⟩) ih (leave ?_)
    rw [Run.rearrange_of_list found]
    refine Machine.aside_putBack (fun _ m₁ => ?_) (fun m₁ => ?_) _ <;> exact ⟨_, _, _, _, rfl⟩
  | @rearrangeOther _ x m id s other _ ih =>
    have same : Run.state (Run.rearrange id x m) = Run.state (x #[] m) := by
      rw [Run.rearrange_of_other other]
      cases x #[] m <;> rfl
    rw [same]
    exact ih
  | @inFrameRefused _ x m f full =>
    have stopped : Run.inFrame f x m = .error (.fault .recursion) m := if_neg full
    rw [stopped]
    exact .single (refused m)
  | @deeperRefused _ x m full =>
    have stopped : Run.deeper x m = .error (.fault .recursion) m := if_neg full
    rw [stopped]
    exact .single (refused m)

end StepTrace
