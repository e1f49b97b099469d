import StepTrace.Eval.Statement

/-!
What the ways to build computations do, one state at a time.
-/

set_option autoImplicit false

namespace StepTrace

theorem Except.bind_of_ok {ε α β : Type} {x : Except ε α} {f : α → Except ε β} {a : α}
    (h : x = .ok a) : (x >>= f) = f a := by
  rw [h]
  rfl

theorem Except.of_bind_ok {ε α β : Type} {x : Except ε α} {f : α → Except ε β} {b : β}
    (h : (x >>= f) = .ok b) : ∃ a, x = .ok a ∧ f a = .ok b := by
  cases x with
  | error e => cases h
  | ok a => exact ⟨a, rfl, h⟩

theorem Except.of_map_ok {ε α β : Type} {x : Except ε α} {f : α → β} {b : β}
    (h : (f <$> x) = .ok b) : ∃ a, x = .ok a ∧ f a = b := by
  cases x with
  | error e => cases h
  | ok a => exact ⟨a, rfl, Except.ok.inj h⟩

theorem Except.of_any {ε α : Type} {x : Except ε α} {check : α → Bool}
    (h : x.toOption.any check = true) : ∃ a, x = .ok a ∧ check a = true := by
  cases x with
  | error e => cases h
  | ok a => exact ⟨a, rfl, h⟩

namespace Run

variable {α β : Type} {x : Run α} {f : α → Run β} {m m₁ : Machine}

-- Whether a run ends with a value and in a state that pass a check.
def ends (x : Run α) (m : Machine) (check : α → Machine → Bool) : Bool :=
  match x m with
  | .ok a m' => check a m'
  | .error _ _ => false

theorem of_ends {check : α → Machine → Bool} (h : x.ends m check = true) :
    ∃ a m', x m = .ok a m' ∧ check a m' = true := by
  unfold ends at h
  split at h
  · next a m' done => exact ⟨a, m', done, h⟩
  · cases h

-- The state that a run leaves behind, however it ends.
def state : EStateM.Result Stop Machine α → Machine
  | .ok _ m => m
  | .error _ m => m

theorem bind_ok {a : α} (h : x m = .ok a m₁) : (x >>= f) m = f a m₁ := by
  change EStateM.bind x f m = _
  unfold EStateM.bind
  rw [h]

theorem bind_error {e : Stop} (h : x m = .error e m₁) : (x >>= f) m = .error e m₁ := by
  change EStateM.bind x f m = _
  unfold EStateM.bind
  rw [h]

theorem of_bind_ok {b : β} (h : (x >>= f) m = .ok b m₁) :
    ∃ a m', x m = .ok a m' ∧ f a m' = .ok b m₁ := by
  cases done : x m with
  | ok a m' => exact ⟨a, m', rfl, (bind_ok done).symm.trans h⟩
  | error e m' => cases (bind_error done).symm.trans h

theorem heap_bind (f : Heap → Run β) (m : Machine) : (heap >>= f) m = f m.heap m := bind_ok rfl

theorem map_ok {a : α} {g : α → β} (h : x m = .ok a m₁) : (g <$> x) m = .ok (g a) m₁ := bind_ok h

theorem map_error {e : Stop} {g : α → β} (h : x m = .error e m₁) : (g <$> x) m = .error e m₁ :=
  bind_error h

/-! ### Parts of a run that put a piece of the state back -/

def putBack (g : α → β) (leave : α → Machine → Machine) (fail : Machine → Machine) :
    EStateM.Result Stop Machine α → EStateM.Result Stop Machine β
  | .ok a m => .ok (g a) (leave a m)
  | .error e m => .error e (fail m)

theorem inFrame_eq (f : Frame) (x : Run α) (m : Machine) :
    inFrame f x m =
      if m.depth < m.config.maxCallDepth then
        putBack id (fun _ m₁ => { m₁ with frame := m.frame, callers := m.callers })
          (fun m₁ => { m₁ with frame := m.frame, callers := m.callers })
          (x { m with frame := f, callers := m.frame :: m.callers })
      else .error (.fault .recursion) m :=
  rfl

theorem inFrame_ok {f : Frame} {a : α} (room : m.depth < m.config.maxCallDepth)
    (h : x { m with frame := f, callers := m.frame :: m.callers } = .ok a m₁) :
    inFrame f x m = .ok a { m₁ with frame := m.frame, callers := m.callers } := by
  rw [inFrame_eq, if_pos room, h]
  rfl

theorem inFrame_map (f : Frame) (x : Run α) (g : α → β) :
    inFrame f (g <$> x) = g <$> inFrame f x := by
  funext m
  by_cases room : m.depth < m.config.maxCallDepth
  · have left : inFrame f x m = _ := (inFrame_eq f x m).trans (if_pos room)
    rw [inFrame_eq, if_pos room]
    cases done : x { m with frame := f, callers := m.frame :: m.callers } with
    | ok a m₁ =>
      rw [done] at left
      rw [map_ok done, map_ok left]
      rfl
    | error e m₁ =>
      rw [done] at left
      rw [map_error done, map_error left]
      rfl
  · have left : inFrame f x m = _ := (inFrame_eq f x m).trans (if_neg room)
    rw [inFrame_eq, if_neg room, map_error left]

theorem deeper_eq (x : Run α) (m : Machine) :
    deeper x m =
      if m.evaluating < evaluationLimit then
        putBack id (fun _ m₁ => { m₁ with evaluating := m.evaluating })
          (fun m₁ => { m₁ with evaluating := m.evaluating })
          (x { m with evaluating := m.evaluating + 1 })
      else .error (.fault .recursion) m :=
  rfl

theorem boundary_of_room (line : Nat) (going : m.halted = false) (room : m.hasRoom = true) :
    boundary line m = .ok () ({ m with lastLine := line }.record (Step.atLine line)) :=
  (if_neg (by rw [going]; exact Bool.false_ne_true)).trans (if_pos room)

theorem of_boundary_ok {line : Nat} (fired : boundary line m = .ok () m₁) :
    m.hasRoom = true ∧ m₁ = { m with lastLine := line }.record (Step.atLine line) := by
  unfold boundary at fired
  split at fired
  · cases fired
  · dsimp only at fired
    split at fired
    · next room =>
      cases fired
      exact ⟨room, rfl⟩
    · cases fired

def putItems (id : ObjId) (items : Array Value) (m : Machine) : Machine :=
  { m with heap := m.heap.modify id (Object.mapList fun l => { l with items }) }

theorem rearrange_eq (id : ObjId) (x : Array Value → Run (Array Value × α)) (m : Machine) :
    rearrange id x m =
      match m.heap.get? id with
      | some (.list l) =>
        putBack Prod.snd (fun a => putItems id a.1) (putItems id l.items)
          (x l.items (putItems id #[] m))
      | _ => putBack Prod.snd (fun _ m₁ => m₁) (fun m₁ => m₁) (x #[] m) := by
  have other : (Prod.snd <$> x #[]) m =
      putBack Prod.snd (fun _ m₁ => m₁) (fun m₁ => m₁) (x #[] m) := by
    cases h : x #[] m with
    | ok a m₁ => exact map_ok h
    | error e m₁ => exact map_error h
  unfold rearrange
  cases m.heap.get? id with
  | none => exact other
  | some o =>
    cases o with
    | list l =>
      unfold putItems
      dsimp only
      generalize x l.items _ = result
      cases result <;> rfl
    | _ => exact other

theorem rearrange_of_list {id : ObjId} {l : ListObject} {x : Array Value → Run (Array Value × α)}
    (found : m.heap.get? id = some (.list l)) :
    rearrange id x m = putBack Prod.snd (fun a => putItems id a.1) (putItems id l.items)
      (x l.items (putItems id #[] m)) := by
  rw [rearrange_eq, found]

theorem rearrange_of_other {id : ObjId} {x : Array Value → Run (Array Value × α)}
    (other : ∀ l, m.heap.get? id ≠ some (.list l)) :
    rearrange id x m = putBack Prod.snd (fun _ m₁ => m₁) (fun m₁ => m₁) (x #[] m) := by
  rw [rearrange_eq]
  split
  · next l found => exact absurd found (other l)
  · rfl

end Run

theorem atLevel_eq {α : Type} (level : Nat) (x : Run α) : atLevel level x = x := by
  funext m
  unfold atLevel
  split
  · exact onFreshStack_eq _
  · rfl

/-!
### Computations that only ask

All that they do to a state is to put questions to the program, such as what a function makes of a
value or which of two values comes first.
-/

section

variable {ι β α γ : Type}

-- Questions with their answers, each asked in the state that the one before has left.
inductive Asked (ask : ι → Run β) : Machine → List (ι × β) → Machine → Prop
  | nil (m : Machine) : Asked ask m [] m
  | cons {i : ι} {b : β} {s : List (ι × β)} {m m₁ m' : Machine} (answered : ask i m = .ok b m₁)
    (rest : Asked ask m₁ s m') : Asked ask m ((i, b) :: s) m'

-- How a computation ends that asks questions of `P`: with a value that is in `A` of the answers, or
-- stopped by a question.
inductive Inquiry (ask : ι → Run β) (P : ι → Prop) (A : List (ι × β) → α → Prop) (m : Machine) :
    EStateM.Result Stop Machine α → Prop
  | done {s : List (ι × β)} {a : α} {m' : Machine} (asked : Asked ask m s m')
    (among : ∀ q ∈ s, P q.1) (value : A s a) : Inquiry ask P A m (.ok a m')
  | stopped {s : List (ι × β)} {i : ι} {e : Stop} {m₁ m' : Machine} (asked : Asked ask m s m₁)
    (among : ∀ q ∈ s, P q.1) (last : P i) (failed : ask i m₁ = .error e m') :
    Inquiry ask P A m (.error e m')

def Run.Inquires (ask : ι → Run β) (P : ι → Prop) (A : List (ι × β) → α → Prop) (x : Run α) :
    Prop :=
  ∀ m, Inquiry ask P A m (x m)

variable {ask : ι → Run β} {P : ι → Prop} {A : List (ι × β) → α → Prop}
  {B : List (ι × β) → γ → Prop}

theorem Asked.append {s t : List (ι × β)} {m m₁ m' : Machine} (hs : Asked ask m s m₁)
    (ht : Asked ask m₁ t m') : Asked ask m (s ++ t) m' := by
  induction hs with
  | nil => exact ht
  | cons answered _ ih => exact .cons answered (ih ht)

namespace Run.Inquires

theorem ret {a : α} (value : A [] a) : Inquires ask P A (pure a) := fun m =>
  .done (.nil m) (List.forall_mem_nil _) value

theorem question {A : List (ι × β) → β → Prop} {i : ι} (here : P i) (value : ∀ b, A [(i, b)] b) :
    Inquires ask P A (ask i) := by
  intro m
  cases answer : ask i m with
  | ok b m' => exact .done (.cons answer (.nil m')) (List.forall_mem_singleton.2 here) (value b)
  | error e m' => exact .stopped (.nil m) (List.forall_mem_nil _) here answer

theorem bind {x : Run α} {f : α → Run γ} (hx : Inquires ask P A x)
    (hf : ∀ s a, A s a → Inquires ask P (fun t => B (s ++ t)) (f a)) :
    Inquires ask P B (x >>= f) := by
  intro m
  have first := hx m
  cases result : x m with
  | error e m' =>
    rw [result] at first
    rw [Run.bind_error result]
    cases first with
    | stopped asked among last failed => exact .stopped asked among last failed
  | ok a m₁ =>
    rw [result] at first
    rw [Run.bind_ok result]
    cases first with
    | done asked among value =>
      have second := hf _ a value m₁
      generalize f a m₁ = rest at second
      cases second with
      | done asked' among' value' =>
        exact .done (asked.append asked') (List.forall_mem_append.2 ⟨among, among'⟩) value'
      | stopped asked' among' last failed =>
        exact .stopped (asked.append asked') (List.forall_mem_append.2 ⟨among, among'⟩) last failed

theorem weaken {x : Run α} {A' : List (ι × β) → α → Prop} (hx : Inquires ask P A x)
    (h : ∀ s a, A s a → A' s a) : Inquires ask P A' x := by
  intro m
  have ended := hx m
  generalize x m = result at ended ⊢
  cases ended with
  | done asked among value => exact .done asked among (h _ _ value)
  | stopped asked among last failed => exact .stopped asked among last failed

end Run.Inquires

end

end StepTrace
