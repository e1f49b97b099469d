import StepTrace.Proofs.Lockstep.Statement

/-!
What operations preserve, programs in lockstep preserve. A `Simulation` says once what a step of two
runs does to two related states; `Simulation.run` carries it through whole runs.
-/

set_option autoImplicit false

namespace StepTrace

/-! ### Operations -/

-- What no operation does: record a step, change the settings, halt the run or take along accesses.
structure Quiet {α : Type} (m : Machine) (result : EStateM.Result Stop Machine α) : Prop where
  steps : (Run.state result).steps = m.steps
  config : (Run.state result).config = m.config
  halted : (Run.state result).halted = m.halted
  lastLine : (Run.state result).lastLine = m.lastLine
  accesses : m.accesses.toList <+: (Run.state result).accesses.toList
  goesOn : ∀ m', result ≠ .error .halted m'

theorem Quiet.noting {α : Type} {m : Machine} {accesses : Array Access}
    {result : EStateM.Result Stop Machine α} (more : m.accesses.toList <+: accesses.toList)
    (quiet : Quiet { m with accesses := accesses } result) : Quiet m result :=
  { quiet with accesses := more.trans quiet.accesses }

theorem Run.quiet_alloc (o : Object) (m : Machine) : Quiet m (Run.alloc o m) := by
  unfold Run.alloc
  split <;> exact ⟨rfl, rfl, rfl, rfl, List.prefix_rfl, by rintro _ ⟨⟩⟩

theorem Operation.quiet {d : Leeway} {p : Rights} {α : Type} {A : α → α → Prop} {x y : Run α}
    (h : Operation d p A x y) (m : Machine) : Quiet m (y m) := by
  cases h with
  | fault | faultAtLine | outOfFuel | heap | frame | enclosingScope | change | store | newScope
  | varsOf | print | imported? | remember =>
    exact ⟨rfl, rfl, rfl, rfl, List.prefix_rfl, by rintro _ ⟨⟩⟩
  | @readElement id _ l _ i =>
    obtain ⟨accesses, more, run⟩ := Primitive.readElement_eq id l i m
    rw [run]
    split <;> exact .noting more ⟨rfl, rfl, rfl, rfl, List.prefix_rfl, by rintro _ ⟨⟩⟩
  | @writeElement id _ l _ i v =>
    obtain ⟨accesses, more, run⟩ := Primitive.writeElement_eq id l i v m
    rw [run]
    split <;> exact .noting more ⟨rfl, rfl, rfl, rfl, List.prefix_rfl, by rintro _ ⟨⟩⟩
  | alloc => exact Run.quiet_alloc _ m
  | allocTracked => exact Run.quiet_alloc _ m
  | allocMarked => exact Run.quiet_alloc _ m
  | lookup =>
    unfold Run.lookup
    split <;> exact ⟨rfl, rfl, rfl, rfl, List.prefix_rfl, by rintro _ ⟨⟩⟩
  | delete =>
    unfold Run.delete
    dsimp only
    split <;> exact ⟨rfl, rfl, rfl, rfl, List.prefix_rfl, by rintro _ ⟨⟩⟩
  | declareGlobal =>
    unfold Run.declareGlobal
    split <;> exact ⟨rfl, rfl, rfl, rfl, List.prefix_rfl, by rintro _ ⟨⟩⟩
  | checkDepth =>
    unfold Run.checkDepth
    split <;> exact ⟨rfl, rfl, rfl, rfl, List.prefix_rfl, by rintro _ ⟨⟩⟩
  | nextInput =>
    unfold Run.nextInput
    split <;> exact ⟨rfl, rfl, rfl, rfl, List.prefix_rfl, by rintro _ ⟨⟩⟩

theorem Operation.value {d : Leeway} (globals : d.globals = true) {α : Type} {A : α → α → Prop}
    {x y : Run α} (h : Operation d .all A x y) {m m' : Machine} {b : α} (done : y m = .ok b m') :
    ∃ a, A a b := by
  cases h with
  | fault | faultAtLine | outOfFuel => cases done
  | heap => exact ⟨b, .refl b, globals ▸ b.mayDeclare_true⟩
  | frame => exact ⟨b, rfl, globals ▸ Bool.le_true _, trivial⟩
  | _ => exact ⟨b, rfl⟩

/-! ### What only grows -/

-- From `m` on the state is a later one, and what stops the computation is one of `ends`.
structure Advance (before : Machine → Machine → Prop) (ends : Stop → Prop) {α : Type} (m : Machine)
    (result : EStateM.Result Stop Machine α) : Prop where
  state : before m (Run.state result)
  stop : ∀ e m', result = .error e m' → ends e

-- An order of states in which neither an operation nor what a part of a run sets aside leads back.
structure Growth (d : Leeway) (before : Machine → Machine → Prop) (ends : Stop → Prop) : Prop where
  aside : ∀ {m m' : Machine}, m.Aside m' → before m m'
  trans : ∀ {m m' m'' : Machine}, before m m' → before m' m'' → before m m''
  step : ∀ {α : Type} {A : α → α → Prop} {x y : Run α}, Operation d .all A x y →
    ∀ m, Advance before ends m (y m)
  boundary : d.statements = true → ∀ line m, Advance before ends m (Run.boundary line m)
  recursion : ends (.fault .recursion)

variable {before : Machine → Machine → Prop} {ends : Stop → Prop}

structure Grown (before : Machine → Machine → Prop) (ends : Stop → Prop) {α : Type}
    (A : α → α → Prop) (m : Machine) (result : EStateM.Result Stop Machine α) : Prop
    extends Advance before ends m result where
  value : ∀ b m', result = .ok b m' → ∃ a, A a b

namespace Growth

variable {d : Leeway} {α β : Type} {A : α → α → Prop} {B : β → β → Prop} {m m₁ : Machine}

theorem refl (G : Growth d before ends) (m : Machine) : before m m := G.aside ⟨_, _, _, _, rfl⟩

theorem refused (G : Growth d before ends) (later : before m m₁) :
    Grown before ends A m (.error (.fault .recursion) m₁) := by
  refine ⟨⟨later, fun _ _ stopped => ?_⟩, fun _ _ done => nomatch done⟩
  cases stopped
  exact G.recursion

theorem putBack (G : Growth d before ends) {g : α → β} {leave : α → Machine → Machine}
    {fail : Machine → Machine} {result : EStateM.Result Stop Machine α}
    (h : Grown before ends A m₁ result) (entered : before m m₁)
    (left : ∀ a (m' : Machine), m'.Aside (leave a m')) (failed : ∀ m' : Machine, m'.Aside (fail m'))
    (values : ∀ a b, A a b → B (g a) (g b)) :
    Grown before ends B m (Run.putBack g leave fail result) := by
  have later := G.trans (G.trans entered h.state)
    (G.aside (Machine.aside_putBack (g := g) left failed result))
  cases result with
  | ok b m' =>
    refine ⟨⟨later, fun _ _ done => nomatch done⟩, fun _ _ done => ?_⟩
    cases done
    obtain ⟨a, hab⟩ := h.value b m' rfl
    exact ⟨g a, values a b hab⟩
  | error e m' =>
    refine ⟨⟨later, fun _ _ stopped => ?_⟩, fun _ _ done => nomatch done⟩
    cases stopped
    exact h.stop e m' rfl

end Growth

-- On how the second computation is built.
theorem Lockstep.grows {d : Leeway} (G : Growth d before ends) (fueled : d.fuel = false)
    (globals : d.globals = true) {α : Type} {A : α → α → Prop} {x y : Run α}
    (h : Lockstep d .all A x y) (m : Machine) : Grown before ends A m (y m) := by
  generalize all : Rights.all = p at h
  replace all := all.symm
  induction h generalizing m with
  | op h =>
    subst all
    exact ⟨G.step h m, fun _ _ done => h.value globals done⟩
  | boundary line run => exact ⟨G.boundary run line m, fun b _ _ => ⟨b, rfl⟩⟩
  | @pure _ _ _ a b h =>
    refine ⟨⟨G.refl m, fun _ _ done => nomatch done⟩, fun _ _ done => ?_⟩
    cases done
    exact ⟨a, h⟩
  | @bind _ _ _ _ _ x y f g _ _ ihx ihf =>
    have first := ihx m all
    cases result : y m with
    | ok b m₁ =>
      obtain ⟨a, hab⟩ := first.value b m₁ result
      have after := ihf a b hab m₁ all
      have reached := first.state
      rw [result] at reached
      rw [Run.bind_ok result]
      exact { after with state := G.trans reached after.state }
    | error e m₁ =>
      rw [result] at first
      rw [Run.bind_error result]
      refine ⟨⟨first.state, fun _ _ stopped => ?_⟩, fun _ _ done => nomatch done⟩
      cases stopped
      exact first.stop e m₁ rfl
  | starved fuel =>
    rw [fueled] at fuel
    cases fuel
  | @inScope _ _ _ _ vars parent frame own _ _ x y gives _ ih =>
    have made : Run.newScope vars parent m = _ := rfl
    have later : before m (Run.state (Run.newScope vars parent m)) :=
      (G.step (.newScope vars parent) m).state
    rw [Run.inScope, Run.bind_ok made, Run.inFrame_eq]
    split
    · exact G.putBack (ih _ _ (gives.all all)) (G.trans later (G.aside ⟨_, _, _, _, rfl⟩))
        (fun _ _ => ⟨_, _, _, _, rfl⟩) (fun _ => ⟨_, _, _, _, rfl⟩) fun _ _ h => h
    · exact G.refused later
  | deeper _ ih =>
    rw [Run.deeper_eq]
    split
    · exact G.putBack (ih _ all) (G.aside ⟨_, _, _, _, rfl⟩) (fun _ _ => ⟨_, _, _, _, rfl⟩)
        (fun _ => ⟨_, _, _, _, rfl⟩) fun _ _ h => h
    · exact G.refused (G.refl m)
  | rearrange id _ ih =>
    rw [Run.rearrange_eq]
    split
    · exact G.putBack (ih _ _ all) (G.aside ⟨_, _, _, _, rfl⟩) (fun _ _ => ⟨_, _, _, _, rfl⟩)
        (fun _ => ⟨_, _, _, _, rfl⟩) fun _ _ => congrArg Prod.snd
    · exact G.putBack (ih _ _ all) (G.refl m) (fun _ _ => ⟨_, _, _, _, rfl⟩)
        (fun _ => ⟨_, _, _, _, rfl⟩) fun _ _ => congrArg Prod.snd

-- Steps are never taken back.
theorem growth_steps (d : Leeway) :
    Growth d (fun m m' => m.steps.toList <+: m'.steps.toList) fun _ => True where
  aside := by
    rintro m _ ⟨_, _, _, _, rfl⟩
    exact List.prefix_rfl
  trans := List.IsPrefix.trans
  step h m := ⟨⟨[], by rw [(h.quiet m).steps, List.append_nil]⟩, fun _ _ _ => trivial⟩
  boundary _ line m := by
    refine ⟨?_, fun _ _ _ => trivial⟩
    unfold Run.boundary
    split
    · exact List.prefix_rfl
    · dsimp only
      split
      · simp only [Run.state, Machine.steps_record]
        exact List.prefix_append _ _
      · exact List.prefix_rfl
  recursion := trivial

-- Without marks the same operation is done twice.
theorem Operation.same {d : Leeway} (unmarked : d.marks = false) (globals : d.globals = true)
    {α : Type} {A : α → α → Prop} {x y : Run α} (h : Operation d .all A x y) :
    x = y ∧ ∀ m b m', y m = .ok b m' → A b b := by
  cases h with
  | fault | faultAtLine | outOfFuel => exact ⟨rfl, fun _ _ _ done => nomatch done⟩
  | heap => exact ⟨rfl, fun _ h _ _ => ⟨.refl h, globals ▸ h.mayDeclare_true⟩⟩
  | frame => exact ⟨rfl, fun _ _ _ _ => ⟨rfl, globals ▸ Bool.le_true _, trivial⟩⟩
  | alloc h =>
    rw [unmarked] at h
    cases h.eq
    exact ⟨rfl, fun _ _ _ _ => rfl⟩
  | @change id f g h =>
    rw [unmarked] at h
    have same : g = f := funext fun o => (h o o (.same o)).eq
    rw [same]
    exact ⟨rfl, fun _ _ _ _ => rfl⟩
  | allocMarked marked =>
    rw [unmarked] at marked
    cases marked
  | readElement id h | writeElement id h =>
    rw [unmarked] at h
    cases h.eq
    exact ⟨rfl, fun _ _ _ _ => rfl⟩
  | _ => exact ⟨rfl, fun _ _ _ _ => rfl⟩

/-! ### Simulations -/

variable {d : Leeway} {rel : Machine → Machine → Prop} {ends : Stop → List Step → Prop}
  {cut : Stop → List Step → List Step → Prop}

-- How the results of two runs belong together: the states are related, and both runs end early for
-- the same reason with `ends` of the steps so far; or the first run is cut short, and the second one
-- is known by its steps alone.
inductive Answer (rel : Machine → Machine → Prop) (ends : Stop → List Step → Prop)
    (cut : Stop → List Step → List Step → Prop) {α : Type} (A : α → α → Prop) :
    EStateM.Result Stop Machine α → EStateM.Result Stop Machine α → Prop
  | ok {a b : α} {m m' : Machine} (values : A a b) (states : rel m m') :
    Answer rel ends cut A (.ok a m) (.ok b m')
  | error {e : Stop} {m m' : Machine} (states : rel m m') (steps : ends e m.steps.toList) :
    Answer rel ends cut A (.error e m) (.error e m')
  | short {e : Stop} {m : Machine} {result : EStateM.Result Stop Machine α}
    (steps : cut e m.steps.toList (Run.state result).steps.toList) :
    Answer rel ends cut A (.error e m) result

structure Simulation (d : Leeway) (rel : Machine → Machine → Prop) (ends : Stop → List Step → Prop)
    (cut : Stop → List Step → List Step → Prop) : Prop where
  step : ∀ {α : Type} {A : α → α → Prop} {x y : Run α}, Operation d .all A x y →
    ∀ {m m' : Machine}, rel m m' → Answer rel ends cut A (x m) (y m')
  boundary : ∀ (line : Nat) {m m' : Machine}, rel m m' →
    Answer rel ends cut Eq (Run.boundary line m) (Run.boundary line m')
  frame : ∀ {m m'}, rel m m' → m'.frame = m.frame
  callers : ∀ {m m'}, rel m m' → m'.callers = m.callers
  maxCallDepth : ∀ {m m'}, rel m m' → m'.config.maxCallDepth = m.config.maxCallDepth
  evaluating : ∀ {m m'}, rel m m' → m'.evaluating = m.evaluating
  heap : ∀ {m m'}, rel m m' → m.heap.Alike d.marks m'.heap
  reframe : ∀ {m m'}, rel m m' → ∀ f callers,
    rel { m with frame := f, callers := callers } { m' with frame := f, callers := callers }
  deepen : ∀ {m m'}, rel m m' → ∀ k, rel { m with evaluating := k } { m' with evaluating := k }
  fault : ∀ {m m' : Machine}, rel m m' → ∀ f, ends (.fault f) m.steps.toList
  globals : d.globals = true
  starved : d.fuel = true → ∀ s t, cut .outOfFuel s t
  resume : ∀ {e s t t'}, cut e s t → (d.fuel = false → t <+: t') → cut e s t'

theorem Answer.putBack {α β : Type} {A : α → α → Prop} {B : β → β → Prop} {g : α → β}
    {leave leave' : α → Machine → Machine} {fail fail' : Machine → Machine}
    {result result' : EStateM.Result Stop Machine α} (h : Answer rel ends cut A result result')
    (failed : ∀ m, (fail m).steps = m.steps) (failed' : ∀ m, (fail' m).steps = m.steps)
    (left' : ∀ a m, (leave' a m).steps = m.steps)
    (leaves : ∀ {a b m m'}, A a b → rel m m' → rel (leave a m) (leave' b m'))
    (fails : ∀ {m m'}, rel m m' → rel (fail m) (fail' m'))
    (values : ∀ {a b}, A a b → B (g a) (g b)) :
    Answer rel ends cut B (Run.putBack g leave fail result) (Run.putBack g leave' fail' result') := by
  cases h with
  | ok hab states => exact .ok (values hab) (leaves hab states)
  | @error e m m' states steps => exact .error (fails states) ((failed m).symm ▸ steps)
  | short steps =>
    refine .short ?_
    rw [failed]
    cases result' with
    | ok b m' =>
      change cut _ _ (leave' b m').steps.toList
      rw [left']
      exact steps
    | error e m' =>
      change cut _ _ (fail' m').steps.toList
      rw [failed']
      exact steps

namespace Simulation

-- A run that has gone on after the other one was cut short only adds steps.
theorem resumed (S : Simulation d rel ends cut) {α β : Type} {A : α → α → Prop} {B : β → β → Prop}
    {x y : Run α} {f g : α → Run β} (hx : Lockstep d .all A x y)
    (hf : ∀ a b, A a b → Lockstep d .all B (f a) (g b)) {m' : Machine} {e : Stop} {s : List Step}
    (steps : cut e s (Run.state (y m')).steps.toList) :
    cut e s (Run.state ((y >>= g) m')).steps.toList := by
  cases right : y m' with
  | ok b m₁ =>
    rw [right] at steps
    rw [Run.bind_ok right]
    refine S.resume steps fun fueled => ?_
    obtain ⟨a, hab⟩ := (hx.grows (growth_steps d) fueled S.globals m').value b m₁ right
    exact ((hf a b hab).grows (growth_steps d) fueled S.globals m₁).state
  | error e m₁ =>
    rw [right] at steps
    rw [Run.bind_error right]
    exact steps

theorem putItems (S : Simulation d rel ends cut) {m m' : Machine} (states : rel m m') (id : ObjId)
    (items : Array Value) : rel (Run.putItems id items m) (Run.putItems id items m') := by
  have changed : Operation d .all Eq (Run.change id (Object.mapList fun l => { l with items }))
      (Run.change id (Object.mapList fun l => { l with items })) := by
    refine .change id (fun o o' ho => ?_) fun o => by cases o <;> rfl
    cases ho with
    | same => exact .same _
    | list _ place h => exact .list items place h
    | function f h => exact .function f h
  cases S.step changed states with
  | ok _ states => exact states

theorem inFrame (S : Simulation d rel ends cut) {α : Type} {A : α → α → Prop} {x y : Run α}
    {f : Frame} (hx : ∀ {m m' : Machine}, rel m m' → Answer rel ends cut A (x m) (y m'))
    {m m' : Machine} (states : rel m m') :
    Answer rel ends cut A (Run.inFrame f x m) (Run.inFrame f y m') := by
  have room : m'.depth < m'.config.maxCallDepth ↔ m.depth < m.config.maxCallDepth := by
    rw [Machine.depth, Machine.depth, S.callers states, S.maxCallDepth states]
  rw [Run.inFrame_eq, Run.inFrame_eq]
  split
  · next h =>
    rw [if_pos (room.mpr h), S.frame states, S.callers states]
    exact (hx (S.reframe states f _)).putBack (fun _ => rfl) (fun _ => rfl) (fun _ _ => rfl)
      (fun _ states => S.reframe states _ _) (fun states => S.reframe states _ _) id
  · next h =>
    rw [if_neg fun h' => h (room.mp h')]
    exact .error states (S.fault states _)

theorem run (S : Simulation d rel ends cut) {α : Type} {A : α → α → Prop} {x y : Run α}
    (h : Lockstep d .all A x y) {m m' : Machine} (states : rel m m') :
    Answer rel ends cut A (x m) (y m') := by
  -- On how the two runs are built; where the first one was cut short, the second one may go on.
  generalize all : Rights.all = p at h
  replace all := all.symm
  induction h generalizing m m' with
  | op h =>
    subst all
    exact S.step h states
  | boundary line => exact S.boundary line states
  | pure h => exact .ok h states
  | @bind _ _ _ _ _ x y f g hx hf ihx ihf =>
    subst all
    have answer := ihx states rfl
    generalize left : x m = result at answer
    generalize right : y m' = result' at answer
    cases answer with
    | ok values states =>
      rw [Run.bind_ok left, Run.bind_ok right]
      exact ihf _ _ values states rfl
    | error states steps =>
      rw [Run.bind_error left, Run.bind_error right]
      exact .error states steps
    | short steps =>
      rw [← right] at steps
      rw [Run.bind_error left]
      exact .short (S.resumed hx hf steps)
  | starved fuel y => exact .short (S.starved fuel _ _)
  | @inScope _ _ _ _ vars parent frame _ _ _ x y gives _ ih =>
    cases S.step (.newScope vars parent) states with
    | ok same states =>
      change Answer _ _ _ _ (Run.inFrame (frame m.scopes.size) (x m.scopes.size) _)
        (Run.inFrame (frame m'.scopes.size) (y m'.scopes.size) _)
      rw [← same]
      exact S.inFrame (fun states => ih _ states (gives.all all)) states
  | deeper _ ih =>
    rw [Run.deeper_eq, Run.deeper_eq, S.evaluating states]
    split
    · exact (ih (S.deepen states _) all).putBack (fun _ => rfl) (fun _ => rfl) (fun _ _ => rfl)
        (fun _ states => S.deepen states _) (fun states => S.deepen states _) id
    · exact .error states (S.fault states _)
  | rearrange id _ ih =>
    have emptied := fun items => ih items (S.putItems states id #[]) all
    rw [Run.rearrange_eq, Run.rearrange_eq]
    rcases (S.heap states).sees id with same | ⟨items, _, left, right⟩ | ⟨_, left, right⟩
    · rw [same]
      split
      · exact (emptied _).putBack (fun _ => rfl) (fun _ => rfl) (fun _ _ => rfl)
          (fun same states => same ▸ S.putItems states id _) (fun states => S.putItems states id _)
          (congrArg Prod.snd)
      · exact (ih _ states all).putBack (fun _ => rfl) (fun _ => rfl) (fun _ _ => rfl)
          (fun _ states => states) (fun states => states) (congrArg Prod.snd)
    · rw [left, right]
      exact (emptied items).putBack (fun _ => rfl) (fun _ => rfl) (fun _ _ => rfl)
        (fun same states => same ▸ S.putItems states id _) (fun states => S.putItems states id _)
        (congrArg Prod.snd)
    · rw [left, right]
      exact (ih _ states all).putBack (fun _ => rfl) (fun _ => rfl) (fun _ _ => rfl)
        (fun _ states => states) (fun states => states) (congrArg Prod.snd)

end Simulation

end StepTrace
