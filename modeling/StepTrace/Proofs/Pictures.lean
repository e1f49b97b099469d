import StepTrace.Proofs.Finality

/-!
Steps are pictures of the states in which they are recorded. What a program has printed by one step
is there in all later ones.
-/

set_option autoImplicit false

namespace StepTrace

/-! ### Recorded states -/

-- The settings stay, and a step that is recorded shows the state before.
structure Moment.Pictured (u : Moment) : Prop where
  config : u.after.config = u.before.config
  steps : ∀ step ∈ u.event.steps, ∃ line explanation,
    step = { u.before with lastLine := line }.toStep explanation

namespace Primitive

variable {α : Type}

theorem config_note (kind : AccessKind) (l : ListObject) (i : Int64) (m : Machine) :
    ∃ m₁, Interp.note kind l i m = .ok () m₁ ∧ m₁.config = m.config := by
  unfold Interp.note
  cases l.tracker <;> exact ⟨_, rfl, rfl⟩

theorem config_run (a : Primitive α) (m : Machine) :
    (Run.state (a.run m)).config = m.config := by
  cases a with
  | readElement id l i =>
    obtain ⟨m₁, noted, same⟩ := config_note .read l i m
    rw [run, Run.bind_ok noted, ← same]
    generalize (position? _ _).bind _ = element
    cases element <;> rfl
  | writeElement id l i v =>
    obtain ⟨m₁, noted, same⟩ := config_note .write l i m
    rw [run, Run.bind_ok noted, ← same]
    generalize position? _ _ = place
    cases place <;> rfl
  | boundary line =>
    simp only [run, Run.boundary]
    split
    · rfl
    · split <;> rfl
  | finish =>
    simp only [run, Machine.finish]
    split <;> rfl
  | alloc o | allocTracked items =>
    simp only [run]
    exact (Run.quiet_alloc _ m).config
  | lookup | delete | declareGlobal | checkDepth | nextInput =>
    simp only [run, Run.lookup, Run.delete, Run.declareGlobal, Run.checkDepth, Run.nextInput]
    split <;> rfl
  | _ => rfl

theorem steps_mark (a : Primitive α) (m : Machine) : ∀ step ∈ (a.mark m).steps,
    ∃ line explanation, step = { m with lastLine := line }.toStep explanation := by
  intro step recorded
  cases a with
  | boundary line =>
    obtain rfl := List.mem_singleton.1 recorded
    exact ⟨line, _, rfl⟩
  | finish =>
    rw [mark] at recorded
    split at recorded
    · obtain rfl := List.mem_singleton.1 recorded
      exact ⟨m.lastLine, _, rfl⟩
    · cases recorded
  | readElement | writeElement =>
    rw [mark] at recorded
    split at recorded <;> cases recorded
  | _ => cases recorded

theorem pictured (a : Primitive α) (m : Machine) : (a.moment m).Pictured := by
  constructor
  next => exact a.config_run m
  next =>
    intro step recorded
    cases result : a.run m with
    | ok v m₁ =>
      rw [moment, event_ok result] at recorded
      exact a.steps_mark m step recorded
    | error e m₁ =>
      rw [moment, event_error result] at recorded
      cases recorded

end Primitive

theorem Machine.Aside.pictured {m m' : Machine} (aside : m.Aside m') {e : Event}
    (still : e.steps = []) : Moment.Pictured ⟨m, e, m'⟩ := by
  obtain ⟨_, _, _, _, rfl⟩ := aside
  exact ⟨rfl, by simp [still]⟩

theorem History.pictured {α : Type} {x : Run α} {m : Machine} {s : List Moment}
    (h : History x m s) : Course Moment.Pictured m s (Run.state (x m)) :=
  h.course Primitive.pictured (fun _ => ⟨rfl, List.forall_mem_nil _⟩)
    (fun aside => aside.pictured rfl) (fun aside => aside.pictured rfl)

-- The steps of a trace are taken one after the other, and at most a failure follows them.
theorem Traces.pictured {config : Config} {source : String} {inputs : List String} {t : RawTrace}
    (h : Traces config source inputs t) :
    ∃ s m failures, Course (fun u => u.Honest ∧ u.Pictured) (.start config inputs) s m ∧
      t.steps = stepsOf s ++ failures ∧
      ∀ step ∈ failures, ∃ message, step = .failure message m.output := by
  obtain ⟨fuel, traced⟩ := h
  obtain ⟨s, history, -⟩ :=
    (Sound.tracedSource fuel source).history (Machine.intact_start config inputs)
  obtain ⟨failures, steps, failed⟩ := steps_of_trace? traced
  have pictured := history.pictured.all
  refine ⟨s, _, failures, history.honest.imp fun u hu honest => ⟨honest, pictured u hu⟩, ?_, failed⟩
  rw [steps, history.honest.steps]
  rfl

/-! ### Values -/

theorem Course.settings {m m' : Machine} {s : List Moment}
    (course : Course (fun u => u.Honest ∧ u.Pictured) m s m') :
    ∀ u ∈ s, u.before.config = m.config := by
  induction course with
  | nil m => simp
  | @cons u s m' hu _ ih =>
    rw [hu.2.config] at ih
    simpa using ih

-- The values of a step are copies, as deep as the settings say; a failure shows none.
theorem Traces.captured {config : Config} {source : String} {inputs : List String} {t : RawTrace}
    (h : Traces config source inputs t) :
    ∀ step ∈ t.steps, ∀ b ∈ step.bindings.values,
      ∃ (heap : Heap) (v : Value), b.value = heap.capture config.maxDepth v := by
  obtain ⟨s, m, failures, course, steps, failed⟩ := h.pictured
  intro step hstep b hb
  rw [steps, List.mem_append] at hstep
  rcases hstep with recorded | failure
  · obtain ⟨u, hu, recorded⟩ := List.mem_flatMap.mp recorded
    obtain ⟨line, explanation, rfl⟩ := (course.all u hu).2.steps step recorded
    have settings : u.before.config = config := course.settings u hu
    simp only [Machine.toStep, Machine.shown, Ordered.values_mapValues, List.mem_map] at hb
    obtain ⟨v, -, rfl⟩ := hb
    exact ⟨u.before.heap, v, by rw [← settings]; rfl⟩
  · obtain ⟨message, rfl⟩ := failed step failure
    simp [Step.failure, Ordered.values] at hb

/-! ### Output -/

-- The second text goes on where the first one ends.
def Continues (s s' : String) : Prop := s.toList <+: s'.toList

theorem Continues.refl (s : String) : Continues s s := List.prefix_rfl

theorem Continues.trans {s s' s'' : String} (h : Continues s s') (h' : Continues s' s'') :
    Continues s s'' :=
  List.IsPrefix.trans h h'

theorem Moment.Honest.continues {u : Moment} (hu : u.Honest) :
    Continues u.before.output u.after.output := by
  simp [Continues, hu.output]

theorem Moment.Pictured.output {u : Moment} (hu : u.Pictured) :
    ∀ step ∈ u.event.steps, step.output = u.before.output := by
  intro step recorded
  obtain ⟨line, explanation, rfl⟩ := hu.steps step recorded
  rfl

-- The outputs on the way from one state to another, in order.
theorem Course.outputs {m m' : Machine} {s : List Moment}
    (course : Course (fun u => u.Honest ∧ u.Pictured) m s m') :
    (m.output :: ((stepsOf s).map Step.output ++ [m'.output])).Pairwise Continues := by
  induction course with
  | nil m => simp [stepsOf, Continues.refl]
  | @cons u s m' hu _ ih =>
    obtain ⟨honest, pictured⟩ := hu
    obtain ⟨later, ordered⟩ := List.pairwise_cons.1 ih
    have before : ∀ o ∈ (stepsOf s).map Step.output ++ [m'.output], Continues u.before.output o :=
      fun o ho => honest.continues.trans (later o ho)
    cases event : u.event with
    | recorded step =>
      have shown := pictured.output step (by simp [event, Event.steps])
      have steps : stepsOf (u :: s) = step :: stepsOf s := by simp [stepsOf, event, Event.steps]
      rw [steps, List.map_cons, shown]
      apply List.Pairwise.cons
      · exact List.forall_mem_cons.2 ⟨.refl _, before⟩
      · exact List.pairwise_cons.2 ⟨before, ordered⟩
    | _ =>
      have steps : stepsOf (u :: s) = stepsOf s := by simp [stepsOf, event, Event.steps]
      rw [steps]
      exact List.pairwise_cons.2 ⟨before, ordered⟩

/-- What a program has printed by a step of its trace is the beginning of what later steps show. -/
theorem output_only_grows {config : Config} {source : String} {inputs : List String} {t : RawTrace}
    (h : Traces config source inputs t) :
    t.steps.Pairwise fun s s' => s.output.toList <+: s'.output.toList := by
  obtain ⟨s, m, failures, course, steps, failed⟩ := h.pictured
  have outputs := (List.pairwise_cons.1 course.outputs).2
  obtain ⟨ordered, -, before⟩ := List.pairwise_append.1 outputs
  have last : ∀ step ∈ failures, step.output = m.output := by
    intro step hstep
    obtain ⟨message, rfl⟩ := failed step hstep
    rfl
  have ordered : (stepsOf s).Pairwise fun s s' => Continues s.output s'.output :=
    List.pairwise_map.1 ordered
  rw [steps, List.pairwise_append]
  refine ⟨ordered, ?_, fun a ha b hb => ?_⟩
  · apply List.pairwise_of_forall_mem_list
    intro a ha b hb
    simp only [last a ha, last b hb, List.prefix_rfl]
  · rw [last b hb]
    exact before _ (List.mem_map_of_mem ha) _ (List.mem_singleton_self _)

-- The failure at the end shows what was printed since the step before.
theorem output_only_grows_failing :
    ∃ t, Traces {} "print(1)\nprint(2) / 0\n" [] t ∧
      t.steps.map Step.output = ["", "1\n", "1\n2\n"] ∧
      t.steps.Pairwise fun s s' => s.output.toList <+: s'.output.toList := by
  have run : (trace? 20 {} "print(1)\nprint(2) / 0\n" []).map (fun t => t.steps.map Step.output) =
      some ["", "1\n", "1\n2\n"] := by
    decide +kernel
  obtain ⟨t, traced, outputs⟩ := Option.map_eq_some_iff.mp run
  exact ⟨t, ⟨20, traced⟩, outputs, output_only_grows ⟨20, traced⟩⟩

end StepTrace
