import StepTrace.Proofs.Outcome
import StepTrace.Proofs.TracedRun

/-!
Stops are final. Whatever stops a run, it does nothing after it but leave the parts that it is in,
and it ends with the stop that it met.
-/

set_option autoImplicit false

namespace StepTrace

/-! ### What histories show -/

namespace Event

def text : Event → String
  | .printed text => text
  | _ => ""

def lines : Event → List String
  | .received line => [line]
  | _ => []

def steps : Event → List Step
  | .recorded step => [step]
  | _ => []

def stop? : Event → Option Stop
  | .stopped e => some e
  | _ => none

end Event

-- Output, input and steps change by what the event shows and by nothing else; no step that is
-- recorded passes for a failure.
structure Moment.Honest (u : Moment) : Prop where
  output : u.after.output = u.before.output ++ u.event.text
  inputs : u.before.inputs = u.event.lines ++ u.after.inputs
  steps : u.after.steps.toList = u.before.steps.toList ++ u.event.steps
  named : ∀ step ∈ u.event.steps, step.isFailure = false

-- Two states that show the same.
structure Machine.LooksLike (m m' : Machine) : Prop where
  output : m'.output = m.output
  inputs : m'.inputs = m.inputs
  steps : m'.steps = m.steps

theorem Machine.LooksLike.honest {m m' : Machine} (alike : m.LooksLike m') {e : Event}
    (text : e.text = "") (lines : e.lines = []) (steps : e.steps = []) :
    Moment.Honest ⟨m, e, m'⟩ := by
  refine ⟨?_, ?_, ?_, ?_⟩
  · rw [text, String.append_empty]
    exact alike.output
  · rw [lines, List.nil_append]
    exact alike.inputs.symm
  · rw [steps, List.append_nil]
    exact congrArg Array.toList alike.steps
  · rw [steps]
    exact List.forall_mem_nil _

namespace Machine.LooksLike

variable {α β : Type} {m m' m'' : Machine}

theorem refl (m : Machine) : m.LooksLike m := ⟨rfl, rfl, rfl⟩

theorem trans (h : m.LooksLike m') (h' : m'.LooksLike m'') : m.LooksLike m'' :=
  ⟨h'.output.trans h.output, h'.inputs.trans h.inputs, h'.steps.trans h.steps⟩

theorem bind {x : Run α} {f : α → Run β} (hx : m.LooksLike (Run.state (x m)))
    (hf : ∀ a (m : Machine), m.LooksLike (Run.state (f a m))) :
    m.LooksLike (Run.state ((x >>= f) m)) := by
  cases result : x m with
  | ok a m₁ =>
    rw [result] at hx
    rw [Run.bind_ok result]
    exact hx.trans (hf a m₁)
  | error e m₁ =>
    rw [result] at hx
    rw [Run.bind_error result]
    exact hx

theorem note (kind : AccessKind) (l : ListObject) (i : Int64) (m : Machine) :
    m.LooksLike (Run.state (Interp.note kind l i m)) := by
  rw [Interp.note]
  cases l.tracker with
  | none => exact .refl m
  | some id => exact ⟨rfl, rfl, rfl⟩

theorem alloc (o : Object) (m : Machine) : m.LooksLike (Run.state (Run.alloc o m)) := by
  unfold Run.alloc
  split <;> exact ⟨rfl, rfl, rfl⟩

end Machine.LooksLike

namespace Primitive

variable {α : Type} {a : Primitive α} {m m' : Machine}

theorem honest_of_stopped {e : Stop} (stopped : a.run m = .error e m') (alike : m.LooksLike m') :
    (a.moment m).Honest := by
  rw [moment, event_error stopped, stopped]
  exact alike.honest rfl rfl rfl

theorem honest_of_alike (alike : m.LooksLike (Run.state (a.run m))) (text : (a.mark m).text = "")
    (lines : (a.mark m).lines = []) (steps : (a.mark m).steps = []) : (a.moment m).Honest := by
  cases result : a.run m with
  | ok v m' =>
    rw [moment, event_ok result]
    exact alike.honest text lines steps
  | error e m' =>
    rw [result] at alike
    exact honest_of_stopped result alike

theorem honest_nextInput (m : Machine) : (nextInput.moment m).Honest := by
  cases waiting : m.inputs with
  | nil =>
    refine honest_of_stopped (e := .needsInput) ?_ (.refl m)
    simp only [run, Run.nextInput, waiting]
  | cons line rest =>
    have served : nextInput.run m = .ok line { m with inputs := rest } := by
      simp only [run, Run.nextInput, waiting]
    rw [moment, event_ok served, served, mark, waiting]
    exact ⟨String.append_empty.symm, waiting, (List.append_nil _).symm,
      List.forall_mem_nil _⟩

theorem honest_boundary (line : Nat) (m : Machine) : ((boundary line).moment m).Honest := by
  by_cases halted : m.halted = true
  · exact honest_of_stopped (if_pos halted) (.refl m)
  · by_cases room : { m with lastLine := line }.hasRoom = true
    · have recorded : (boundary line).run m =
          .ok () ({ m with lastLine := line }.record (Step.atLine line)) :=
        (if_neg halted).trans (if_pos room)
      rw [moment, event_ok recorded, recorded, mark]
      exact ⟨String.append_empty.symm, rfl, Machine.steps_record ..,
        List.forall_mem_singleton.2 (Step.IsLine.isFailure ⟨line, rfl⟩)⟩
    · exact honest_of_stopped ((if_neg halted).trans (if_neg room)) ⟨rfl, rfl, rfl⟩

theorem honest_finish (m : Machine) : (finish.moment m).Honest := by
  change Moment.Honest ⟨m, finish.mark m, m.finish⟩
  by_cases room : m.hasRoom = true
  · rw [Machine.finish_of_room room, mark, if_pos room]
    exact ⟨String.append_empty.symm, rfl, Machine.steps_record ..,
      List.forall_mem_singleton.2 (Step.isFailure_finished rfl)⟩
  · rw [Machine.finish_of_full room, mark, if_neg room]
    exact (Machine.LooksLike.refl m).honest rfl rfl rfl

theorem honest (a : Primitive α) (m : Machine) : (a.moment m).Honest := by
  have still : ∀ {a : Primitive α}, m.LooksLike (Run.state (a.run m)) → a.mark m = .silent →
      (a.moment m).Honest := fun alike silent =>
    honest_of_alike alike (by rw [silent]; rfl) (by rw [silent]; rfl) (by rw [silent]; rfl)
  cases a with
  | print text =>
    exact ⟨rfl, rfl, (List.append_nil _).symm, List.forall_mem_nil _⟩
  | nextInput => exact honest_nextInput m
  | boundary line => exact honest_boundary line m
  | finish => exact honest_finish m
  | readElement id l i =>
    refine honest_of_alike (.bind (.note ..) fun _ m₁ => ?_) ?_ ?_ ?_
    · unfold Interp.inside
      generalize (position? _ _).bind _ = found
      cases found <;> exact .refl m₁
    all_goals
      rw [mark]
      split <;> rfl
  | writeElement id l i v =>
    refine honest_of_alike (.bind (.note ..) fun _ m₁ => ?_) ?_ ?_ ?_
    · generalize position? _ _ = place
      cases place <;> exact ⟨rfl, rfl, rfl⟩
    all_goals
      rw [mark]
      split <;> rfl
  | alloc o => exact still (.alloc o m) rfl
  | allocTracked items => exact still (.alloc _ m) rfl
  | lookup | delete | declareGlobal | checkDepth =>
    refine still ?_ rfl
    simp only [run, Run.lookup, Run.delete, Run.declareGlobal, Run.checkDepth]
    split <;> exact ⟨rfl, rfl, rfl⟩
  | _ => exact still ⟨rfl, rfl, rfl⟩ rfl

end Primitive

theorem Machine.Aside.looksLike {m m' : Machine} (aside : m.Aside m') : m.LooksLike m' := by
  obtain ⟨_, _, _, _, rfl⟩ := aside
  exact ⟨rfl, rfl, rfl⟩

theorem History.honest {α : Type} {x : Run α} {m : Machine} {s : List Moment}
    (h : History x m s) : Course Moment.Honest m s (Run.state (x m)) :=
  h.course Primitive.honest (fun m => (Machine.LooksLike.refl m).honest rfl rfl rfl)
    (fun aside => aside.looksLike.honest rfl rfl rfl)
    (fun aside => aside.looksLike.honest rfl rfl rfl)

def stepsOf (s : List Moment) : List Step := s.flatMap (·.event.steps)

theorem Course.steps {m m' : Machine} {s : List Moment} (course : Course Moment.Honest m s m') :
    m'.steps.toList = m.steps.toList ++ stepsOf s := by
  induction course with
  | nil m => exact (List.append_nil _).symm
  | @cons u s m' hu _ ih =>
    rw [ih, hu.steps, List.append_assoc]
    rfl

/-! ### Stops -/

def Run.stop? {α : Type} : EStateM.Result Stop Machine α → Option Stop
  | .ok .. => none
  | .error e _ => some e

-- Either nothing stops, or one moment does, and what it interrupts is left then.
def Closes (s : List Moment) : Option Stop → Prop
  | none => ∀ v ∈ s, v.event.stop? = none
  | some e => ∃ past u rest, s = past ++ u :: rest ∧ (∀ v ∈ past, v.event.stop? = none) ∧
      u.event = .stopped e ∧ ∀ v ∈ rest, v.event = .unwound

namespace Closes

variable {s t : List Moment} {last? : Option Stop}

theorem append (hs : Closes s none) (ht : Closes t last?) : Closes (s ++ t) last? := by
  cases last? with
  | none => exact List.forall_mem_append.2 ⟨hs, ht⟩
  | some e =>
    obtain ⟨past, u, rest, rfl, before, stopped, after⟩ := ht
    refine ⟨s ++ past, u, rest, ?_, List.forall_mem_append.2 ⟨hs, before⟩, stopped, after⟩
    rw [List.append_assoc]

theorem around (hs : Closes s last?) (m m₁ m₂ m₃ : Machine) :
    Closes (around m m₁ s m₂ m₃) last? := by
  cases last? with
  | none =>
    refine List.forall_mem_append.2 ⟨List.forall_mem_cons.2 ⟨rfl, hs⟩, ?_⟩
    exact List.forall_mem_singleton.2 rfl
  | some e =>
    obtain ⟨past, u, rest, rfl, before, stopped, after⟩ := hs
    refine ⟨⟨m, .silent, m₁⟩ :: past, u, rest ++ [⟨m₂, .unwound, m₃⟩], ?_,
      List.forall_mem_cons.2 ⟨rfl, before⟩, stopped,
      List.forall_mem_append.2 ⟨after, List.forall_mem_singleton.2 rfl⟩⟩
    rw [StepTrace.around, List.cons_append, List.cons_append, List.append_assoc, List.cons_append]

theorem stopped (m : Machine) (e : Stop) : Closes [⟨m, .stopped e, m⟩] (some e) :=
  ⟨[], _, [], rfl, List.forall_mem_nil _, rfl,
    List.forall_mem_nil _⟩

theorem quiet_of_unwound {rest : List Moment} (h : ∀ v ∈ rest, v.event = .unwound) :
    ∀ v ∈ rest, v.event.stop? = none := by
  intro v hv
  rw [h v hv]
  rfl

-- The moment that stops is the only one.
theorem unique {past rest : List Moment} {u : Moment} {e : Stop}
    (closes : Closes (past ++ u :: rest) last?) (stops : u.event = .stopped e) :
    last? = some e ∧ ∀ v ∈ rest, v.event = .unwound := by
  have loud : ∀ {s : List Moment}, (∀ v ∈ s, v.event.stop? = none) → u ∉ s := by
    intro s quiet hu
    have silent := quiet u hu
    rw [stops] at silent
    cases silent
  cases last? with
  | none => exact absurd (List.mem_append_right _ List.mem_cons_self) (loud closes)
  | some e' =>
    obtain ⟨past', u', rest', same, before, stops', after⟩ := closes
    -- Whichever of the two stops came first, the other one would have to be quiet.
    rcases List.append_eq_append_iff.1 same with ⟨mid, rfl, tails⟩ | ⟨mid, rfl, tails⟩
    · cases mid with
      | nil =>
        obtain ⟨rfl, rfl⟩ := List.cons.inj tails
        rw [stops] at stops'
        cases stops'
        exact ⟨rfl, after⟩
      | cons w mid =>
        obtain ⟨rfl, -⟩ := List.cons.inj tails
        exact absurd (List.mem_append_right _ List.mem_cons_self) (loud before)
    · cases mid with
      | nil =>
        obtain ⟨rfl, rfl⟩ := List.cons.inj tails
        rw [stops] at stops'
        cases stops'
        exact ⟨rfl, after⟩
      | cons w mid =>
        obtain ⟨rfl, rfl⟩ := List.cons.inj tails
        exact absurd (List.mem_append_right _ List.mem_cons_self) (loud (quiet_of_unwound after))

end Closes

theorem Run.stop?_putBack {α β : Type} {g : α → β} {leave : α → Machine → Machine}
    {fail : Machine → Machine} (result : EStateM.Result Stop Machine α) :
    stop? (putBack g leave fail result) = stop? result := by
  cases result <;> rfl

theorem History.closes {α : Type} {x : Run α} {m : Machine} {s : List Moment}
    (h : History x m s) : Closes s (Run.stop? (x m)) := by
  induction h with
  | primitive a m =>
    cases result : a.run m with
    | ok v m' =>
      refine List.forall_mem_singleton.2 ?_
      rw [Primitive.moment, Primitive.event_ok result]
      cases marked : a.mark m with
      | stopped e => exact absurd marked (a.mark_ne_stopped m e)
      | _ => rfl
    | error e m' =>
      refine ⟨[], a.moment m, [], rfl, List.forall_mem_nil _, ?_,
        List.forall_mem_nil _⟩
      exact Primitive.event_error result
  | pure a m => exact List.forall_mem_nil _
  | bind _ done _ ihx ihf =>
    rw [done] at ihx
    rw [Run.bind_ok done]
    exact .append ihx ihf
  | bindStopped _ stopped ih =>
    rw [stopped] at ih
    rw [Run.bind_error stopped]
    exact ih
  | inFrame f room _ ih =>
    rw [Run.inFrame_eq, if_pos room, Run.stop?_putBack]
    exact ih.around ..
  | deeper room _ ih =>
    rw [Run.deeper_eq, if_pos room, Run.stop?_putBack]
    exact ih.around ..
  | rearrange found _ ih =>
    rw [Run.rearrange_of_list found, Run.stop?_putBack]
    exact ih.around ..
  | rearrangeOther other _ ih =>
    rw [Run.rearrange_of_other other, Run.stop?_putBack]
    exact ih
  | @inFrameRefused _ x m f full =>
    have stopped : Run.inFrame f x m = .error (.fault .recursion) m := if_neg full
    rw [stopped]
    exact .stopped m _
  | @deeperRefused _ x m full =>
    have stopped : Run.deeper x m = .error (.fault .recursion) m := if_neg full
    rw [stopped]
    exact .stopped m _

/-! ### Refusals that do not stop a run -/

-- A missing attribute is all that `hasattr` and `getattr` can pass over.
theorem Heap.kind_of_attr {h : Heap} {v : Value} {name : String} {f : Fault}
    (refused : h.attr v name = .error f) : f.kind = .member := by
  unfold Heap.attr at refused
  dsimp only at refused
  split at refused
  all_goals
    repeat' split at refused
    all_goals cases refused
    all_goals rfl

-- Where a conversion refuses a value, another refusal takes the place of the first one.
theorem Percent.convert_refuses {h : Heap} {spec : FormatSpec} {c : Char} {v : Value} {f : Fault}
    (number : c ∈ ['f', 'F', 'e', 'E', 'g', 'G', 'x', 'X', 'o', 'c'])
    (refused : { spec with kind := some c }.apply h (String.singleton c) v = .error f) :
    ∃ g, Percent.convert h spec c v = .error g ∧ g.kind = .type := by
  unfold Percent.convert
  split
  iterate 5 exact absurd number (by decide)
  rw [if_pos (List.contains_iff_mem.2 number), refused]
  exact ⟨_, rfl, rfl⟩

/-! ### Runs -/

theorem Moment.Honest.alike {u : Moment} (hu : u.Honest) (text : u.event.text = "")
    (lines : u.event.lines = []) (steps : u.event.steps = []) : u.before.LooksLike u.after := by
  refine ⟨?_, ?_, ?_⟩
  · rw [hu.output, text, String.append_empty]
  · rw [hu.inputs, lines, List.nil_append]
  · refine Array.toList_inj.1 ?_
    rw [hu.steps, steps, List.append_nil]

theorem Course.alike {m m' : Machine} {s : List Moment} (course : Course Moment.Honest m s m')
    (unwound : ∀ v ∈ s, v.event = .unwound) : m.LooksLike m' := by
  induction course with
  | nil m => exact .refl m
  | @cons u s m hu _ ih =>
    obtain ⟨first, rest⟩ := List.forall_mem_cons.1 unwound
    refine (hu.alike ?_ ?_ ?_).trans (ih rest) <;> rw [first] <;> rfl

-- A run ends with the stop `e`, and nothing but parts that are left comes between.
structure EndsAt (result : EStateM.Result Stop Machine Unit) (e : Stop) (u : Moment)
    (rest : List Moment) : Prop where
  unwound : ∀ v ∈ rest, v.event = .unwound
  reported : ∃ m, result = .error e m ∧ u.before.LooksLike m

theorem History.endsAt {x : Run Unit} {m : Machine} {past rest : List Moment} {u : Moment}
    {e : Stop} (history : History x m (past ++ u :: rest)) (stops : u.event = .stopped e) :
    EndsAt (x m) e u rest := by
  obtain ⟨last, unwound⟩ := history.closes.unique stops
  refine ⟨unwound, ?_⟩
  obtain ⟨m₁, -, course⟩ := history.honest.split
  cases course with
  | cons hu course =>
    have alike : u.before.LooksLike (Run.state (x m)) := by
      refine (hu.alike ?_ ?_ ?_).trans (course.alike unwound) <;> rw [stops] <;> rfl
    cases result : x m with
    | ok a m' =>
      rw [result] at last
      cases last
    | error e' m' =>
      rw [result] at last alike
      cases last
      exact ⟨m', rfl, alike⟩

/--
Whatever stops a run stops it for good: afterwards no line is reached, nothing is printed, no input
is taken and no expression is evaluated, and the run ends with the very stop. Only a missing
attribute asked for by name does not stop a run, and a conversion of `%` reports a refusal as one of
its own.
-/
theorem stops_are_final (fuel : Nat) (p : Program) (config : Config) (inputs : List String) :
    (∃ s, History (tracedRun fuel p) (.start config inputs) s) ∧
    (∀ s, History (tracedRun fuel p) (.start config inputs) s →
      Course Moment.Honest (.start config inputs) s
        (Run.state (tracedRun fuel p (.start config inputs))) ∧
      ∀ past u rest e, s = past ++ u :: rest → u.event = .stopped e →
        EndsAt (tracedRun fuel p (.start config inputs)) e u rest) ∧
    (∀ (h : Heap) v name f, h.attr v name = .error f → f.kind = .member) ∧
    ∀ (h : Heap) (spec : FormatSpec) c v f,
      c ∈ ['f', 'F', 'e', 'E', 'g', 'G', 'x', 'X', 'o', 'c'] →
      { spec with kind := some c }.apply h (String.singleton c) v = .error f →
      ∃ g, Percent.convert h spec c v = .error g ∧ g.kind = .type := by
  refine ⟨?_, fun s history => ⟨history.honest, ?_⟩, fun _ _ _ _ => Heap.kind_of_attr,
    fun _ _ _ _ _ => Percent.convert_refuses⟩
  · obtain ⟨s, history, -⟩ :=
      (Sound.tracedRun fuel p).history (Machine.intact_start config inputs)
    exact ⟨s, history⟩
  · rintro past u rest e rfl stops
    exact history.endsAt stops

end StepTrace
