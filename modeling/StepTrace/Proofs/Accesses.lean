import StepTrace.Proofs.Finality
import StepTrace.Proofs.Fuel

/-!
The accesses of the steps of a run are those that the program makes: every subscript of a tracked
list up to the last step is there once, in order, with the list and a place in it.
-/

set_option autoImplicit false

namespace StepTrace

def Event.accesses : Event → List Access
  | .accessed kind id i => [⟨kind, toString id, i⟩]
  | _ => []

def accessesOf (s : List Moment) : List Access := s.flatMap (·.event.accesses)

-- How the accesses that wait change with a moment follows from its event.
def Moment.Accounted (u : Moment) : Prop := u.event.Accounts u.before u.after

/-! ### What moments add up to -/

-- What a step takes along was waiting or is added.
theorem Moment.Accounted.sum {u : Moment} (hu : u.Accounted) (quiet : u.event.stop? = none) :
    u.event.steps.flatMap Step.accesses ++ u.after.accesses.toList =
      u.before.accesses.toList ++ u.event.accesses := by
  obtain ⟨m, e, m'⟩ := u
  cases e with
  | recorded step =>
    obtain ⟨taken, emptied⟩ : step.accesses = m.accesses.toList ∧ m'.accesses = #[] := hu
    change (step.accesses ++ []) ++ m'.accesses.toList = m.accesses.toList ++ []
    rw [taken, emptied, List.append_nil]
  | accessed kind id i =>
    have pushed : m'.accesses = m.accesses.push ⟨kind, toString id, i⟩ := hu.1
    exact (congrArg Array.toList pushed).trans Array.toList_push
  | stopped e => cases quiet
  | silent | printed | received | unwound =>
    have same : m'.accesses = m.accesses := hu
    exact (congrArg Array.toList same).trans (List.append_nil _).symm

theorem Course.sum {m m' : Machine} {s : List Moment} (course : Course Moment.Accounted m s m')
    (quiet : ∀ u ∈ s, u.event.stop? = none) :
    (stepsOf s).flatMap Step.accesses ++ m'.accesses.toList =
      m.accesses.toList ++ accessesOf s := by
  induction course with
  | nil m => exact (List.append_nil _).symm
  | @cons u s m' hu _ ih =>
    obtain ⟨first, others⟩ := List.forall_mem_cons.1 quiet
    calc
      (stepsOf (u :: s)).flatMap Step.accesses ++ m'.accesses.toList
      _ = u.event.steps.flatMap Step.accesses ++
          ((stepsOf s).flatMap Step.accesses ++ m'.accesses.toList) := by
        rw [stepsOf, List.flatMap_cons, List.flatMap_append, List.append_assoc]
        rfl
      _ = u.event.steps.flatMap Step.accesses ++ u.after.accesses.toList ++ accessesOf s := by
        rw [ih others, List.append_assoc]
      _ = u.before.accesses.toList ++ accessesOf (u :: s) := by
        rw [hu.sum first, List.append_assoc]
        rfl

/-! ### Up to the last step -/

-- A past that is over with the moment that records a step, if there is one.
def EndsInStep (past : List Moment) : Prop :=
  past = [] ∨ ∃ before u, past = before ++ [u] ∧ u.event.steps ≠ []

theorem split_at_last_step (s : List Moment) :
    ∃ past rest, s = past ++ rest ∧ EndsInStep past ∧ ∀ u ∈ rest, u.event.steps = [] := by
  induction s with
  | nil => exact ⟨[], [], rfl, .inl rfl, List.forall_mem_nil _⟩
  | cons u s ih =>
    obtain ⟨past, rest, rfl, last | ⟨before, v, rfl, last⟩, others⟩ := ih
    · subst last
      by_cases recorded : u.event.steps = []
      · exact ⟨[], u :: rest, rfl, .inl rfl, List.forall_mem_cons.2 ⟨recorded, others⟩⟩
      · exact ⟨[u], rest, rfl, .inr ⟨[], u, rfl, recorded⟩, others⟩
    · exact ⟨u :: before ++ [v], rest, rfl, .inr ⟨u :: before, v, rfl, last⟩, others⟩

namespace EndsInStep

variable {past rest : List Moment}

-- Nothing has stopped before a step is recorded.
theorem quiet (ends : EndsInStep past) {last? : Option Stop}
    (closes : Closes (past ++ rest) last?) : ∀ u ∈ past, u.event.stop? = none := by
  rcases ends with rfl | ⟨before, v, rfl, recorded⟩
  · exact List.forall_mem_nil _
  · refine List.forall_mem_append.2 ⟨fun u hu => ?_, List.forall_mem_singleton.2 ?_⟩
    · cases stops : u.event with
      | stopped e =>
        obtain ⟨before, between, rfl⟩ := List.append_of_mem hu
        simp only [List.append_assoc, List.cons_append] at closes
        have unwound := (closes.unique stops).2 v (by simp)
        rw [unwound] at recorded
        exact absurd rfl recorded
      | _ => rfl
    · cases stops : v.event with
      | stopped e =>
        rw [stops] at recorded
        exact absurd rfl recorded
      | _ => rfl

-- No access waits where a step has just been recorded.
theorem settled (ends : EndsInStep past) {m m' : Machine}
    (course : Course Moment.Accounted m past m') (bare : m.accesses = #[]) : m'.accesses = #[] := by
  rcases ends with rfl | ⟨before, u, rfl, recorded⟩
  · cases course
    exact bare
  · obtain ⟨_, -, last⟩ := course.split
    cases last with
    | cons hu rest =>
      obtain rfl := rest.eq_of_nil
      have rule : u.event.Accounts u.before u.after := hu
      cases event : u.event with
      | recorded step =>
        rw [event] at rule
        exact rule.2
      | _ =>
        rw [event] at recorded
        exact absurd rfl recorded

end EndsInStep

/-! ### Subscripts and accesses -/

-- A subscript of a tracked list leaves exactly one access behind.
theorem Subscript.accesses {m m' : Machine} (intact : m.heap.Intact) {id : ObjId} {l : ListObject}
    {n : Int64} {kind : AccessKind} (found : m.heap.get? id = some (.list l))
    (tracked : l.tracker = some id) (subscript : Subscript id n m m' kind) :
    m'.accesses = m.accesses.push ⟨kind, toString id, indexIn l.items.size n⟩ := by
  have left : m'.accesses = (Sound.noted m kind id l n).accesses := by
    cases kind with
    | read =>
      obtain ⟨v, run⟩ := subscript
      have run := (getItem_list (r := interp 0) found rfl).symm.trans (run _)
      rw [Primitive.run, Run.bind_ok (Sound.note_eq intact found .read n)] at run
      generalize (position? _ _).bind _ = element at run
      cases element <;> cases run
      rfl
    | write =>
      obtain ⟨v, run⟩ := subscript
      have run := (setItem_list (r := interp 0) found rfl v).symm.trans (run _)
      rw [Primitive.run, Run.bind_ok (Sound.note_eq intact found .write n)] at run
      generalize position? _ _ = place at run
      cases place <;> cases run
      rfl
  rw [left, Sound.noted, if_pos (by rw [tracked]; rfl)]

-- So a moment that makes one is an access.
theorem Moment.Accounted.accessed {u : Moment} (hu : u.Accounted) (quiet : u.event.stop? = none)
    {kind : AccessKind} {id : ObjId} {i : Int}
    (pushed : u.after.accesses = u.before.accesses.push ⟨kind, toString id, i⟩) :
    u.event = .accessed kind id i := by
  obtain ⟨m, e, m'⟩ := u
  dsimp only at pushed quiet ⊢
  cases e with
  | recorded step =>
    have emptied : m'.accesses = #[] := hu.2
    rw [emptied] at pushed
    exact absurd pushed.symm (Array.push_ne_empty)
  | accessed kind' id' i' =>
    have same := hu.1.symm.trans pushed
    obtain ⟨same, -⟩ := Array.push_eq_push.1 same
    obtain ⟨rfl, named, rfl⟩ := Access.mk.inj same
    rw [eq_of_toString_eq named]
  | stopped e => cases quiet
  | silent | printed | received | unwound =>
    have same : m'.accesses = m.accesses := hu
    have sizes := congrArg Array.size (same.symm.trans pushed)
    rw [Array.size_push] at sizes
    omega

/-! ### Traces -/

-- How the moments of a run, up to its last step and after it, account for the accesses of a trace.
structure AccountedBy (t : RawTrace) (past rest : List Moment) : Prop where
  ends : EndsInStep past
  silent : ∀ u ∈ rest, u.event.steps = []
  steps : t.steps.filter (!·.isFailure) = stepsOf past
  -- Each access once, in the order in which they are made.
  accesses : t.steps.flatMap Step.accesses = accessesOf past
  -- Each of them is a subscript of the list that it names, at a place of the list.
  touched : ∀ step ∈ t.steps, ∀ a ∈ step.accesses, ∃ u ∈ past, ∃ id, a.container = toString id ∧
    u.event = .accessed a.kind id a.index ∧ Touches a.kind id a.index u.before u.after
  -- No subscript of a tracked list is left out.
  complete : ∀ u ∈ past, ∀ kind id l n, u.before.heap.get? id = some (.list l) →
    l.tracker.isSome → Subscript id n u.before u.after kind →
    u.event = .accessed kind id (indexIn l.items.size n)

theorem Moment.Accounted.touches {u : Moment} (hu : u.Accounted) {a : Access}
    (ha : a ∈ u.event.accesses) : ∃ id, a.container = toString id ∧
      u.event = .accessed a.kind id a.index ∧ Touches a.kind id a.index u.before u.after := by
  obtain ⟨m, e, m'⟩ := u
  cases e with
  | accessed kind id i =>
    obtain rfl := List.mem_singleton.1 ha
    exact ⟨id, rfl, rfl, hu.2⟩
  | _ => exact absurd ha List.not_mem_nil

theorem accesses_of_failures {failures : List Step}
    (failed : ∀ s ∈ failures, ∃ message output, s = .failure message output) :
    failures.flatMap Step.accesses = [] := by
  refine List.flatMap_eq_nil_iff.2 fun s hs => ?_
  obtain ⟨message, output, rfl⟩ := failed s hs
  rfl

theorem filter_failures {steps failures : List Step} (named : ∀ s ∈ steps, s.isFailure = false)
    (failed : ∀ s ∈ failures, ∃ message output, s = .failure message output) :
    (steps ++ failures).filter (!·.isFailure) = steps := by
  rw [List.filter_append, List.filter_eq_self.2, List.filter_eq_nil_iff.2, List.append_nil]
  · intro s hs
    obtain ⟨message, output, rfl⟩ := failed s hs
    rw [Step.isFailure_failure]
    decide
  · intro s hs
    rw [named s hs]
    rfl

theorem accountedBy {m m' : Machine} {past rest : List Moment} {t : RawTrace}
    {failures : List Step} {last? : Option Stop} (intact : m.Intact) (bare : m.accesses = #[])
    (unstepped : m.steps = #[]) (course : Course Moment.Sound m (past ++ rest) m')
    (honest : Course Moment.Honest m (past ++ rest) m') (closes : Closes (past ++ rest) last?)
    (ends : EndsInStep past) (silent : ∀ u ∈ rest, u.event.steps = [])
    (steps : t.steps = m'.steps.toList ++ failures)
    (failed : ∀ s ∈ failures, ∃ message output, s = .failure message output) :
    AccountedBy t past rest := by
  have quiet := ends.quiet closes
  have intacts := course.intact intact
  have accounted := (course.imp fun _ _ hu => hu.accounts : Course Moment.Accounted ..)
  have sums := accounted.all
  obtain ⟨m₁, accounted, -⟩ := accounted.split
  have recorded : m'.steps.toList = stepsOf past := by
    have after : stepsOf rest = [] := List.flatMap_eq_nil_iff.2 silent
    rw [honest.steps, unstepped, stepsOf, List.flatMap_append]
    change [] ++ (stepsOf past ++ stepsOf rest) = _
    rw [after, List.append_nil, List.nil_append]
  have named : ∀ s ∈ stepsOf past, s.isFailure = false := by
    intro s hs
    obtain ⟨u, hu, step⟩ := List.mem_flatMap.1 hs
    exact (honest.all u (List.mem_append_left _ hu)).named s step
  have accesses : t.steps.flatMap Step.accesses = accessesOf past := by
    have sum := accounted.sum quiet
    rw [ends.settled accounted bare, bare] at sum
    rw [steps, List.flatMap_append, accesses_of_failures failed, recorded]
    exact sum
  refine ⟨ends, silent, ?_, accesses, fun step hstep a ha => ?_, ?_⟩
  · rw [steps, recorded, filter_failures named failed]
  · have listed : a ∈ accessesOf past := accesses ▸ List.mem_flatMap.2 ⟨step, hstep, ha⟩
    obtain ⟨u, hu, ha⟩ := List.mem_flatMap.1 listed
    exact ⟨u, hu, (sums u (List.mem_append_left _ hu)).touches ha⟩
  · intro u hu kind id l n found tracked subscript
    have here := List.mem_append_left rest hu
    have intact := (intacts u here).1.heap
    obtain ⟨t, tracker⟩ := Option.isSome_iff_exists.1 tracked
    obtain rfl : t = id := intact.placed id _ found t tracker
    exact (sums u here).accessed (quiet u hu) (subscript.accesses intact found tracker)

/--
The accesses of the steps of a trace are the subscripts of tracked lists that the run makes before
its last step, each once and in order, under the id of the list and at a place that it has then.
-/
theorem accesses_are_complete {config : Config} {source : String} {inputs : List String}
    {t : RawTrace} (h : Traces config source inputs t) :
    ∃ fuel past rest, trace? fuel config source inputs = some t ∧
      History (tracedSource fuel source) (.start config inputs) (past ++ rest) ∧
      Course Moment.Accounted (.start config inputs) (past ++ rest)
        (Run.state (tracedSource fuel source (.start config inputs))) ∧
      AccountedBy t past rest := by
  obtain ⟨fuel, traced⟩ := h
  have intact := Machine.intact_start config inputs
  obtain ⟨s, history, course, -⟩ := (Sound.tracedSource fuel source).history intact
  obtain ⟨failures, steps, failed⟩ := steps_of_trace? traced
  obtain ⟨past, rest, rfl, ends, silent⟩ := split_at_last_step s
  exact ⟨fuel, past, rest, traced, history, course.imp fun _ _ hu => hu.accounts,
    accountedBy intact rfl rfl course history.honest history.closes ends silent steps
      fun s hs => (failed s hs).imp fun _ same => ⟨_, same⟩⟩

theorem accesses_are_complete_negative_index :
    ∃ t, Traces {} "a = [1, 2]\na[-1] = a[0]\n" [] t ∧
      t.steps.flatMap Step.accesses = [⟨.read, "0", 0⟩, ⟨.write, "0", 1⟩] ∧
      ∃ past rest, AccountedBy t past rest := by
  have run : (trace? 20 {} "a = [1, 2]\na[-1] = a[0]\n" []).map
      (fun t => t.steps.flatMap Step.accesses) = some [⟨.read, "0", 0⟩, ⟨.write, "0", 1⟩] := by
    decide +kernel
  obtain ⟨t, traced, accesses⟩ := Option.map_eq_some_iff.mp run
  have traces : Traces {} "a = [1, 2]\na[-1] = a[0]\n" [] t := ⟨20, traced⟩
  obtain ⟨_, past, rest, -, -, -, accounted⟩ := accesses_are_complete traces
  exact ⟨t, traces, accesses, past, rest, accounted⟩

end StepTrace
