import StepTrace.Proofs.Soundness.Statement
import StepTrace.Tracing

/-!
A traced run as one computation: the program, and the step after its end. Its history passes through
intact states and accounts for all accesses.
-/

set_option autoImplicit false

namespace StepTrace

theorem Machine.intact_start (config : Config) (inputs : List String) :
    (Machine.start config inputs).Intact := by
  have bare : ∀ id, (Machine.start config inputs).heap.get? id = none := fun _ =>
    Array.getElem?_empty
  refine ⟨⟨Nat.zero_le _, fun id o found => ?_, fun id o found => ?_⟩, fun s hs => ?_,
    (fun _ _ never => nomatch never), Heap.hosts_nil, Heap.hosts_nil⟩
  · rw [bare] at found
    cases found
  · rw [bare] at found
    cases found
  · obtain rfl := Array.mem_singleton.1 hs
    exact List.forall_mem_nil _

def tracedRun (fuel : Nat) (p : Program) : Run Unit := do
  runProgram fuel p
  Primitive.finish.run

-- A text that is no program is refused before anything runs.
def tracedSource (fuel : Nat) (source : String) : Run Unit :=
  match parseProgram source with
  | .ok p => tracedRun fuel (trackBlock p)
  | .error e => Run.fault e.toFault

namespace Sound

variable {m : Machine}

theorem tracedRun (fuel : Nat) (p : Program) : Safe m (tracedRun fuel p) :=
  .bind (.runProgram fuel p m) fun _ _ _ _ => .lastStep

theorem tracedSource (fuel : Nat) (source : String) : Safe m (tracedSource fuel source) := by
  unfold StepTrace.tracedSource
  split
  · exact .tracedRun ..
  · exact .fault _

end Sound

theorem tracedRun_eq {fuel : Nat} {p : Program} {m : Machine} :
    tracedRun fuel p m = match runProgram fuel p m with
      | .ok () m₁ => .ok () m₁.finish
      | .error e m₁ => .error e m₁ := by
  cases result : runProgram fuel p m with
  | ok a m₁ => exact Run.bind_ok result
  | error e m₁ => exact Run.bind_error result

-- A trace has the steps of the state in which the run ends, and a failure if there is one.
theorem steps_of_trace? {fuel : Nat} {config : Config} {source : String} {inputs : List String}
    {t : RawTrace} (h : trace? fuel config source inputs = some t) :
    ∃ failures,
      t.steps = (Run.state (tracedSource fuel source (.start config inputs))).steps.toList ++
        failures ∧
      ∀ s ∈ failures, ∃ message,
        s = .failure message (Run.state (tracedSource fuel source (.start config inputs))).output := by
  have complete : ∀ {steps : List Step} {output : String}, t.steps = steps →
      ∃ failures, t.steps = steps ++ failures ∧
        ∀ s ∈ failures, ∃ message, s = .failure message output := fun same =>
    ⟨[], same.trans (List.append_nil _).symm, List.forall_mem_nil _⟩
  unfold trace? at h
  unfold tracedSource
  cases parsed : parseProgram source with
  | ok p =>
    simp only [parsed, traceProgram?] at h
    dsimp only
    rw [tracedRun_eq]
    cases result : runProgram fuel (trackBlock p) (.start config inputs) with
    | ok a m =>
      rw [result] at h
      cases h
      exact complete rfl
    | error e m =>
      rw [result] at h
      cases e with
      | fault f =>
        cases h
        exact ⟨[_], rfl, List.forall_mem_singleton.2 ⟨_, rfl⟩⟩
      | needsInput | halted =>
        cases h
        exact complete rfl
      | outOfFuel => cases h
  | error e =>
    rw [parsed] at h
    cases h
    exact ⟨[_], rfl, List.forall_mem_singleton.2 ⟨_, rfl⟩⟩

/-! ### States -/

-- The states that moments lead through.
def trajectory (m : Machine) (s : List Moment) : List Machine := m :: s.map Moment.after

-- Each state of a sound course is intact and earlier than those that follow.
theorem Course.trajectory {m m' : Machine} {s : List Moment} (course : Course Moment.Sound m s m')
    (intact : m.Intact) : (∀ k ∈ trajectory m s, k.Intact ∧ m.heap.Later k.heap) ∧
      (trajectory m s).Pairwise fun k k' => k.heap.Later k'.heap := by
  have here : m.Intact ∧ m.heap.Later m.heap := ⟨intact, .refl intact.heap.stratified⟩
  induction course with
  | nil m =>
    exact ⟨List.forall_mem_singleton.2 here, List.pairwise_singleton ..⟩
  | @cons u s m' hu _ ih =>
    obtain ⟨after, ordered⟩ := ih hu.intact ⟨hu.intact, .refl hu.intact.heap.stratified⟩
    have after : ∀ k ∈ StepTrace.trajectory u.after s, k.Intact ∧ u.before.heap.Later k.heap :=
      fun k hk => ⟨(after k hk).1, hu.later.trans (after k hk).2⟩
    exact ⟨List.forall_mem_cons.2 ⟨here, after⟩,
      List.pairwise_cons.2 ⟨fun k hk => (after k hk).2, ordered⟩⟩

end StepTrace
