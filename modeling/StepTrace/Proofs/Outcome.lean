import StepTrace.Proofs.Fuel
import StepTrace.Request

/-!
How traced runs end. The steps of a run stand for lines of the program until the run ends; what
comes last then tells the four endings apart.
-/

set_option autoImplicit false

namespace StepTrace

/-! ### The texts of steps -/

def Step.IsLine (s : Step) : Prop := ∃ n, s.explanation = Step.atLine n

theorem Step.isFailure_iff (s : Step) :
    s.isFailure = true ↔ "Error:".toList <+: s.explanation.toList := by
  unfold Step.isFailure
  rw [String.startsWith_string_iff]

theorem Step.isFailure_failure (message output : String) :
    (Step.failure message output).isFailure = true := by
  rw [Step.isFailure_iff]
  simp [Step.failure]

theorem Step.IsLine.isFailure {s : Step} (h : s.IsLine) : s.isFailure = false := by
  obtain ⟨n, h⟩ := h
  rw [Bool.eq_false_iff, ne_eq, Step.isFailure_iff, h]
  simp [Step.atLine]

theorem Step.isFailure_finished {s : Step} (h : s.explanation = Step.finished) :
    s.isFailure = false := by
  rw [Bool.eq_false_iff, ne_eq, Step.isFailure_iff, h]
  decide

theorem Step.IsLine.ne_finished {s : Step} (h : s.IsLine) : s.explanation ≠ Step.finished := by
  obtain ⟨n, h⟩ := h
  intro same
  rw [h] at same
  have chars := congrArg String.toList same
  simp [Step.atLine, Step.finished] at chars

/-! ### What a run keeps -/

structure Machine.Recorded (config : Config) (m : Machine) : Prop where
  settings : m.config = config
  lines : ∀ s ∈ m.steps.toList, s.IsLine
  room : m.steps.size ≤ config.budget.count
  halted : m.halted = true → m.steps.size = config.budget.count

namespace Machine.Recorded

variable {config : Config} {m : Machine}

theorem start (config : Config) (inputs : List String) :
    (Machine.start config inputs).Recorded config :=
  ⟨rfl, fun _ h => absurd h List.not_mem_nil, Nat.zero_le _, fun h => nomatch h⟩

theorem ofQuiet (h : m.Recorded config) {α : Type} {result : EStateM.Result Stop Machine α}
    (quiet : Quiet m result) : (Run.state result).Recorded config := by
  obtain ⟨steps, settings, halted, -⟩ := quiet
  refine ⟨?_, ?_, ?_, ?_⟩
  · rw [settings, h.settings]
  · rw [steps]
    exact h.lines
  · rw [steps]
    exact h.room
  · rw [steps, halted]
    exact h.halted

-- Where there is no room left, the budget is spent exactly.
theorem spent (h : m.Recorded config) (full : ¬ m.hasRoom = true) :
    m.steps.size = config.budget.count := by
  have room := h.room
  rw [Machine.hasRoom, h.settings, decide_eq_true_iff] at full
  omega

theorem bound (h : m.Recorded config) (room : m.hasRoom = true) :
    m.steps.size < config.budget.count := by
  rw [Machine.hasRoom, h.settings, decide_eq_true_iff] at room
  exact room

theorem record (h : m.Recorded config) (room : m.hasRoom = true) (line : Nat) :
    (m.record (Step.atLine line)).Recorded config := by
  have bound := h.bound room
  refine ⟨h.settings, ?_, ?_, ?_⟩
  · simp only [Machine.steps_record, List.mem_append, List.mem_singleton]
    rintro s (old | rfl)
    · exact h.lines s old
    · exact ⟨line, rfl⟩
  · simp only [Machine.record, Array.size_push]
    exact bound
  · intro halted
    have spent := h.halted halted
    omega

theorem finish (h : m.Recorded config) : ∀ s ∈ m.finish.steps.toList, s.isFailure = false := by
  by_cases room : m.hasRoom = true
  · rw [Machine.finish_of_room room]
    simp only [Machine.steps_record, List.mem_append, List.mem_singleton]
    rintro s (old | rfl)
    · exact (h.lines s old).isFailure
    · exact Step.isFailure_finished rfl
  · rw [Machine.finish_of_full room]
    exact fun s hs => (h.lines s hs).isFailure

end Machine.Recorded

theorem outcomeSimulation (config : Config) :
    Simulation ⟨false, false, true, true⟩ (fun m m' => m' = m ∧ m.Recorded config)
      (fun e steps => e = .halted → steps.length = config.budget.count)
      (fun _ _ _ => False) where
  step := by
    rintro α A x y h _ m ⟨rfl, recorded⟩
    obtain ⟨rfl, related⟩ := h.same rfl rfl
    have quiet := h.quiet m
    have after := recorded.ofQuiet quiet
    cases result : x m with
    | ok a m₁ =>
      rw [result] at after
      exact .ok (related m a m₁ result) ⟨rfl, after⟩
    | error e m₁ =>
      rw [result] at after
      refine .error ⟨rfl, after⟩ fun halted => ?_
      subst halted
      exact absurd result (quiet.goesOn m₁)
  boundary := by
    rintro line _ m ⟨rfl, recorded⟩
    have moved : Machine.Recorded config { m with lastLine := line } :=
      ⟨recorded.settings, recorded.lines, recorded.room, recorded.halted⟩
    unfold Run.boundary
    split
    · next halted => exact .error ⟨rfl, recorded⟩ fun _ => recorded.halted halted
    · dsimp only
      split
      · next room => exact .ok rfl ⟨rfl, moved.record room line⟩
      · next full =>
        have spent := moved.spent full
        exact .error ⟨rfl, moved.settings, moved.lines, moved.room, fun _ => spent⟩ fun _ => spent
  frame := by rintro _ m ⟨rfl, -⟩; rfl
  callers := by rintro _ m ⟨rfl, -⟩; rfl
  maxCallDepth := by rintro _ m ⟨rfl, -⟩; rfl
  evaluating := by rintro _ m ⟨rfl, -⟩; rfl
  heap := by rintro _ m ⟨rfl, -⟩; exact .refl _
  reframe := by rintro _ m ⟨rfl, h⟩ _ _; exact ⟨rfl, h.settings, h.lines, h.room, h.halted⟩
  deepen := by rintro _ m ⟨rfl, h⟩ _; exact ⟨rfl, h.settings, h.lines, h.room, h.halted⟩
  fault := fun _ _ halted => nomatch halted
  globals := rfl
  starved := fun fuel => nomatch fuel
  resume := fun h _ => h

theorem runProgram_recorded (fuel : Nat) (config : Config) (p : Program) (inputs : List String) :
    (Run.state (runProgram fuel p (.start config inputs))).Recorded config ∧
      ∀ m, runProgram fuel p (.start config inputs) = .error .halted m →
        m.steps.size = config.budget.count := by
  have answer := (outcomeSimulation config).run
    (runProgram_lockstep rfl (.refl fuel) (Bool.false_le false) p (Bool.le_true _))
    ⟨rfl, Machine.Recorded.start config inputs⟩
  change Answer _ _ _ _ _ (runProgram fuel p _) at answer
  generalize runProgram fuel p (.start config inputs) = result at answer ⊢
  cases result with
  | ok a m =>
    cases answer with
    | ok _ states => exact ⟨states.2, fun _ stop => nomatch stop⟩
  | error e m =>
    cases answer with
    | error states stopped =>
      refine ⟨states.2, fun m₁ stop => ?_⟩
      cases stop
      rw [← Array.length_toList]
      exact stopped rfl
    | short never => exact never.elim

/-! ### The four endings -/

inductive Ending
  | failed | waiting | finished | truncated
deriving DecidableEq, Repr

-- That a trace with a step budget of `b` has an ending.
def RawTrace.EndsAs (t : RawTrace) (b : Nat) : Ending → Prop
  | .failed =>
    t.needsInput = false ∧ ∃ before last, t.steps = before ++ [last] ∧ last.isFailure = true ∧
      (∀ s ∈ before, s.isFailure = false) ∧ before.length ≤ b
  | .waiting => t.needsInput = true ∧ t.steps.length ≤ b ∧ ∀ s ∈ t.steps, s.IsLine
  | .finished =>
    (∃ before last, t.steps = before ++ [last] ∧ last.explanation = Step.finished ∧
      ∀ s ∈ before, s.explanation ≠ Step.finished) ∧
      (∀ s ∈ t.steps, s.isFailure = false) ∧ t.steps.length ≤ b
  | .truncated => t.needsInput = false ∧ t.steps.length = b ∧ ∀ s ∈ t.steps, s.IsLine

-- The ending by the last step and the request for input alone.
def RawTrace.ending (t : RawTrace) : Ending :=
  match t.steps.getLast? with
  | some last =>
    if last.isFailure then .failed
    else if last.explanation = Step.finished then .finished
    else if t.needsInput then .waiting else .truncated
  | none => if t.needsInput then .waiting else .truncated

theorem RawTrace.ending_of_lines {t : RawTrace} (lines : ∀ s ∈ t.steps, s.IsLine) :
    t.ending = if t.needsInput then .waiting else .truncated := by
  unfold RawTrace.ending
  split
  · next last found =>
    have line := lines last (List.mem_of_getLast? found)
    rw [line.isFailure, if_neg line.ne_finished]
    rfl
  · rfl

theorem RawTrace.ending_ne_failed {t : RawTrace} (unfailed : ∀ s ∈ t.steps, s.isFailure = false) :
    t.ending ≠ .failed := by
  unfold RawTrace.ending
  split
  · next last found =>
    rw [unfailed last (List.mem_of_getLast? found)]
    simp only [Bool.false_eq_true, if_false]
    split
    · exact (nomatch ·)
    · split <;> exact (nomatch ·)
  · split <;> exact (nomatch ·)

theorem RawTrace.EndsAs.ending {t : RawTrace} {b : Nat} {o : Ending} (h : t.EndsAs b o) :
    t.ending = o := by
  cases o with
  | failed =>
    obtain ⟨-, before, last, steps, failure, -⟩ := h
    simp [RawTrace.ending, steps, failure]
  | finished =>
    obtain ⟨⟨before, last, steps, finished, -⟩, -⟩ := h
    simp [RawTrace.ending, steps, Step.isFailure_finished finished, finished]
  | waiting =>
    obtain ⟨waits, -, lines⟩ := h
    rw [RawTrace.ending_of_lines lines, waits]
    rfl
  | truncated =>
    obtain ⟨goes, -, lines⟩ := h
    rw [RawTrace.ending_of_lines lines, goes]
    rfl

structure Trace.WellFormed (t : Trace) (b : Nat) : Prop where
  room : t.steps.length ≤ b
  unfailed : ∀ s ∈ t.steps, s.isFailure = false
  apart : ¬ (t.error.isSome = true ∧ t.needsInput = true)
  message : t.error ≠ some noStepsMessage

theorem RawTrace.finalize_failed {t : RawTrace} {before : List Step} {last : Step}
    (steps : t.steps = before ++ [last]) (failure : last.isFailure = true) :
    t.finalize = ⟨before, some last.explanation, false⟩ := by
  simp [RawTrace.finalize, steps, failure]

theorem RawTrace.finalize_unfailed {t : RawTrace} (unfailed : ∀ s ∈ t.steps, s.isFailure = false)
    (shown : t.steps ≠ [] ∨ t.needsInput = true) :
    t.finalize = ⟨t.steps, none, t.needsInput⟩ := by
  unfold RawTrace.finalize
  split
  next last found => simp [unfailed last (List.mem_of_getLast? found)]
  next found =>
    rw [List.getLast?_eq_none_iff] at found
    have waits : t.needsInput = true := by simpa [found] using shown
    simp [found, waits]

theorem RawTrace.finalize_of_unfailed {t : RawTrace} {b : Nat}
    (unfailed : ∀ s ∈ t.steps, s.isFailure = false) (room : t.steps.length ≤ b)
    (shown : t.steps ≠ [] ∨ t.needsInput = true) : t.finalize.WellFormed b := by
  rw [RawTrace.finalize_unfailed unfailed shown]
  exact ⟨room, unfailed, (nomatch ·.1), (nomatch ·)⟩

theorem RawTrace.EndsAs.finalize {t : RawTrace} {b : Nat} {o : Ending} (h : t.EndsAs b o)
    (least : 0 < b) : t.finalize.WellFormed b := by
  cases o with
  | failed =>
    obtain ⟨-, before, last, steps, failure, unfailed, room⟩ := h
    have message : last.explanation ≠ noStepsMessage := by
      intro same
      rw [Step.isFailure_iff, same] at failure
      revert failure
      decide
    rw [RawTrace.finalize_failed steps failure]
    exact ⟨room, unfailed, (nomatch ·.2), fun same => message (Option.some.inj same)⟩
  | waiting =>
    obtain ⟨waits, room, lines⟩ := h
    exact t.finalize_of_unfailed (fun s hs => (lines s hs).isFailure) room (.inr waits)
  | finished =>
    obtain ⟨⟨before, last, steps, -⟩, unfailed, room⟩ := h
    exact t.finalize_of_unfailed unfailed room (.inl (by simp [steps]))
  | truncated =>
    obtain ⟨-, size, lines⟩ := h
    refine t.finalize_of_unfailed (fun s hs => (lines s hs).isFailure) (Nat.le_of_eq size) (.inl ?_)
    rintro empty
    rw [empty] at size
    exact absurd size (Nat.ne_of_lt least)

theorem traceProgram?_endsAs {fuel : Nat} {config : Config} {p : Program} {inputs : List String}
    {t : RawTrace} (h : traceProgram? fuel config p inputs = some t) :
    ∃ o, t.EndsAs config.budget.count o := by
  obtain ⟨recorded, halted⟩ := runProgram_recorded fuel config p inputs
  unfold traceProgram? at h
  generalize runProgram fuel p (.start config inputs) = result at h recorded halted
  cases result with
  | ok _ m =>
    cases h
    by_cases room : m.hasRoom = true
    · have bound := recorded.bound room
      have steps : m.finish.steps.toList = m.steps.toList ++ [m.toStep Step.finished] := by
        rw [Machine.finish_of_room room, Machine.steps_record]
      refine ⟨.finished, ⟨m.steps.toList, _, steps, rfl,
        fun s hs => (recorded.lines s hs).ne_finished⟩, recorded.finish, ?_⟩
      simp only [steps, List.length_append, Array.length_toList]
      exact bound
    · rw [Machine.finish_of_full room]
      exact ⟨.truncated, rfl, recorded.spent room, recorded.lines⟩
  | error e m =>
    cases e with
    | needsInput =>
      cases h
      exact ⟨.waiting, rfl, recorded.room, recorded.lines⟩
    | halted =>
      cases h
      exact ⟨.truncated, rfl, halted m rfl, recorded.lines⟩
    | fault f =>
      cases h
      exact ⟨.failed, rfl, m.steps.toList, _, rfl, Step.isFailure_failure ..,
        fun s hs => (recorded.lines s hs).isFailure, recorded.room⟩
    | outOfFuel => cases h

theorem Traces.endsAs {config : Config} {source : String} {inputs : List String} {t : RawTrace}
    (h : Traces config source inputs t) : ∃ o, t.EndsAs config.budget.count o := by
  obtain ⟨fuel, h⟩ := h
  unfold trace? at h
  cases parsed : parseProgram source with
  | ok p =>
    rw [parsed] at h
    exact traceProgram?_endsAs h
  | error e =>
    rw [parsed] at h
    cases h
    exact ⟨.failed, rfl, [], _, rfl, Step.isFailure_failure ..,
      fun _ h => absurd h List.not_mem_nil, Nat.zero_le _⟩

theorem ends_in_one_outcome {config : Config} {source : String} {inputs : List String}
    {t : RawTrace} (h : Traces config source inputs t) :
    (∃ o, t.EndsAs config.budget.count o ∧ ∀ o', t.EndsAs config.budget.count o' → o' = o) ∧
      t.finalize.WellFormed config.budget.count := by
  obtain ⟨o, ends⟩ := h.endsAs
  have least : 0 < config.budget.count := Nat.lt_of_lt_of_le (by decide) config.budget.least_le
  refine ⟨⟨o, ends, fun o' ends' => ?_⟩, ends.finalize least⟩
  rw [← ends.ending, ends'.ending]

-- What the program prints does not make its steps failures.
theorem printed_failure_ends_in_one_outcome :
    ∃ t, Traces {} "print(\"Error: 1\")\n" [] t ∧
      (∃ o, t.EndsAs 1000 o ∧ ∀ o', t.EndsAs 1000 o' → o' = o) ∧ t.finalize.WellFormed 1000 := by
  have ends : (trace? 20 {} "print(\"Error: 1\")\n" []).isSome = true := by decide +kernel
  obtain ⟨t, traced⟩ := Option.isSome_iff_exists.mp ends
  exact ⟨t, ⟨20, traced⟩, ends_in_one_outcome ⟨20, traced⟩⟩

end StepTrace
