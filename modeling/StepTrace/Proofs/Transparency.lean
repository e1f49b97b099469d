import StepTrace.Proofs.Twins

/-!
Marking the list displays of a program does not change what it does. Only the accesses that steps
report and the tags of lists in their variables tell the marked program from the plain one.
-/

set_option autoImplicit false

namespace StepTrace

-- States that only marks tell apart, and steps only in what marks add to them.
structure Machine.Alike (m m' : Machine) : Prop where
  config : m'.config = m.config
  heap : m.heap.Alike true m'.heap
  scopes : m'.scopes = m.scopes
  frame : m'.frame = m.frame
  callers : m'.callers = m.callers
  output : m'.output = m.output
  inputs : m'.inputs = m.inputs
  modules : m'.modules = m.modules
  steps : m'.steps.toList.map Step.plain = m.steps.toList.map Step.plain
  halted : m'.halted = m.halted
  lastLine : m'.lastLine = m.lastLine
  evaluating : m'.evaluating = m.evaluating

-- Two runs with the same result, or that stop for the same reason, in states alike.
def Run.EndAlike : EStateM.Result Stop Machine Unit → EStateM.Result Stop Machine Unit → Prop
  | .ok () m, .ok () m' => m.Alike m'
  | .error e m, .error e' m' => e' = e ∧ m.Alike m'
  | _, _ => False

/-- A trace of plain steps. -/
def RawTrace.plain (t : RawTrace) : RawTrace := { t with steps := t.steps.map Step.plain }

-- The marked twin of a run, with the same input and the same budget.
def Surplus.marking (config : Config) : Surplus := ⟨true, [], config, config.budget, Nat.le_refl _⟩

theorem Surplus.not_cut_marking {config : Config} {e : Stop} {s t : List Step} :
    ¬ (Surplus.marking config).Cut e s t := by
  rintro ⟨⟨-, more⟩ | ⟨-, more⟩, -⟩
  · exact more rfl
  · exact Nat.lt_irrefl _ more

theorem Machine.Twins.alike {config : Config} {m m' : Machine}
    (T : Machine.Twins (.marking config) m m') : m.Alike m' where
  config := by rw [T.config, T.config']; rfl
  heap := T.heap
  scopes := T.scopes
  frame := T.frame
  callers := T.callers
  output := T.output
  inputs := by rw [T.inputs]; exact List.append_nil _
  modules := T.modules
  steps := T.plain
  halted := T.halted
  lastLine := T.lastLine
  evaluating := T.evaluating

theorem runProgram_marking (fuel : Nat) (config : Config) (p : Program) (inputs : List String) :
    Answer (Machine.Twins (.marking config)) (fun _ _ => True) (Surplus.marking config).Cut Eq
      (runProgram fuel p (.start config inputs))
      (runProgram fuel (trackBlock p) (.start config inputs)) := by
  have answer := runProgram_twins (.marking config) fuel p inputs
  unfold Surplus.marking at answer ⊢
  dsimp only [markIf, cond_true] at answer
  rw [List.append_nil] at answer
  exact answer

theorem runProgram_endAlike (fuel : Nat) (config : Config) (p : Program) (inputs : List String) :
    Run.EndAlike (runProgram fuel p (.start config inputs))
      (runProgram fuel (trackBlock p) (.start config inputs)) := by
  have answer := runProgram_marking fuel config p inputs
  generalize runProgram fuel p (.start config inputs) = result at answer ⊢
  generalize runProgram fuel (trackBlock p) (.start config inputs) = result' at answer ⊢
  cases answer with
  | ok _ T => exact T.alike
  | error T => exact ⟨rfl, T.alike⟩
  | short cut => exact absurd cut Surplus.not_cut_marking

theorem traceProgram?_plain (fuel : Nat) (config : Config) (p : Program) (inputs : List String) :
    (traceProgram? fuel config (trackBlock p) inputs).map RawTrace.plain =
      (traceProgram? fuel config p inputs).map RawTrace.plain := by
  have answer := runProgram_marking fuel config p inputs
  unfold traceProgram?
  generalize runProgram fuel p (.start config inputs) = result at answer ⊢
  generalize runProgram fuel (trackBlock p) (.start config inputs) = result' at answer ⊢
  cases answer with
  | ok _ T => simp only [rawTrace?, Option.map_some, RawTrace.plain, (T.finish rfl).plain]
  | @error e _ _ T =>
    cases e with
    | needsInput | halted => simp only [rawTrace?, Option.map_some, RawTrace.plain, T.plain]
    | fault f =>
      simp only [rawTrace?, Option.map_some, RawTrace.plain, List.map_append, T.plain, T.output]
    | outOfFuel => rfl
  | short cut => exact absurd cut Surplus.not_cut_marking

theorem tracking_is_transparent (fuel : Nat) (config : Config) (p : Program)
    (inputs : List String) :
    Run.EndAlike (runProgram fuel p (.start config inputs))
      (runProgram fuel (trackBlock p) (.start config inputs)) ∧
    (traceProgram? fuel config (trackBlock p) inputs).map RawTrace.plain =
      (traceProgram? fuel config p inputs).map RawTrace.plain :=
  ⟨runProgram_endAlike fuel config p inputs, traceProgram?_plain fuel config p inputs⟩

end StepTrace
