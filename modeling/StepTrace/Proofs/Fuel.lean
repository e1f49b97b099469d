import StepTrace.Proofs.Lockstep.Simulation
import StepTrace.Tracing

/-!
Fuel bounds a run and says nothing else about it: what a run leaves behind with some fuel, it leaves
behind with more.
-/

set_option autoImplicit false

namespace StepTrace

/-- The run of the text of a program ends and leaves a trace behind. -/
def Traces (config : Config) (source : String) (inputs : List String) (t : RawTrace) : Prop :=
  ∃ fuel, trace? fuel config source inputs = some t

-- A trace stays one with other settings or other input if it does for the runs of parsed programs.
theorem Traces.lift {config config' : Config} {source : String} {inputs inputs' : List String}
    {t : RawTrace} (h : Traces config source inputs t)
    (runs : ∀ fuel p, traceProgram? fuel config p inputs = some t →
      traceProgram? fuel config' p inputs' = some t) :
    Traces config' source inputs' t := by
  obtain ⟨fuel, h⟩ := h
  refine ⟨fuel, ?_⟩
  unfold trace? at h ⊢
  cases parsed : parseProgram source with
  | ok p =>
    rw [parsed] at h
    exact runs fuel (trackBlock p) h
  | error e =>
    rw [parsed] at h
    exact h

-- Only where the first run is out of fuel may the second one do something else.
theorem fuelSimulation :
    Simulation ⟨false, true, true, true⟩ (fun m m' => m' = m) (fun _ _ => True)
      (fun e _ _ => e = .outOfFuel) where
  step := by
    rintro α A x y h _ m rfl
    obtain ⟨rfl, related⟩ := h.same rfl rfl
    cases result : x m with
    | ok a m₁ => exact .ok (related m a m₁ result) rfl
    | error e m₁ => exact .error rfl trivial
  boundary := by
    rintro line _ m rfl
    cases Run.boundary line m with
    | ok a m₁ => exact .ok rfl rfl
    | error e m₁ => exact .error rfl trivial
  frame := by rintro m _ rfl; rfl
  callers := by rintro m _ rfl; rfl
  maxCallDepth := by rintro m _ rfl; rfl
  evaluating := by rintro m _ rfl; rfl
  heap := by rintro m _ rfl; exact .refl _
  reframe := by rintro m _ rfl _ _; rfl
  deepen := by rintro m _ rfl _; rfl
  fault := fun _ _ => trivial
  globals := rfl
  starved := fun _ _ _ => rfl
  resume := fun h _ => h

theorem traceProgram?_mono {n k : Nat} (le : n ≤ k) {config : Config} {p : Program}
    {inputs : List String} {t : RawTrace} (h : traceProgram? n config p inputs = some t) :
    traceProgram? k config p inputs = some t := by
  have answer := fuelSimulation.run (m := .start config inputs)
    (runProgram_lockstep rfl (.ofLe rfl le) (Bool.false_le false) p (Bool.le_true _)) rfl
  change Answer _ _ _ _ _ (runProgram k p _) at answer
  unfold traceProgram? at h ⊢
  generalize runProgram n p (.start config inputs) = result at h answer
  generalize runProgram k p (.start config inputs) = result' at answer ⊢
  cases answer with
  | ok _ same =>
    subst same
    exact h
  | error same =>
    subst same
    exact h
  | short spent =>
    subst spent
    cases h

theorem trace?_mono {n k : Nat} (le : n ≤ k) {config : Config} {source : String}
    {inputs : List String} {t : RawTrace} (h : trace? n config source inputs = some t) :
    trace? k config source inputs = some t := by
  unfold trace? at h ⊢
  split at h
  · exact traceProgram?_mono le h
  · exact h

theorem Traces.unique {config : Config} {source : String} {inputs : List String}
    {t u : RawTrace} (ht : Traces config source inputs t) (hu : Traces config source inputs u) :
    u = t := by
  obtain ⟨n, ht⟩ := ht
  obtain ⟨k, hu⟩ := hu
  have left := trace?_mono (Nat.le_max_left n k) ht
  have right := trace?_mono (Nat.le_max_right n k) hu
  rw [left] at right
  exact (Option.some.inj right).symm

theorem Traces.iff_eq {config : Config} {source : String} {inputs : List String} {t : RawTrace}
    (h : Traces config source inputs t) (u : RawTrace) : Traces config source inputs u ↔ u = t := by
  constructor
  · exact h.unique
  · rintro rfl
    exact h

-- What `trace` gives, unless its fuel is spent first.
theorem Traces.trace_eq {config : Config} {source : String} {inputs : List String} {t : RawTrace}
    (h : Traces config source inputs t)
    (ends : (trace? ampleFuel config source inputs).isSome = true) :
    trace config source inputs = t := by
  obtain ⟨u, found⟩ := Option.isSome_iff_exists.mp ends
  have same : u = t := h.unique ⟨ampleFuel, found⟩
  unfold trace
  rw [found, same]
  rfl

end StepTrace
