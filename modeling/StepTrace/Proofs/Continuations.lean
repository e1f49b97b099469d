import StepTrace.Proofs.Twins
import StepTrace.Proofs.Outcome

/-!
Runs that are cut short. A run that waits for input is resumed by running the program again with
more of it, and the step budget cuts a run off and does nothing else: the new run takes the same
steps up to where the old one stopped. A run that stops by itself does so with more input and with a
greater budget too.
-/

set_option autoImplicit false

namespace StepTrace

/-! ### More input -/

theorem traceProgram?_surplus {fuel : Nat} {config : Config} {p : Program} {inputs : List String}
    {t : RawTrace} (h : traceProgram? fuel config p inputs = some t)
    (served : t.needsInput = false) (more : List String) :
    traceProgram? fuel config p (inputs ++ more) = some t := by
  have answer := runProgram_unmarked (u := ⟨false, more, config, config.budget, Nat.le_refl _⟩)
    rfl fuel p inputs
  unfold traceProgram? at h ⊢
  generalize runProgram fuel p (.start config inputs) = result at h answer
  generalize runProgram fuel p (.start config (inputs ++ more)) = result' at answer ⊢
  cases answer with
  | ok _ T =>
    cases h
    simp only [rawTrace?, (T.finish rfl).steps rfl]
  | @error e _ _ T =>
    rw [T.rawTrace?_error rfl e]
    exact h
  | short cut =>
    rcases cut.1 with ⟨rfl, -⟩ | ⟨-, more⟩
    · cases h
      cases served
    · exact absurd more (Nat.lt_irrefl _)

theorem replay_is_faithful {config : Config} {source : String} {inputs : List String}
    {t : RawTrace} (h : Traces config source inputs t) (more : List String) :
    (t.needsInput = true →
      ∀ t', Traces config source (inputs ++ more) t' → t.steps <+: t'.steps) ∧
    (t.needsInput = false →
      ∀ t', Traces config source (inputs ++ more) t' ↔ t' = t) := by
  constructor
  · intro _ t' h'
    exact h.extends (Nat.le_refl config.budget.count) h'
  · intro served
    have again : Traces config source (inputs ++ more) t :=
      h.lift fun _ _ run => traceProgram?_surplus run served more
    exact again.iff_eq

theorem replay_is_faithful_reader :
    ∃ t t', Traces {} "print(input())\n" [] t ∧ t.needsInput = true ∧
      Traces {} "print(input())\n" ["1"] t' ∧ t'.needsInput = false ∧
      t.steps <+: t'.steps ∧
      ∀ u, Traces {} "print(input())\n" ["1", "2"] u ↔ u = t' := by
  have waits : (trace? 20 {} "print(input())\n" []).map RawTrace.needsInput = some true := by
    decide +kernel
  have ends : (trace? 20 {} "print(input())\n" ["1"]).map RawTrace.needsInput = some false := by
    decide +kernel
  obtain ⟨t, traced, waiting⟩ := Option.map_eq_some_iff.mp waits
  obtain ⟨t', resumed, served⟩ := Option.map_eq_some_iff.mp ends
  have first : t.steps <+: t'.steps :=
    (replay_is_faithful ⟨20, traced⟩ ["1"]).1 waiting t' ⟨20, resumed⟩
  have second := (replay_is_faithful ⟨20, resumed⟩ ["2"]).2 served
  exact ⟨t, t', ⟨20, traced⟩, waiting, ⟨20, resumed⟩, served, first, second⟩

/-! ### A greater budget -/

-- A run that fails or waits does not stop because its budget is spent.
theorem traceProgram?_stops {fuel : Nat} {config : Config} {p : Program} {inputs : List String}
    {t : RawTrace} (h : traceProgram? fuel config p inputs = some t)
    (stops : t.needsInput = true ∨ t.ending = .failed) :
    ∃ e m, runProgram fuel p (.start config inputs) = .error e m ∧ e ≠ .halted := by
  have recorded := (runProgram_recorded fuel config p inputs).1
  unfold traceProgram? at h
  generalize runProgram fuel p (.start config inputs) = result at h recorded
  cases result with
  | ok _ m =>
    cases h
    rcases stops with waits | fails
    · cases waits
    · exact absurd fails (RawTrace.ending_ne_failed recorded.finish)
  | error e m =>
    refine ⟨e, m, rfl, ?_⟩
    rintro rfl
    cases h
    rcases stops with waits | fails
    · cases waits
    · refine absurd fails (RawTrace.ending_ne_failed fun s hs => ?_)
      exact (recorded.lines s hs).isFailure

theorem traceProgram?_budget {fuel : Nat} {config : Config} {p : Program} {inputs : List String}
    {t : RawTrace} (h : traceProgram? fuel config p inputs = some t)
    (stops : t.needsInput = true ∨ t.ending = .failed) {budget : StepBudget}
    (enough : config.budget.count ≤ budget.count) :
    traceProgram? fuel { config with budget := budget } p inputs = some t := by
  obtain ⟨e, m, stopped, early⟩ := traceProgram?_stops h stops
  have answer := runProgram_unmarked (u := ⟨false, [], config, budget, enough⟩) rfl fuel p inputs
  dsimp only at answer
  rw [List.append_nil, stopped] at answer
  unfold traceProgram? at h ⊢
  rw [stopped] at h
  generalize runProgram fuel p _ = result' at answer ⊢
  cases answer with
  | error T =>
    rw [T.rawTrace?_error rfl e]
    exact h
  | short cut =>
    rcases cut.1 with ⟨-, more⟩ | ⟨halts, -⟩
    · exact absurd rfl more
    · exact absurd halts early

theorem budget_only_truncates {config : Config} {source : String} {inputs : List String}
    {t : RawTrace} (h : Traces config source inputs t) {budget : StepBudget}
    (enough : config.budget.count ≤ budget.count) :
    (∀ t', Traces { config with budget := budget } source inputs t' → t.steps <+: t'.steps) ∧
    (t.needsInput = true ∨ t.ending = .failed →
      ∀ t', Traces { config with budget := budget } source inputs t' ↔ t' = t) := by
  constructor
  · intro t' h'
    rw [← List.append_nil inputs] at h'
    exact h.extends enough h'
  · intro stops
    have again : Traces { config with budget := budget } source inputs t :=
      h.lift fun _ _ run => traceProgram?_budget run stops enough
    exact again.iff_eq

theorem budget_only_truncates_loop_and_fault :
    (∃ t t', Traces { budget := ⟨10, by decide⟩ } "while True:\n    pass\n" [] t ∧
      Traces { budget := ⟨20, by decide⟩ } "while True:\n    pass\n" [] t' ∧ t.steps <+: t'.steps) ∧
    ∃ t, Traces { budget := ⟨10, by decide⟩ } "x = 1\nx / 0\n" [] t ∧ t.ending = .failed ∧
      ∀ t', Traces { budget := ⟨20, by decide⟩ } "x = 1\nx / 0\n" [] t' ↔ t' = t := by
  have short : (trace? 60 { budget := ⟨10, by decide⟩ } "while True:\n    pass\n" []).isSome := by
    decide +kernel
  have long : (trace? 60 { budget := ⟨20, by decide⟩ } "while True:\n    pass\n" []).isSome := by
    decide +kernel
  have fails : (trace? 20 { budget := ⟨10, by decide⟩ } "x = 1\nx / 0\n" []).map
      RawTrace.ending = some .failed := by
    decide +kernel
  obtain ⟨t, traced⟩ := Option.isSome_iff_exists.mp short
  obtain ⟨t', traced'⟩ := Option.isSome_iff_exists.mp long
  obtain ⟨u, failing, failed⟩ := Option.map_eq_some_iff.mp fails
  have enough : (10 : Nat) ≤ StepBudget.count ⟨20, by decide⟩ := by decide
  have truncated : t.steps <+: t'.steps :=
    (budget_only_truncates ⟨60, traced⟩ enough).1 t' ⟨60, traced'⟩
  have same := (budget_only_truncates ⟨20, failing⟩ enough).2 (.inr failed)
  exact ⟨⟨t, t', ⟨60, traced⟩, ⟨60, traced'⟩, truncated⟩, u, ⟨20, failing⟩, failed, same⟩

end StepTrace
