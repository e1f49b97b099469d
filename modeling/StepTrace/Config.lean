import StepTrace.Number.Read
import StepTrace.Text.Cuts

/-!
Settings of a traced run.
-/

set_option autoImplicit false

namespace StepTrace

/-- How many steps a run may record. -/
structure StepBudget where
  count : Nat
  least_le : 10 ≤ count := by decide
deriving DecidableEq, Repr

namespace StepBudget

/-- The budget for a request; a small request counts as the least budget. -/
def ofRequest (n : Int) : StepBudget := ⟨max n.toNat 10, by omega⟩

/-- The budget that a user has typed; what is no number counts as the least budget. -/
def ofText (s : String) : StepBudget :=
  match Number.readWord? 10 (Text.trim s).toList with
  | some n => ofRequest n.toInt
  | none => ⟨10, by decide⟩

def default : StepBudget := ⟨1000, by decide⟩

theorem count_ofRequest (n : Int) : (ofRequest n).count = max n.toNat 10 := rfl

end StepBudget

/-- Which variables steps leave out. -/
structure VariableFilter where
  hiddenPrefixes : List String := ["__"]
  denylist : List String := ["tracer_instance", "TrackedList"]
deriving DecidableEq, Repr

def VariableFilter.hides (f : VariableFilter) (name : String) : Bool :=
  f.hiddenPrefixes.any (name.startsWith ·) || f.denylist.contains name

/-- The settings of a run. -/
structure Config where
  budget : StepBudget := .default
  /-- The level of nesting below which values are left out. -/
  maxDepth : Nat := 10
  maxCallDepth : Nat := 500
  maxObjects : Nat := 1000000
  filter : VariableFilter := {}
deriving DecidableEq, Repr

end StepTrace
