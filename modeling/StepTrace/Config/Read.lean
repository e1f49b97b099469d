import StepTrace.Config
import StepTrace.Toml

/-!
Settings written as a TOML document. Every setting may be left out; at the top level there may be
no other names, and the filter may have any.
-/

set_option autoImplicit false

namespace StepTrace

namespace Toml

def word? : Toml → Option Int64
  | int n => some n
  | _ => none

/-- A natural number of 64 bits. -/
def nat? (v : Toml) : Option Nat := do
  let n ← v.word?
  if 0 ≤ n.toInt then some n.toInt.toNat else none

def str? : Toml → Option String
  | str s => some s
  | _ => none

def strings? : Toml → Option (List String)
  | arr items => items.mapM str?
  | _ => none

/-- A setting that may be left out; one that is given has to be read. -/
def setting? {α : Type} (read? : Toml → Option α) (fallback : α) : Option Toml → Option α
  | none => some fallback
  | some v => read? v

end Toml

namespace VariableFilter

def ofLists? (hidden denied : Option Toml) : Option VariableFilter := do
  let d : VariableFilter := {}
  return ⟨← Toml.setting? Toml.strings? d.hiddenPrefixes hidden,
    ← Toml.setting? Toml.strings? d.denylist denied⟩

/-- A filter: a table, or an array of its two lists. A moment counts as a table without names. -/
def ofToml? : Toml → Option VariableFilter
  | .table _ entries => ofLists? (entries.lookup "hidden_prefixes") (entries.lookup "denylist")
  | .arr items => ofLists? items[0]? items[1]?
  | .moment => some {}
  | _ => none

end VariableFilter

namespace Config

def settings : List String :=
  ["step_budget", "max_depth", "max_call_depth", "max_objects", "filter"]

/-- The settings of a document; those it leaves out keep their defaults. -/
def ofToml? (text : String) : Option Config := do
  let entries ← Toml.read? text
  if !entries.all fun (name, _) => settings.contains name then none
  let d : Config := {}
  let nat? := fun name fallback => Toml.setting? Toml.nat? fallback (entries.lookup name)
  let budget? := fun v => (Toml.word? v).map fun n => StepBudget.ofRequest n.toInt
  return {
    budget := ← Toml.setting? budget? d.budget (entries.lookup "step_budget")
    maxDepth := ← nat? "max_depth" d.maxDepth
    maxCallDepth := ← nat? "max_call_depth" d.maxCallDepth
    maxObjects := ← nat? "max_objects" d.maxObjects
    filter := ← Toml.setting? VariableFilter.ofToml? d.filter (entries.lookup "filter") }

end Config

end StepTrace
