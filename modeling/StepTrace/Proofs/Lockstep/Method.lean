import StepTrace.Eval.Arguments
import StepTrace.Eval.Method.Container
import StepTrace.Eval.Method.Text
import StepTrace.Proofs.Lockstep.Sorting

/-!
Arguments in lockstep, and the methods of lists, tuples, dictionaries, sets, deques and strings.
-/

set_option autoImplicit false

namespace StepTrace

/-! ### Arguments -/

namespace Lockstep

variable {d : Leeway} {p : Rights}

theorem finish (name : String) (keywords : Keywords) : (keywords.finish name).Steady d p := by
  cases keywords with
  | nil => exact .ret _
  | cons keyword rest => exact .fault _

theorem arity (name : String) (args : List Value) (low : Nat) (high : Option Nat) :
    (StepTrace.arity name args low high).Steady d p :=
  .ite (fun _ => .ret _) fun _ => .fault _

theorem intArgument (v : Value) : (StepTrace.intArgument v).Steady d p := by
  unfold StepTrace.intArgument
  split
  · exact .ret _
  · exact .faultOn fun _ _ H => by rw [H.typeName]

theorem numberArgument (name : String) (v : Value) :
    (StepTrace.numberArgument name v).Steady d p := by
  unfold StepTrace.numberArgument
  split
  · exact .ret _
  · exact .faultOn fun _ _ H => by rw [H.typeName]

theorem intParameter (method : String) (v : Value) :
    (StepTrace.intParameter method v).Steady d p := by
  unfold StepTrace.intParameter
  split
  · exact .ret _
  · exact .faultOn fun _ _ H => by rw [H.typeName]

theorem intParameter? (method : String) (v : Option Value) :
    (StepTrace.intParameter? method v).Steady d p := by
  unfold StepTrace.intParameter?
  split
  · exact .ret _
  · exact .ret _
  · exact .map some (intParameter ..)

theorem textParameter (method : String) (v : Value) :
    (StepTrace.textParameter method v).Steady d p := by
  unfold StepTrace.textParameter
  split
  · exact .ret _
  · exact .faultOn fun _ _ H => by rw [H.typeName]

theorem setOf (vs : List Value) (s : SetObject) : (StepTrace.setOf vs s).Steady d p := by
  induction vs generalizing s with
  | nil => exact .ret s
  | cons v rest ih => exact .seq (.keyOf v) fun _ => ih _

end Lockstep

namespace Interp.InStep

variable {d : Leeway} {p : Rights} {r r' : Interp} (R : r.InStep d r')
include R

theorem addPairs (pairs : List Value) (i : Nat) (entries : DictObject) :
    Lockstep d p Eq (StepTrace.addPairs r pairs i entries)
      (StepTrace.addPairs r' pairs i entries) := by
  induction pairs generalizing i entries with
  | nil => exact .ret entries
  | cons pair rest ih =>
    refine .seq (R.collect pair) fun parts => ?_
    split
    · exact .seq (.keyOf _) fun _ => ih ..
    · exact .fault _

theorem addEntries (entries : DictObject) (source : Value) :
    Lockstep d p Eq (StepTrace.addEntries r entries source)
      (StepTrace.addEntries r' entries source) := by
  refine .onObject source (fun _ _ => rfl) (fun _ _ => rfl) fun o => ?_
  split
  · exact .ret _
  · exact .seq (R.collect source) fun pairs => R.addPairs pairs.toList 0 entries

end Interp.InStep

/-! ### Containers -/

namespace Lockstep

variable {d : Leeway} {p : Rights}

theorem noMethod (typeName name : String) : (Interp.noMethod typeName name).Steady d p := .fault _

theorem itemsOf (id : ObjId) : (Interp.itemsOf id).Steady d p := by
  refine .onHeap fun h h' H => ?_
  rcases H.sees id with same | ⟨_, _, left, right⟩ | ⟨_, left, right⟩
  · rw [same]
    split <;> exact .ret _
  · rw [left, right]
    exact .ret _
  · rw [left, right]
    exact .ret _

theorem dictOf (id : ObjId) : (Interp.dictOf id).Steady d p := by
  refine .onHeap fun h h' H => ?_
  rcases H.sees id with same | ⟨_, _, left, right⟩ | ⟨_, left, right⟩
  · rw [same]
    split <;> exact .ret _
  · rw [left, right]
    exact .ret _
  · rw [left, right]
    exact .ret _

theorem membersOf (id : ObjId) : (Interp.membersOf id).Steady d p := by
  refine .onHeap fun h h' H => ?_
  rcases H.sees id with same | ⟨_, _, left, right⟩ | ⟨_, left, right⟩
  · rw [same]
    split <;> exact .ret _
  · rw [left, right]
    exact .ret _
  · rw [left, right]
    exact .ret _

theorem allocPairs (out : Array Value) (pairs : List (Value × Value)) :
    (Interp.allocPairs out pairs).Steady d p := by
  induction pairs generalizing out with
  | nil => exact .ret out
  | cons pair rest ih => exact .seq (.alloc rfl) fun _ => ih _

theorem popItem (id : ObjId) (i : Int64) : (Interp.popItem id i).Steady d p := by
  refine .seq (itemsOf id) fun items => .ite (fun _ => .raise _) fun _ => ?_
  split
  · exact .seq (.changeItems ..) fun _ => .ret _
  · exact .fault _

theorem removeMember (id : ObjId) (wanted : Bool) (item : Value) (key : HashKey) :
    (Interp.removeMember id wanted item key).Steady d p := by
  refine .seq (membersOf id) fun members =>
    .ite (fun _ => .mapSet ..) fun _ => .ite (fun _ => ?_) fun _ => .ret _
  exact .faultOn fun _ _ H => by rw [H.repr]

end Lockstep

namespace Interp.InStep

variable {d : Leeway} {p : Rights} {r r' : Interp} (R : r.InStep d r')
include R

theorem placeOf (item : Value) (i : Nat) (vs : List Value) :
    Lockstep d p Eq (r.placeOf item i vs) (r'.placeOf item i vs) := by
  induction vs generalizing i with
  | nil => exact .ret none
  | cons v rest ih => exact .seq (R.equal ..) fun
    | true => .ret _
    | false => ih _

theorem occurrences (item : Value) (n : Nat) (vs : List Value) :
    Lockstep d p Eq (r.occurrences item n vs) (r'.occurrences item n vs) := by
  induction vs generalizing n with
  | nil => exact .ret n
  | cons v rest ih => exact .seq (R.equal ..) fun _ => ih _

theorem searchMethod (items : Array Value) (typeName name : String) (args : List Value) :
    Lockstep d p Eq (r.searchMethod items typeName name args)
      (r'.searchMethod items typeName name args) := by
  unfold Interp.searchMethod
  split
  · refine .seq (.arity ..) fun _ => .seq (R.placeOf ..) fun found => ?_
    split
    · exact .ret _
    · exact .ite (fun _ => .fault _) fun _ => .faultOn fun _ _ H => by rw [H.repr]
  · exact .seq (.arity ..) fun _ => .seq (R.occurrences ..) fun _ => .ret _
  · exact .noMethod ..

theorem sortMethod (id : ObjId) (args : List Value) (keywords : Keywords) :
    Lockstep d p Eq (r.sortMethod id args keywords) (r'.sortMethod id args keywords) := by
  refine .ite (fun _ => .fault _) fun _ => ?_
  refine .onHeap fun h h' H => ?_
  rw [H.truths]
  exact .seq (.finish ..) fun _ => .rearrange id fun _ =>
    .seq (R.sorted ..) fun _ => .ret _

theorem listMethod (id : ObjId) (name : String) (args : List Value) (keywords : Keywords) :
    Lockstep d p Eq (r.listMethod id name args keywords) (r'.listMethod id name args keywords) := by
  refine .ite (fun _ => R.sortMethod ..) fun _ => .seq (.finish ..) fun _ => ?_
  split
  · exact .seq (.arity ..) fun _ => .seq (.changeItems ..) fun _ => .ret _
  · exact .seq (.arity ..) fun _ => .seq (R.collect _) fun _ =>
      .seq (.changeItems ..) fun _ => .ret _
  · exact .seq (.arity ..) fun _ => .seq (.intParameter ..) fun _ =>
      .seq (.changeItems ..) fun _ => .ret _
  · refine .seq (.arity ..) fun _ => ?_
    split
    · exact .seq (.intParameter ..) fun _ => .popItem ..
    · exact .popItem ..
  · refine .seq (.arity ..) fun _ => .seq (.itemsOf id) fun items =>
      .seq (R.placeOf ..) fun found => ?_
    split
    · exact .seq (.changeItems ..) fun _ => .ret _
    · exact .fault _
  · exact .seq (.arity ..) fun _ => .seq (.changeItems ..) fun _ => .ret _
  · exact .seq (.arity ..) fun _ => .seq (.changeItems ..) fun _ => .ret _
  · exact .seq (.arity ..) fun _ => .seq (.itemsOf id) fun _ => .alloc rfl
  · exact .seq (.itemsOf id) fun _ => R.searchMethod ..

theorem dictMethod (id : ObjId) (name : String) (args : List Value) (keywords : Keywords) :
    Lockstep d p Eq (r.dictMethod id name args keywords) (r'.dictMethod id name args keywords) := by
  refine .ite (fun _ => .seq (.arity ..) fun _ => ?_) fun _ => .seq (.finish ..) fun _ => ?_
  · split
    · exact .seq (R.addEntries ..) fun _ => .seq (.mapDict ..) fun _ => .ret _
    · exact .seq (.ret _) fun _ => .seq (.mapDict ..) fun _ => .ret _
  split
  · exact .seq (.arity ..) fun _ => .seq (.keyOf _) fun _ => .seq (.dictOf id) fun _ => .ret _
  · exact .seq (.arity ..) fun _ => .seq (.dictOf id) fun _ => .alloc rfl
  · exact .seq (.arity ..) fun _ => .seq (.dictOf id) fun _ => .alloc rfl
  · exact .seq (.arity ..) fun _ => .seq (.dictOf id) fun _ =>
      .seq (.allocPairs ..) fun _ => .alloc rfl
  · refine .seq (.arity ..) fun _ => .seq (.keyOf _) fun _ => .seq (.dictOf id) fun _ => ?_
    split
    · exact .seq (.mapDict ..) fun _ => .ret _
    · split
      · exact .ret _
      · exact .faultOn fun _ _ H => by rw [H.repr]
  · refine .seq (.arity ..) fun _ => .seq (.keyOf _) fun _ => .seq (.dictOf id) fun _ => ?_
    split
    · exact .ret _
    · exact .seq (.mapDict ..) fun _ => .ret _
  · exact .seq (.arity ..) fun _ => .seq (.mapDict ..) fun _ => .ret _
  · exact .seq (.arity ..) fun _ => .seq (.dictOf id) fun _ => .alloc rfl
  · refine .seq (.arity ..) fun _ => .seq (.dictOf id) fun _ => ?_
    dsimp only
    split
    · exact .seq (.mapDict ..) fun _ => .alloc rfl
    · exact .fault _
  · exact .noMethod ..

theorem combineSets (combine : SetObject → SetObject → SetObject) (s : SetObject)
    (vs : List Value) :
    Lockstep d p Eq (r.combineSets combine s vs) (r'.combineSets combine s vs) := by
  induction vs generalizing s with
  | nil => exact .ret s
  | cons v rest ih => exact .seq (R.collect v) fun _ => .seq (.setOf ..) fun _ => ih _

theorem setMethod (id : ObjId) (name : String) (args : List Value) (keywords : Keywords) :
    Lockstep d p Eq (r.setMethod id name args keywords) (r'.setMethod id name args keywords) := by
  refine .seq (.finish ..) fun _ => ?_
  split
  · exact .seq (.arity ..) fun _ => .seq (.keyOf _) fun _ => .seq (.mapSet ..) fun _ => .ret _
  · exact .seq (.arity ..) fun _ => .seq (.keyOf _) fun _ =>
      .seq (.removeMember ..) fun _ => .ret _
  · exact .seq (.arity ..) fun _ => .seq (.keyOf _) fun _ =>
      .seq (.removeMember ..) fun _ => .ret _
  · refine .seq (.arity ..) fun _ => .seq (.membersOf id) fun members => ?_
    split
    · exact .seq (.mapSet ..) fun _ => .ret _
    · exact .fault _
  · exact .seq (.arity ..) fun _ => .seq (.mapSet ..) fun _ => .ret _
  · exact .seq (.arity ..) fun _ => .seq (.membersOf id) fun _ => .alloc rfl
  · exact .seq (.membersOf id) fun _ => .seq (R.combineSets ..) fun _ => .alloc rfl
  · exact .seq (.membersOf id) fun _ => .seq (R.combineSets ..) fun _ => .alloc rfl
  · exact .seq (.membersOf id) fun _ => .seq (R.combineSets ..) fun _ => .alloc rfl
  · exact .seq (.membersOf id) fun _ => .seq (R.combineSets ..) fun _ =>
      .seq (.mapSet ..) fun _ => .ret _
  · exact .seq (.arity ..) fun _ => .seq (R.collect _) fun _ => .seq (.setOf ..) fun _ =>
      .seq (.membersOf id) fun _ => .ret _
  · exact .seq (.arity ..) fun _ => .seq (R.collect _) fun _ => .seq (.setOf ..) fun _ =>
      .seq (.membersOf id) fun _ => .ret _
  · exact .noMethod ..

theorem dequeMethod (id : ObjId) (name : String) (args : List Value) (keywords : Keywords) :
    Lockstep d p Eq (r.dequeMethod id name args keywords)
      (r'.dequeMethod id name args keywords) := by
  refine .seq (.finish ..) fun _ => ?_
  split
  · exact .seq (.arity ..) fun _ => .seq (.mapDeque ..) fun _ => .ret _
  · exact .seq (.arity ..) fun _ => .seq (.mapDeque ..) fun _ => .ret _
  · refine .seq (.arity ..) fun _ => .seq (.itemsOf id) fun items => ?_
    split
    · exact .seq (.mapDeque ..) fun _ => .ret _
    · exact .fault _
  · refine .seq (.arity ..) fun _ => .seq (.itemsOf id) fun items => ?_
    split
    · exact .seq (.mapDeque ..) fun _ => .ret _
    · exact .fault _
  · exact .seq (.arity ..) fun _ => .seq (R.collect _) fun _ =>
      .seq (.mapDeque ..) fun _ => .ret _
  · exact .seq (.arity ..) fun _ => .seq (R.collect _) fun _ =>
      .seq (.mapDeque ..) fun _ => .ret _
  · exact .seq (.arity ..) fun _ => .seq (.mapDeque ..) fun _ => .ret _
  · refine .seq (.arity ..) fun _ => ?_
    split
    · exact .seq (.intParameter ..) fun _ => .seq (.mapDeque ..) fun _ => .ret _
    · exact .seq (.ret _) fun _ => .seq (.mapDeque ..) fun _ => .ret _
  · exact .noMethod ..

end Interp.InStep

/-! ### Strings -/

namespace Lockstep

variable {d : Leeway} {p : Rights}

theorem joinable (i : Nat) (vs : List Value) : (Interp.joinable i vs).Steady d p := by
  induction vs generalizing i with
  | nil => exact .ret []
  | cons v rest ih =>
    cases v with
    | str s => exact .seq (ih _) fun _ => .ret _
    | none | bool | int | float | ref | builtin =>
      exact .faultOn fun _ _ H => by rw [H.typeName]

theorem mapM {α β : Type} {f : α → Run β} (hf : ∀ a, (f a).Steady d p) (as : List α) :
    (as.mapM f).Steady d p := by
  induction as with
  | nil =>
    rw [List.mapM_nil]
    exact .ret []
  | cons a rest ih =>
    rw [List.mapM_cons]
    exact .seq (hf a) fun _ => .seq ih fun _ => .ret _

theorem affixes (name : String) (v : Value) : (Interp.affixes name v).Steady d p := by
  refine .onObject v (fun _ _ => rfl) (fun _ _ => rfl) fun o => ?_
  split
  · exact mapM (textParameter name) _
  · exact .seq (textParameter ..) fun _ => .ret _

theorem fillCharacter (name : String) (v : Option Value) :
    (Interp.fillCharacter name v).Steady d p := by
  cases v with
  | none => exact .ret _
  | some v =>
    refine .seq (textParameter name v) fun cs => ?_
    split
    · exact .ret _
    · exact .fault _

theorem splitMethod (cs : List Char) (args : List Value) (keywords : Keywords) :
    (Interp.splitMethod cs args keywords).Steady d p := by
  refine .seq (arity ..) fun _ => .seq (finish ..) fun _ => .seq (intParameter? ..) fun _ => ?_
  split
  · exact .seq (.ret _) fun _ => .alloc rfl
  · exact .seq (.ret _) fun _ => .alloc rfl
  · exact .seq (textParameter ..) fun _ => .ite (fun _ => .raise _) fun _ =>
      .seq (.ret _) fun _ => .alloc rfl

theorem findMethod (cs : List Char) (name : String) (args : List Value) :
    (Interp.findMethod cs name args).Steady d p := by
  refine .seq (arity ..) fun _ => .seq (textParameter ..) fun _ => .seq (intParameter? ..) fun _ =>
    .seq (intParameter? ..) fun _ => .seq (sliceOf ..) fun _ => .ite (fun _ => .ret _) fun _ => ?_
  split
  · exact .ret _
  · exact .ite (fun _ => .fault _) fun _ => .ret _

theorem fillMethod (cs : List Char) (name : String) (args : List Value) :
    (Interp.fillMethod cs name args).Steady d p := by
  refine .seq (arity ..) fun _ => .seq (intParameter ..) fun _ => .ite (fun _ => .ret _) fun _ =>
    .seq (fillCharacter ..) fun _ => .ret _

theorem stripMethod (cs : List Char) (name : String) (args : List Value) :
    (Interp.stripMethod cs name args).Steady d p := by
  refine .seq (arity ..) fun _ => ?_
  dsimp only
  split
  · exact .seq (.ret _) fun _ => .ret _
  · exact .seq (.ret _) fun _ => .ret _
  · exact .seq (textParameter ..) fun _ => .seq (.ret _) fun _ => .ret _

theorem plainMethod (s name : String) : (Interp.plainMethod s name).Steady d p := by
  unfold Interp.plainMethod
  dsimp only
  split
  all_goals first
    | exact .ret _
    | exact .alloc rfl

end Lockstep

namespace Interp.InStep

variable {d : Leeway} {p : Rights} {r r' : Interp} (R : r.InStep d r')
include R

theorem textMethod (s name : String) (args : List Value) (keywords : Keywords) :
    Lockstep d p Eq (r.textMethod s name args keywords) (r'.textMethod s name args keywords) := by
  refine .ite (fun _ => .onHeap fun _ _ H => .seq (.check (H.formatBraces ..)) fun _ => .ret _)
    fun _ => .ite (fun _ => .splitMethod ..) fun _ => .seq (.finish ..) fun _ => ?_
  split
  iterate 11 exact .seq (.arity ..) fun _ => .plainMethod ..
  iterate 3 exact .stripMethod ..
  · exact .seq (.arity ..) fun _ => .seq (R.collect _) fun _ => .seq (.joinable ..) fun _ => .ret _
  · exact .seq (.arity ..) fun _ => .seq (.textParameter ..) fun _ =>
      .seq (.textParameter ..) fun _ => .seq (.intParameter? ..) fun _ => .ret _
  iterate 2 exact .seq (.arity ..) fun _ => .seq (.affixes ..) fun _ => .ret _
  iterate 4 exact .findMethod ..
  iterate 4 exact .fillMethod ..
  exact .noMethod ..

theorem builtinMethod (receiver : Value) (name : String) (args : List Value)
    (keywords : Keywords) :
    Lockstep d p Eq (r.builtinMethod receiver name args keywords)
      (r'.builtinMethod receiver name args keywords) := by
  unfold Interp.builtinMethod
  split
  · exact R.textMethod ..
  · refine .onHeap fun h h' H => ?_
    rw [H.typeName]
    refine .ite (fun _ => .noMethod ..) fun _ => ?_
    rcases H.points receiver with same | ⟨_, _, left, right⟩ | ⟨_, left, right⟩
    · rw [same]
      split
      · exact R.listMethod ..
      · exact R.dictMethod ..
      · exact R.setMethod ..
      · exact R.dequeMethod ..
      · exact .seq (.finish ..) fun _ => R.searchMethod ..
      · exact .noMethod ..
    · rw [left, right]
      cases receiver with
      | ref id => exact R.listMethod ..
      | none | bool | int | float | str | builtin => exact .noMethod ..
    · rw [left, right]
      cases receiver with
      | ref id => exact .noMethod ..
      | none | bool | int | float | str | builtin => exact .noMethod ..

end Interp.InStep

end StepTrace
