import StepTrace.Eval.Builtin
import StepTrace.Proofs.Lockstep.Method

/-!
Built-in functions and types in lockstep.
-/

set_option autoImplicit false

namespace StepTrace

namespace Lockstep

variable {d : Leeway} {p : Rights}

/-! ### Functions that run no code of the program -/

theorem textOr (fallback : String) (v : Option Value) : (Interp.textOr fallback v).Steady d p := by
  unfold Interp.textOr
  split
  · exact .ret _
  · exact .ret _
  · exact .ret _
  · exact .faultOn fun _ _ H => by rw [H.typeName]

theorem codeOf (v : Value) : (Interp.codeOf v).Steady d p := by
  unfold Interp.codeOf
  split
  · split
    · exact .ret _
    · exact .fault _
  · exact .faultOn fun _ _ H => by rw [H.typeName]

theorem characterOf (v : Value) : (Interp.characterOf v).Steady d p := by
  refine .seq (intArgument v) fun n => ?_
  split
  · exact .ret _
  · exact .fault _

theorem inBase (base : Nat) (mark : List Char) (v : Value) :
    (Interp.inBase base mark v).Steady d p :=
  .seq (intArgument v) fun _ => .ret _

theorem checked {α β : Type} (e : Except Fault α) (f : α → β) :
    (do return f (← Run.check e) : Run β).Steady d p :=
  .seq (.check rfl) fun _ => .ret _

theorem toInt (args : List Value) (keywords : Keywords) :
    (Interp.toInt args keywords).Steady d p := by
  refine .seq (arity ..) fun _ => ?_
  dsimp only
  split
  · exact .ret _
  · split
    · refine .seq (intArgument _) fun _ => .ite (fun _ => .raise _) fun _ => ?_
      split
      · exact .ret _
      · exact .fault _
    · refine .seq (.ret _) fun _ => .ite (fun _ => .raise _) fun _ => ?_
      split
      · exact .ret _
      · exact .fault _
  · exact .fault _
  · exact checked ..
  · split
    · exact .ret _
    · exact .faultOn fun _ _ H => by rw [H.typeName]

theorem toFloat (args : List Value) : (Interp.toFloat args).Steady d p := by
  refine .seq (arity ..) fun _ => ?_
  split
  · exact .ret _
  · split
    · exact .ret _
    · exact .fault _
  · exact .seq (numberArgument ..) fun _ => .ret _

theorem absolute (v : Value) : (Interp.absolute v).Steady d p := by
  unfold Interp.absolute
  split
  · exact .ret _
  · split
    · exact checked ..
    · exact .faultOn fun _ _ H => by rw [H.typeName]

theorem roundedTo (v : Value) (places : Option Int64) : (Interp.roundedTo v places).Steady d p := by
  unfold Interp.roundedTo
  split
  · exact checked ..
  · exact .ret _
  · split
    · exact .ite (fun _ => checked ..) fun _ => .ret _
    · exact .ret _
    · exact .faultOn fun _ _ H => by rw [H.typeName]

theorem rounded (v : Value) (places : Option Value) : (Interp.rounded v places).Steady d p := by
  unfold Interp.rounded
  split
  · exact .seq (.ret _) fun _ => roundedTo ..
  · exact .seq (.ret _) fun _ => roundedTo ..
  · exact .seq (.map _ (intArgument _)) fun _ => roundedTo ..

theorem quotientAndRemainder (a b : Value) : (Interp.quotientAndRemainder a b).Steady d p :=
  .ite (fun _ => .faultOn fun _ _ H => by rw [H.typeName, H.typeName]) fun _ =>
    .seq (.check rfl) fun _ => .alloc rfl

theorem commonDivisor (acc : Int64) (vs : List Value) :
    (Interp.commonDivisor acc vs).Steady d p := by
  induction vs generalizing acc with
  | nil => exact .ret _
  | cons v rest ih => exact .seq (intArgument v) fun _ => .seq (.check rfl) fun _ => ih _

theorem logarithm (b : Builtin) (args : List Value) : (Interp.logarithm b args).Steady d p := by
  refine .seq (arity ..) fun _ => .seq (numberArgument ..) fun _ =>
    .ite (fun _ => .raise _) fun _ => ?_
  dsimp only
  split
  · exact .ret _
  · exact .ret _
  · exact .seq (numberArgument ..) fun _ => .ite (fun _ => .raise _) fun _ => .ret _
  · exact .ret _

theorem raiseRoot (n : Nat) {k l : Nat} (fuel : d.Fuels k l) (root : Nat) :
    Lockstep d p Eq (Interp.raiseRoot n k root) (Interp.raiseRoot n l root) := by
  induction fuel generalizing root with
  | spent => exact .op .outOfFuel
  | starved h l => exact .starved h _
  | more _ ih => exact .ite (fun _ => ih _) fun _ => .ret _

theorem numbered (n : Int64) (out : Array Value) (vs : List Value) :
    (Interp.numbered n out vs).Steady d p := by
  induction vs generalizing n out with
  | nil => exact .ret out
  | cons v rest ih => exact .seq (.alloc rfl) fun _ => ih ..

theorem eachRow {make make' : List Value → Run Value}
    (hmake : ∀ row, Lockstep d p Eq (make row) (make' row)) (columns : List (Array Value))
    (count i : Nat) (out : Array Value) :
    Lockstep d p Eq (Interp.eachRow make columns count i out)
      (Interp.eachRow make' columns count i out) := by
  induction count generalizing i out with
  | zero => exact .ret out
  | succ count ih => exact .seq (hmake _) fun _ => ih ..

theorem rangeOf (start stop step : Int64) : (Interp.rangeOf start stop step).Steady d p :=
  .ite (fun _ => .fault _) fun _ => .alloc rfl

theorem makeRange (args : List Value) : (Interp.makeRange args).Steady d p := by
  refine .seq (arity ..) fun _ => .seq (mapM intArgument args) fun bounds => ?_
  split <;> exact rangeOf ..

theorem makeDefaultDict (args : List Value) : (Interp.makeDefaultDict args).Steady d p := by
  refine .seq (arity ..) fun _ => .onHeap fun h h' H => ?_
  rw [H.isCallable]
  exact .ite (fun _ => .alloc rfl) fun _ => .fault _

theorem attribute? (b : Builtin) (args : List Value) : (Interp.attribute? b args).Steady d p := by
  refine .seq (arity ..) fun _ => ?_
  split
  · refine .onHeap fun h h' H => ?_
    rw [H.attr]
    split
    · next found done => exact .settle (Heap.hasGlobal_attr done)
    · next found done _ => exact .seq (.settle (Heap.hasGlobal_attr done)) fun _ => .ret _
    · split
      · exact .ret _
      · exact .fault _
    · exact .ret _
  · exact .fault _

theorem makeSuper (args : List Value) : (Interp.makeSuper args).Steady d p := by
  refine .seq (arity ..) fun _ => .bind (.op .frame) ?_
  rintro f _ ⟨rfl, -⟩
  split
  · exact .alloc rfl
  · exact .fault _

end Lockstep

namespace Interp.InStep

variable {d : Leeway} {p : Rights} {r r' : Interp} (R : r.InStep d r')
include R

/-! ### Functions that may run code of the program -/

theorem displayAll (vs : List Value) : Lockstep d p Eq (r.displayAll vs) (r'.displayAll vs) := by
  induction vs with
  | nil => exact .ret []
  | cons v rest ih => exact .seq (R.display v) fun _ => .seq ih fun _ => .ret _

theorem printValues (args : List Value) (keywords : Keywords) :
    Lockstep d p Eq (r.printValues args keywords) (r'.printValues args keywords) :=
  .seq (.textOr ..) fun _ => .seq (.textOr ..) fun _ => .seq (R.displayAll args) fun _ =>
    .seq (.op (.print _)) fun _ => .ret _

theorem messageOf (args : List Value) : Lockstep d p Eq (r.messageOf args) (r'.messageOf args) := by
  unfold Interp.messageOf
  split
  · exact .ret _
  · exact R.display _
  · exact .seq (.alloc rfl) fun _ => R.display _

theorem formatValue (v : Value) (spec : Option Value) :
    Lockstep d p Eq (r.formatValue v spec) (r'.formatValue v spec) := by
  unfold Interp.formatValue
  split
  · exact .seq (R.display v) fun _ => .ret _
  · exact .seq (R.display v) fun _ => .ret _
  · exact .onHeap fun _ _ H => .seq (.check (H.format ..)) fun _ => .ret _
  · exact .faultOn fun _ _ H => by rw [H.typeName]

theorem total (acc : Value) (vs : List Value) :
    Lockstep d p Eq (r.total acc vs) (r'.total acc vs) := by
  induction vs generalizing acc with
  | nil => exact .ret acc
  | cons v rest ih => exact .seq (R.binary ..) fun _ => ih _

theorem collectAll (vs : List Value) : Lockstep d p Eq (r.collectAll vs) (r'.collectAll vs) := by
  induction vs with
  | nil => exact .ret []
  | cons v rest ih => exact .seq (R.collect v) fun _ => .seq ih fun _ => .ret _

theorem kept (f : Value) (out : Array Value) (vs : List Value) :
    Lockstep d p Eq (r.kept f out vs) (r'.kept f out vs) := by
  induction vs generalizing out with
  | nil => exact .ret out
  | cons v rest ih =>
    refine .ite (fun _ => .seq (.ret v) ?_) fun _ => .seq (R.call f [v] []) ?_
    all_goals
      refine fun answer => .onHeap fun h h' H => ?_
      rw [H.truthy]
      exact ih _

theorem itemsOfArgument (args : List Value) :
    Lockstep d p Eq (r.itemsOfArgument args) (r'.itemsOfArgument args) := by
  unfold Interp.itemsOfArgument
  split
  · exact R.collect _
  · exact .ret _

theorem sequenceFunction (b : Builtin) (args : List Value) (keywords : Keywords) :
    Lockstep d p Eq (r.sequenceFunction b args keywords) (r'.sequenceFunction b args keywords) := by
  unfold Interp.sequenceFunction
  dsimp only
  split
  · exact .seq (.arity ..) fun _ => .ite (fun _ => .raise _) fun _ =>
      .seq (R.collect _) fun _ => R.total ..
  · refine .seq (.arity ..) fun _ => .seq (.finish ..) fun _ => .seq (R.collect _) fun _ =>
      .onHeap fun h h' H => ?_
    rw [H.truths]
    exact .seq (R.sorted ..) fun _ => .alloc rfl
  · exact .seq (.arity ..) fun _ => .seq (R.collect _) fun _ => .alloc rfl
  · refine .seq (.arity ..) fun _ => ?_
    split
    · exact .seq (.intArgument _) fun _ => .seq (R.collect _) fun _ =>
        .seq (.numbered ..) fun _ => .alloc rfl
    · exact .seq (.ret _) fun _ => .seq (R.collect _) fun _ =>
        .seq (.numbered ..) fun _ => .alloc rfl
  · exact .seq (R.collectAll _) fun _ => .seq (.eachRow (fun _ => .alloc rfl) ..) fun _ => .alloc rfl
  · exact .seq (.arity ..) fun _ => .seq (R.collectAll _) fun _ =>
      .seq (.eachRow (fun _ => R.call ..) ..) fun _ => .alloc rfl
  · exact .seq (.arity ..) fun _ => .seq (R.collect _) fun _ => .seq (R.kept ..) fun _ => .alloc rfl
  · refine .seq (.arity ..) fun _ => .seq (R.collect _) fun _ => .onHeap fun h h' H => ?_
    rw [H.truths]
    exact .ret _
  · refine .seq (.arity ..) fun _ => .seq (R.collect _) fun _ => .onHeap fun h h' H => ?_
    rw [H.truths]
    exact .ret _
  · exact .seq (.arity ..) fun _ => .seq (R.itemsOfArgument _) fun _ => .alloc rfl
  · exact .seq (.arity ..) fun _ => .seq (R.itemsOfArgument _) fun _ => .alloc rfl
  · exact .seq (.arity ..) fun _ => .seq (R.itemsOfArgument _) fun _ =>
      .seq (.setOf ..) fun _ => .alloc rfl
  · exact .seq (.arity ..) fun _ => .seq (R.itemsOfArgument _) fun _ => .alloc rfl
  · refine .seq (.arity ..) fun _ => ?_
    split
    · exact .seq (R.addEntries ..) fun _ => .alloc rfl
    · exact .seq (.ret _) fun _ => .alloc rfl

theorem mathFunction (b : Builtin) (args : List Value) :
    Lockstep d p Eq (r.mathFunction b args) (r'.mathFunction b args) := by
  unfold Interp.mathFunction
  dsimp only
  split
  · exact .seq (.arity ..) fun _ => .seq (.numberArgument ..) fun _ =>
      .ite (fun _ => .fault _) fun _ => .ret _
  iterate 2
    · refine .seq (.arity ..) fun _ => ?_
      split
      · exact .ret _
      · exact .seq (.numberArgument ..) fun _ => .checked ..
  · exact .commonDivisor ..
  · exact .seq (.arity ..) fun _ => .seq (.numberArgument ..) fun _ => .ret _
  · exact .seq (.arity ..) fun _ => .seq (.intArgument _) fun _ =>
      .ite (fun _ => .raise _) fun _ => .seq (.raiseRoot _ R.fuel _) fun _ => .ret _
  · exact .seq (.arity ..) fun _ => .seq (.intArgument _) fun _ =>
      .ite (fun _ => .raise _) fun _ => .checked ..
  · exact .seq (.arity ..) fun _ => .seq (.numberArgument ..) fun _ =>
      .seq (.numberArgument ..) fun _ => .ret _
  · exact .logarithm ..

theorem valueFunction (b : Builtin) (args : List Value) (keywords : Keywords) :
    Lockstep d p Eq (r.valueFunction b args keywords) (r'.valueFunction b args keywords) := by
  unfold Interp.valueFunction
  dsimp only
  split
  · exact .seq (.arity ..) fun _ => .seq (.op .nextInput) fun _ => .ret _
  · exact .seq (.arity ..) fun _ => .seq (R.length _) fun _ => .ret _
  · exact .makeRange _
  · exact .seq (.arity ..) fun _ => .absolute _
  · exact .seq (.arity ..) fun _ => .rounded ..
  · exact .seq (.arity ..) fun _ => .seq (R.represent _) fun _ => .ret _
  · refine .seq (.arity ..) fun _ => .onHeap fun h h' H => ?_
    rw [H.size, H.isInstanceOf]
    exact .checked ..
  · exact .attribute? ..
  · exact .attribute? ..
  · exact .seq (.arity ..) fun _ => .codeOf _
  · exact .seq (.arity ..) fun _ => .characterOf _
  · exact .seq (.arity ..) fun _ => .quotientAndRemainder ..
  · refine .seq (.arity ..) fun _ => ?_
    split
    · exact .seq (.intArgument _) fun _ => .seq (.intArgument _) fun _ =>
        .seq (.intArgument _) fun _ => .checked ..
    · exact R.binary ..
  iterate 3 exact .seq (.arity ..) fun _ => .inBase ..
  · exact .seq (.arity ..) fun _ => R.formatValue ..
  · exact .makeSuper _
  · exact .toInt ..
  · exact .toFloat _
  · refine .seq (.arity ..) fun _ => ?_
    split
    · exact .seq (R.display _) fun _ => .ret _
    · exact .ret _
  · refine .seq (.arity ..) fun _ => .onHeap fun h h' H => ?_
    rw [H.truths]
    exact .ret _
  · refine .seq (.arity ..) fun _ => .onHeap fun h h' H => ?_
    rw [H.typeOf]
    exact .ret _
  · exact .fault _
  · exact .seq (R.messageOf _) fun _ => .alloc rfl
  · exact .fault _

theorem callBuiltin (b : Builtin) (args : List Value) (keywords : Keywords) :
    Lockstep d p Eq (r.callBuiltin b args keywords) (r'.callBuiltin b args keywords) := by
  have ended : ∀ (name : String) (rest : Keywords) (v : Value),
      (do rest.finish name; return v : Run Value).Steady d p :=
    fun _ _ _ => .seq (.finish ..) fun _ => .ret _
  unfold Interp.callBuiltin
  dsimp only
  refine .ite (fun _ => .seq (.finish ..) fun _ => ?_) fun _ => ?_
  all_goals
    split
    · exact .seq (R.printValues ..) (ended _ _)
    iterate 2 exact .seq (R.extreme ..) (ended _ _)
    iterate 14 exact .seq (R.sequenceFunction ..) (ended _ _)
    iterate 11 exact .seq (R.mathFunction ..) (ended _ _)
    · exact .seq (.makeDefaultDict _) (ended _ _)
    · exact .seq (.arity ..) fun _ => .seq (R.queuePush ..) (ended _ _)
    · exact .seq (.arity ..) fun _ => .seq (R.queuePop ..) (ended _ _)
    · exact .seq (.arity ..) fun _ => .seq (R.queueMake ..) (ended _ _)
    · exact .seq (R.valueFunction ..) (ended _ _)

end Interp.InStep

end StepTrace
